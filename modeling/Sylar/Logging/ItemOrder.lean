import Sylar.Logging.Patterns

/-! # The order of items

Each entry that the loop collects stems from a place in the pattern. A directive that is not
closed is entered at once, before the text that was collected in front of it.
-/

namespace Sylar.Logging

open Foundation

/-! ## Places -/

namespace Segment

def flushAt (start : Nat) (nstr : Text) : List (Nat × Segment) :=
  (flush nstr).map fun segment => (start, segment)

theorem map_snd_flushAt (start : Nat) (nstr : Text) :
    (flushAt start nstr).map Prod.snd = flush nstr := by
  rw [flushAt, List.map_map]
  exact List.map_id _

/-- The loop of `split` from the place `i` on, with the place that each entry stems from.
The text collected so far begins at `start`. -/
def located : Text → Nat → Nat → Nat → Text → List (Nat × Segment)
  | [], _, _, start, nstr => flushAt start nstr
  | _ :: rest, i, skip + 1, start, nstr => located rest (i + 1) skip start nstr
  | char :: rest, i, 0, start, nstr =>
      if char ≠ '%' then
        located rest (i + 1) 0 (if nstr = [] then i else start) (nstr ++ [char])
      else if rest.head? = some '%' then
        located rest (i + 1) 0 (if nstr = [] then i else start) (nstr ++ ['%'])
      else
        match Directive.scan [] rest with
        | .plain name =>
            flushAt start nstr ++
              (i, .directive name []) :: located rest (i + 1) name.length start []
        | .withFormat name fmt =>
            flushAt start nstr ++
              (i, .directive name fmt) ::
                located rest (i + 1) (name.length + 1 + fmt.length) start []
        | .unterminated => (i, .patternError) :: located rest (i + 1) 0 start nstr

theorem map_snd_located (pattern : Text) (i skip start : Nat) (nstr : Text) :
    (located pattern i skip start nstr).map Prod.snd = split pattern skip nstr := by
  induction pattern generalizing i skip start nstr with
  | nil => exact map_snd_flushAt start nstr
  | cons char rest induction =>
      cases skip with
      | succ skip => exact induction _ _ _ _
      | zero =>
          rw [located, split]
          split
          · exact induction _ _ _ _
          · split
            · exact induction _ _ _ _
            · cases Directive.scan [] rest <;> simp [map_snd_flushAt, induction]

def StemsFrom (place : Text) : Segment → Prop
  | .text content => content <+: place
  | .directive name fmt => '%' :: name <+: place ∧
      (fmt ≠ [] → '%' :: (name ++ '{' :: (fmt ++ ['}'])) <+: place)
  | .patternError => ∃ rest, place = '%' :: rest ∧ Directive.Reads rest .unterminated

def Increasing (read : List (Nat × Segment)) : Prop :=
  read.Pairwise fun left right => left.1 < right.1

instance (read : List (Nat × Segment)) : Decidable (Increasing read) :=
  inferInstanceAs (Decidable (read.Pairwise fun left right => left.1 < right.1))

end Segment

structure InOrder (pattern : Text) (read : List (Nat × Segment)) : Prop where
  items : (LogFormatter.new pattern).items = read.map fun entry => entry.2.item
  stems : ∀ entry ∈ read, entry.2.StemsFrom (pattern.drop entry.1)
  increasing : Segment.Increasing read

/-! ## Names before a directive -/

def EndsWithName (before : Text) : Prop :=
  ∃ earlier name, before = earlier ++ '%' :: name ∧ name ≠ [] ∧
    ∀ c ∈ name, Directive.inName c = true

/-- A directive that is not closed stands at the beginning, or directly after the name of
another one. -/
def Separated (pattern : Text) : Prop :=
  ∀ before rest, pattern = before ++ '%' :: rest → Directive.Reads rest .unterminated →
    before = [] ∨ EndsWithName before

/-- The same for the rest of a pattern, where nothing has been collected if it is `fresh`. -/
def SeparatedAfter (fresh : Prop) (pattern : Text) : Prop :=
  ∀ before rest, pattern = before ++ '%' :: rest → Directive.Reads rest .unterminated →
    (before = [] ∧ fresh) ∨ EndsWithName before

theorem not_endsWithName_nil : ¬EndsWithName [] := by
  intro ends
  rcases ends with ⟨earlier, name, isNil, -⟩
  cases earlier <;> cases isNil

theorem exists_of_append_eq {read rest before tail : Text} (noPercent : '%' ∉ read)
    (same : read ++ rest = before ++ '%' :: tail) :
    ∃ later, before = read ++ later ∧ rest = later ++ '%' :: tail := by
  rcases List.append_eq_append_iff.mp same with ⟨later, isBefore, isRest⟩ | ⟨more, rfl, isTail⟩
  · exact ⟨later, isBefore, isRest⟩
  · cases more with
    | nil => exact ⟨[], by simp, by simpa using isTail.symm⟩
    | cons c more =>
        cases isTail
        exact absurd (List.mem_append_right _ List.mem_cons_self) noPercent

theorem endsWithName_append {read : Text} (noPercent : '%' ∉ read) (text : Text) :
    EndsWithName (read ++ text) ↔ EndsWithName text := by
  constructor
  · intro ends
    rcases ends with ⟨earlier, name, same, nonempty, letters⟩
    rcases exists_of_append_eq noPercent same with ⟨later, -, isText⟩
    exact ⟨later, name, isText, nonempty, letters⟩
  · intro ends
    rcases ends with ⟨earlier, name, rfl, nonempty, letters⟩
    exact ⟨read ++ earlier, name, by simp, nonempty, letters⟩

theorem endsWithName_percent (text : Text) :
    EndsWithName ('%' :: text) ↔
      EndsWithName text ∨ (text ≠ [] ∧ ∀ c ∈ text, Directive.inName c = true) := by
  constructor
  · intro ends
    rcases ends with ⟨earlier, name, same, nonempty, letters⟩
    cases earlier with
    | nil =>
        cases same
        exact Or.inr ⟨nonempty, letters⟩
    | cons c earlier =>
        cases same
        exact Or.inl ⟨earlier, name, rfl, nonempty, letters⟩
  · intro ends
    rcases ends with ⟨earlier, name, rfl, nonempty, letters⟩ | ⟨nonempty, letters⟩
    · exact ⟨'%' :: earlier, name, rfl, nonempty, letters⟩
    · exact ⟨[], text, rfl, nonempty, letters⟩

/-! ## The loop -/

theorem head?_ne_percent {name rest : Text} (letters : ∀ c ∈ name, Directive.inName c = true) :
    (name ++ '{' :: rest).head? ≠ some '%' := by
  intro percent
  cases name with
  | nil => exact absurd (Option.some.inj percent) (by decide)
  | cons c name =>
      have letter := letters c List.mem_cons_self
      rw [Option.some.inj percent] at letter
      exact absurd letter (by decide)

theorem not_mem_percent {name fmt : Text} (letters : ∀ c ∈ name, Directive.inName c = true)
    (format : ∀ c ∈ fmt, Directive.inFormat c = true) : '%' ∉ name ++ '{' :: fmt := by
  have noName : '%' ∉ name := Directive.not_mem_of_inName letters rfl
  have noFormat : '%' ∉ fmt := Directive.not_mem_of_inFormat format rfl
  simp [noName, noFormat]

/-- What is read after the percent sign of a directive that is closed, what follows, and the
name and format of the directive. -/
inductive Closed : Text → Text → Text → Text → Prop
  | plain {name rest : Text} (letters : ∀ c ∈ name, Directive.inName c = true)
      (ends : Directive.Boundary rest) (single : (name ++ rest).head? ≠ some '%') :
      Closed name rest name []
  | withFormat {name fmt rest : Text} (letters : ∀ c ∈ name, Directive.inName c = true)
      (format : ∀ c ∈ fmt, Directive.inFormat c = true) :
      Closed (name ++ '{' :: fmt) ('}' :: rest) name fmt

namespace Closed

variable {read rest name fmt : Text}

theorem noPercent (closed : Closed read rest name fmt) : '%' ∉ read := by
  cases closed with
  | plain letters => exact Directive.not_mem_of_inName letters rfl
  | withFormat letters format => exact not_mem_percent letters format

theorem scan_eq (closed : Closed read rest name fmt) :
    Directive.scan [] (read ++ rest) = .plain name ∨
      Directive.scan [] (read ++ rest) = .withFormat name fmt := by
  cases closed with
  | plain letters ends => exact Or.inl (Directive.Reads.plain letters ends).scan_eq
  | withFormat letters format =>
      rw [List.append_assoc, List.cons_append]
      exact Or.inr (Directive.Reads.withFormat letters format).scan_eq

theorem not_unterminated (closed : Closed read rest name fmt) :
    ¬Directive.Reads (read ++ rest) .unterminated := by
  intro unclosed
  rcases closed.scan_eq with scanned | scanned
  all_goals
    rw [unclosed.scan_eq] at scanned
    cases scanned

theorem of_percent (closed : Closed read rest name fmt) (percent : rest.head? = some '%') :
    read ≠ [] ∧ ∀ c ∈ read, Directive.inName c = true := by
  cases closed with
  | plain letters ends single =>
      refine ⟨?_, letters⟩
      intro isEmpty
      rw [isEmpty] at single
      exact single percent
  | withFormat => exact absurd (Option.some.inj percent) (by decide)

theorem stops (closed : Closed read rest name fmt) {c : Char} (isFirst : rest.head? = some c)
    (letters : ∀ c ∈ read, Directive.inName c = true) : Directive.inName c = false := by
  cases closed with
  | plain _ ends =>
      by_cases isOpen : c = '{'
      · rw [isOpen]
        rfl
      · rw [Directive.inName_eq isOpen]
        exact ends c isFirst
  | withFormat =>
      have letter := letters '{' (List.mem_append_right _ List.mem_cons_self)
      exact absurd letter (by decide)

theorem stemsFrom (closed : Closed read rest name fmt) :
    (Segment.directive name fmt).StemsFrom ('%' :: (read ++ rest)) := by
  cases closed with
  | plain => exact ⟨⟨rest, rfl⟩, fun nonempty => absurd rfl nonempty⟩
  | @withFormat _ _ rest =>
      exact ⟨⟨'{' :: (fmt ++ '}' :: rest), by simp⟩, fun _ => ⟨rest, by simp⟩⟩

end Closed

inductive Walk : Text → Prop
  | nil : Walk []
  | text {char : Char} {rest : Text} (taken : char ≠ '%' ∨ rest.head? = some '%')
      (later : Walk rest) : Walk (char :: rest)
  | directive {read rest name fmt : Text} (closed : Closed read rest name fmt)
      (later : Walk rest) : Walk ('%' :: (read ++ rest))
  | unterminated {rest : Text} (unclosed : Directive.Reads rest .unterminated)
      (later : Walk rest) : Walk ('%' :: rest)

theorem walk (pattern : Text) : Walk pattern := by
  match pattern with
  | [] => exact .nil
  | char :: rest =>
      by_cases taken : char ≠ '%' ∨ rest.head? = some '%'
      · exact .text taken (walk rest)
      · rcases not_or.mp taken with ⟨isPercent, single⟩
        cases not_not.mp isPercent
        have reads := Directive.scan_reads rest
        generalize Directive.scan [] rest = directive at reads
        cases reads with
        | plain letters ends => exact .directive (.plain letters ends single) (walk _)
        | @withFormat name fmt rest letters format =>
            have later := Walk.directive (.withFormat letters format) (walk ('}' :: rest))
            rwa [List.append_assoc, List.cons_append] at later
        | unterminated letters format ends =>
            exact .unterminated (.unterminated letters format ends) (walk _)
termination_by pattern.length
decreasing_by
  all_goals
    simp only [List.length_cons, List.length_append]
    omega

namespace Segment

theorem located_skip (skipped rest : Text) (i start : Nat) (nstr : Text) :
    located (skipped ++ rest) i skipped.length start nstr =
      located rest (i + skipped.length) 0 start nstr := by
  induction skipped generalizing i with
  | nil => rfl
  | cons char skipped induction =>
      rw [List.cons_append, List.length_cons, located, induction, Nat.add_assoc,
        Nat.add_comm 1]

theorem located_text {char : Char} {rest : Text} (taken : char ≠ '%' ∨ rest.head? = some '%')
    (i start : Nat) (nstr : Text) :
    located (char :: rest) i 0 start nstr =
      located rest (i + 1) 0 (if nstr = [] then i else start) (nstr ++ [char]) := by
  rw [located]
  by_cases isPercent : char = '%'
  · rw [if_neg (not_not.mpr isPercent), if_pos (taken.resolve_left (not_not.mpr isPercent)),
      isPercent]
  · rw [if_pos isPercent]

theorem located_directive {read rest name fmt : Text} (closed : Closed read rest name fmt)
    (i start : Nat) (nstr : Text) :
    located ('%' :: (read ++ rest)) i 0 start nstr =
      flushAt start nstr ++
        (i, .directive name fmt) :: located rest (i + 1 + read.length) 0 start [] := by
  rw [← located_skip, located, if_neg (not_not.mpr rfl)]
  cases closed with
  | plain letters ends single =>
      rw [if_neg single, (Directive.Reads.plain letters ends).scan_eq]
  | @withFormat _ _ rest letters format =>
      have length : (name ++ '{' :: fmt).length = name.length + 1 + fmt.length := by
        rw [List.length_append, List.length_cons]
        omega
      have whole : name ++ '{' :: fmt ++ '}' :: rest = name ++ '{' :: (fmt ++ '}' :: rest) := by
        rw [List.append_assoc, List.cons_append]
      rw [whole, if_neg (head?_ne_percent letters),
        (Directive.Reads.withFormat letters format).scan_eq, length]

theorem located_unterminated {rest : Text} (unclosed : Directive.Reads rest .unterminated)
    (i start : Nat) (nstr : Text) :
    located ('%' :: rest) i 0 start nstr =
      (i, .patternError) :: located rest (i + 1) 0 start nstr := by
  have single : rest.head? ≠ some '%' := by
    cases unclosed with
    | unterminated letters format ends => exact head?_ne_percent letters
  rw [located, if_neg (not_not.mpr rfl), if_neg single, unclosed.scan_eq]

theorem mem_flushAt {start : Nat} {nstr : Text} {entry : Nat × Segment} :
    entry ∈ flushAt start nstr ↔ nstr ≠ [] ∧ entry = (start, .text nstr) := by
  by_cases isEmpty : nstr = []
  · simp [flushAt, flush, isEmpty]
  · simp [flushAt, flush, isEmpty]

theorem mem_located {rest : Text} (walk : Walk rest) {i start : Nat} {nstr : Text}
    {entry : Nat × Segment} (member : entry ∈ located rest i 0 start nstr) :
    (nstr ≠ [] ∧ entry.1 = start) ∨ i ≤ entry.1 := by
  induction walk generalizing i start nstr with
  | nil =>
      rcases mem_flushAt.mp member with ⟨pending, rfl⟩
      exact Or.inl ⟨pending, rfl⟩
  | text taken later induction =>
      rw [located_text taken] at member
      rcases induction member with ⟨-, isStart⟩ | after
      · by_cases isEmpty : nstr = []
        · rw [if_pos isEmpty] at isStart
          exact Or.inr isStart.ge
        · rw [if_neg isEmpty] at isStart
          exact Or.inl ⟨isEmpty, isStart⟩
      · exact Or.inr (Nat.le_of_succ_le after)
  | directive closed later induction =>
      rw [located_directive closed] at member
      rcases List.mem_append.mp member with isText | member
      · rcases mem_flushAt.mp isText with ⟨pending, rfl⟩
        exact Or.inl ⟨pending, rfl⟩
      · rcases List.mem_cons.mp member with rfl | member
        · exact Or.inr (le_refl _)
        · have after := (induction member).resolve_left (fun pending => pending.1 rfl)
          exact Or.inr (by omega)
  | unterminated unclosed later induction =>
      rw [located_unterminated unclosed] at member
      rcases List.mem_cons.mp member with rfl | member
      · exact Or.inr (le_refl _)
      · exact (induction member).imp_right Nat.le_of_succ_le

theorem exists_mem_located {rest : Text} (walk : Walk rest) (i : Nat) {start : Nat}
    {nstr : Text} (pending : nstr ≠ []) :
    ∃ entry ∈ located rest i 0 start nstr, entry.1 = start := by
  induction walk generalizing i nstr with
  | nil => exact ⟨_, mem_flushAt.mpr ⟨pending, rfl⟩, rfl⟩
  | text taken later induction =>
      rw [located_text taken, if_neg pending]
      exact induction _ (List.append_ne_nil_of_left_ne_nil pending _)
  | directive closed later =>
      rw [located_directive closed]
      exact ⟨_, List.mem_append_left _ (mem_flushAt.mpr ⟨pending, rfl⟩), rfl⟩
  | unterminated unclosed later induction =>
      rw [located_unterminated unclosed]
      rcases induction (i + 1) pending with ⟨entry, member, isStart⟩
      exact ⟨entry, List.mem_cons_of_mem _ member, isStart⟩

end Segment

/-! ## Directives that are not closed -/

namespace SeparatedAfter

theorem text_iff {char : Char} {rest : Text} (taken : char ≠ '%' ∨ rest.head? = some '%')
    (fresh : Prop) : SeparatedAfter fresh (char :: rest) ↔ SeparatedAfter False rest := by
  -- The character neither begins a directive nor ends a name.
  have notName (before tail : Text) (same : rest = before ++ '%' :: tail) :
      EndsWithName (char :: before) ↔ EndsWithName before := by
    by_cases isPercent : char = '%'
    · subst isPercent
      rw [endsWithName_percent]
      constructor
      · intro ends
        rcases ends with ends | ⟨nonempty, letters⟩
        · exact ends
        · rcases List.exists_cons_of_ne_nil nonempty with ⟨c, before, rfl⟩
          have percent := taken.resolve_left (not_not.mpr rfl)
          rw [same] at percent
          have letter := letters c List.mem_cons_self
          rw [Option.some.inj percent] at letter
          exact absurd letter (by decide)
      · exact Or.inl
    · have noPercent : '%' ∉ [char] := by simp [Ne.symm isPercent]
      exact endsWithName_append noPercent before
  constructor
  · intro separated before tail same unclosed
    rcases separated (char :: before) tail (congrArg _ same) unclosed with ⟨isNil, -⟩ | ends
    · cases isNil
    · exact Or.inr ((notName before tail same).mp ends)
  · intro separated before tail same unclosed
    cases before with
    | nil =>
        cases same
        have percent := taken.resolve_left (not_not.mpr rfl)
        cases unclosed with
        | unterminated letters format ends =>
            exact absurd percent (head?_ne_percent letters)
    | cons c before =>
        cases same
        rcases separated before tail rfl unclosed with ⟨-, never⟩ | ends
        · exact absurd never not_false
        · exact Or.inr ((notName before tail rfl).mpr ends)

theorem directive_iff {read rest name fmt : Text} (closed : Closed read rest name fmt)
    (fresh : Prop) : SeparatedAfter fresh ('%' :: (read ++ rest)) ↔ SeparatedAfter True rest := by
  constructor
  · intro separated before tail same unclosed
    have whole : '%' :: (read ++ rest) = ('%' :: (read ++ before)) ++ '%' :: tail := by
      rw [same, List.cons_append, List.append_assoc]
    rcases separated _ _ whole unclosed with ⟨isNil, -⟩ | ends
    · cases isNil
    · rw [endsWithName_percent, endsWithName_append closed.noPercent] at ends
      rcases ends with ends | ⟨-, letters⟩
      · exact Or.inr ends
      · cases before with
        | nil => exact Or.inl ⟨rfl, trivial⟩
        | cons c before =>
            rcases List.forall_mem_append.mp letters with ⟨letters, lettersLater⟩
            have stop := closed.stops (by rw [same]; rfl) letters
            rw [lettersLater c List.mem_cons_self] at stop
            cases stop
  · intro separated before tail same unclosed
    cases before with
    | nil =>
        cases same
        exact absurd unclosed closed.not_unterminated
    | cons c before =>
        rcases List.cons.inj same with ⟨isPercent, sameRest⟩
        rcases exists_of_append_eq closed.noPercent sameRest with ⟨later, rfl, rfl⟩
        subst isPercent
        right
        rw [endsWithName_percent, endsWithName_append closed.noPercent]
        rcases separated later tail rfl unclosed with ⟨rfl, -⟩ | ends
        · right
          rw [List.append_nil]
          exact closed.of_percent rfl
        · exact Or.inl ends

theorem unterminated_iff {rest : Text} (unclosed : Directive.Reads rest .unterminated)
    (fresh : Prop) :
    SeparatedAfter fresh ('%' :: rest) ↔ fresh ∧ SeparatedAfter fresh rest := by
  have hasOpen (before tail : Text) (same : rest = before ++ '%' :: tail) : '{' ∈ before := by
    cases unclosed with
    | @unterminated name fmt later letters format ends =>
        have noPercent : '%' ∉ name ++ '{' :: fmt := not_mem_percent letters format
        rw [← List.cons_append, ← List.append_assoc] at same
        rcases exists_of_append_eq noPercent same with ⟨more, rfl, -⟩
        exact List.mem_append_left _ (List.mem_append_right _ List.mem_cons_self)
  constructor
  · intro separated
    constructor
    · rcases separated [] rest rfl unclosed with ⟨-, isFresh⟩ | ends
      · exact isFresh
      · exact absurd ends not_endsWithName_nil
    · intro before tail same unclosedTail
      rcases separated ('%' :: before) tail (congrArg _ same) unclosedTail with ⟨isNil, -⟩ | ends
      · cases isNil
      · rcases (endsWithName_percent before).mp ends with ends | ⟨-, letters⟩
        · exact Or.inr ends
        · exact absurd (letters '{' (hasOpen before tail same)) (by decide)
  · intro separated before tail same unclosedTail
    cases before with
    | nil => exact Or.inl ⟨rfl, separated.1⟩
    | cons c before =>
        cases same
        rcases separated.2 before tail rfl unclosedTail with ⟨rfl, -⟩ | ends
        · cases hasOpen [] tail rfl
        · exact Or.inr ((endsWithName_percent before).mpr (Or.inl ends))

end SeparatedAfter

/-! ## Items -/

namespace Segment

theorem increasing_directive {rest : Text} (walk : Walk rest) {i j start : Nat} {nstr : Text}
    (earlier : nstr ≠ [] → start < i) (advances : i < j) (segment : Segment) :
    Increasing (flushAt start nstr ++ (i, segment) :: located rest j 0 start []) ↔
      Increasing (located rest j 0 start []) := by
  have after (entry : Nat × Segment) (member : entry ∈ located rest j 0 start []) :
      i < entry.1 :=
    advances.trans_le ((mem_located walk member).resolve_left (fun pending => pending.1 rfl))
  rw [Increasing, List.pairwise_append, List.pairwise_cons]
  constructor
  · intro increasing
    exact increasing.2.1.2
  · intro increasing
    refine ⟨?_, ⟨after, increasing⟩, ?_⟩
    · by_cases isEmpty : nstr = []
      · simp [flushAt, flush, isEmpty]
      · simp [flushAt, flush, isEmpty]
    · intro entry isText next member
      rcases mem_flushAt.mp isText with ⟨pending, rfl⟩
      rcases List.mem_cons.mp member with rfl | member
      · exact earlier pending
      · exact (earlier pending).trans (after next member)

theorem increasing_located_iff {rest : Text} (walk : Walk rest) {i start : Nat} {nstr : Text}
    (earlier : nstr ≠ [] → start < i) :
    Increasing (located rest i 0 start nstr) ↔ SeparatedAfter (nstr = []) rest := by
  induction walk generalizing i start nstr with
  | nil =>
      constructor
      · intro _ before tail same
        cases before <;> cases same
      · intro _
        by_cases isEmpty : nstr = []
        · simp [located, flushAt, flush, isEmpty, Increasing]
        · simp [located, flushAt, flush, isEmpty, Increasing]
  | text taken later induction =>
      rw [located_text taken, SeparatedAfter.text_iff taken, induction]
      · simp
      · intro _
        split
        · exact Nat.lt_succ_self i
        · rename_i pending
          exact Nat.lt_succ_of_lt (earlier pending)
  | directive closed later induction =>
      rw [located_directive closed, increasing_directive later earlier (by omega),
        SeparatedAfter.directive_iff closed, induction (fun pending => absurd rfl pending)]
      simp
  | unterminated unclosed later induction =>
      rw [located_unterminated unclosed, SeparatedAfter.unterminated_iff unclosed, Increasing,
        List.pairwise_cons]
      have earlierNext (pending : nstr ≠ []) : start < i + 1 := Nat.lt_succ_of_lt (earlier pending)
      constructor
      · intro increasing
        refine ⟨?_, (induction earlierNext).mp increasing.2⟩
        by_contra pending
        rcases exists_mem_located later (i + 1) pending with ⟨entry, member, isStart⟩
        have after : i < entry.1 := increasing.1 entry member
        rw [isStart] at after
        exact Nat.lt_asymm (earlier pending) after
      · intro separated
        refine ⟨?_, (induction earlierNext).mpr separated.2⟩
        intro entry member
        exact (mem_located later member).resolve_left (fun pending => pending.1 separated.1)

theorem stemsFrom_of_mem {pattern rest : Text} (walk : Walk rest) {i start : Nat} {nstr : Text}
    (here : pattern.drop i = rest) (collected : nstr ≠ [] → pattern.drop start = nstr ++ rest)
    (separated : SeparatedAfter (nstr = []) rest) {entry : Nat × Segment}
    (member : entry ∈ located rest i 0 start nstr) :
    entry.2.StemsFrom (pattern.drop entry.1) := by
  have flushed {rest nstr : Text} {start : Nat}
      (collected : nstr ≠ [] → pattern.drop start = nstr ++ rest)
      (member : entry ∈ flushAt start nstr) : entry.2.StemsFrom (pattern.drop entry.1) := by
    rcases mem_flushAt.mp member with ⟨pending, rfl⟩
    exact ⟨rest, (collected pending).symm⟩
  have advance {i : Nat} {read rest : Text} (here : pattern.drop i = '%' :: (read ++ rest)) :
      pattern.drop (i + 1 + read.length) = rest := by
    rw [Nat.add_assoc, Nat.add_comm 1, ← List.drop_drop, here, List.drop_succ_cons,
      List.drop_left]
  induction walk generalizing i start nstr with
  | nil => exact flushed collected member
  | @text char rest taken later induction =>
      rw [located_text taken] at member
      have next : pattern.drop (i + 1) = rest := by
        rw [← List.drop_drop, here]
        rfl
      refine induction next ?_ ?_ member
      · intro _
        rw [List.append_assoc]
        by_cases isEmpty : nstr = []
        · rw [if_pos isEmpty, isEmpty]
          exact here
        · rw [if_neg isEmpty]
          exact collected isEmpty
      · rw [SeparatedAfter.text_iff taken] at separated
        simpa using separated
  | directive closed later induction =>
      rw [located_directive closed] at member
      rcases List.mem_append.mp member with isText | member
      · exact flushed collected isText
      · rcases List.mem_cons.mp member with rfl | member
        · rw [here]
          exact closed.stemsFrom
        · rw [SeparatedAfter.directive_iff closed] at separated
          exact induction (advance here) (fun pending => absurd rfl pending) (by simpa) member
  | unterminated unclosed later induction =>
      rw [located_unterminated unclosed] at member
      rw [SeparatedAfter.unterminated_iff unclosed] at separated
      rcases List.mem_cons.mp member with rfl | member
      · exact ⟨_, here, unclosed⟩
      · refine induction ?_ (fun pending => absurd separated.1 pending) separated.2 member
        rw [← List.drop_drop, here]
        rfl

end Segment

theorem separatedAfter_iff (pattern : Text) :
    SeparatedAfter ([] = ([] : Text)) pattern ↔ Separated pattern := by
  simp only [SeparatedAfter, Separated, and_true]

/-- The items stem from successive places exactly if every directive that is not closed stands
at the beginning or directly after a name. -/
theorem in_order_iff (pattern : Text) :
    InOrder pattern (Segment.located pattern 0 0 0 []) ↔ Separated pattern := by
  rw [← separatedAfter_iff]
  have increasing : Segment.Increasing (Segment.located pattern 0 0 0 []) ↔
      SeparatedAfter ([] = ([] : Text)) pattern :=
    Segment.increasing_located_iff (walk pattern) (fun pending => absurd rfl pending)
  constructor
  · intro inOrder
    exact increasing.mp inOrder.increasing
  · intro separated
    refine ⟨?_, ?_, increasing.mpr separated⟩
    · rw [LogFormatter.new, ← Segment.map_snd_located pattern 0 0 0 [], List.map_map]
      rfl
    · intro entry member
      exact Segment.stemsFrom_of_mem (walk pattern) rfl (fun pending => absurd rfl pending)
        separated member

/-- The text before a directive that is not closed comes after its error. -/
theorem in_order_fails :
    (LogFormatter.new ['a', '%', '{', 'b']).items =
        [.string "pattern error".toList, .string ['a', '{', 'b']] ∧
      ¬InOrder ['a', '%', '{', 'b'] (Segment.located ['a', '%', '{', 'b'] 0 0 0 []) := by
  constructor
  · rfl
  · intro inOrder
    exact absurd inOrder.increasing (by decide)

end Sylar.Logging
