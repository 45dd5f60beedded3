import Sylar.Logging.Arguments

/-! # Doubled percent signs

The loop takes in one percent sign of each adjacent pair and looks at the second one again,
so that the last of a run always begins a directive. A text whose percent signs were doubled
is therefore written back only if it has none.
-/

namespace Sylar.Logging

open Foundation

/-! ## Escaped texts -/

def escape (s : Text) : Text :=
  s.flatMap fun c => if c = '%' then ['%', '%'] else [c]

theorem escape_percent (s : Text) : escape ('%' :: s) = '%' :: '%' :: escape s := rfl

theorem escape_cons {c : Char} (notPercent : c ≠ '%') (s : Text) :
    escape (c :: s) = c :: escape s := by
  simp [escape, notPercent]

theorem escape_append (left right : Text) : escape (left ++ right) = escape left ++ escape right :=
  List.flatMap_append

theorem escape_eq_self {s : Text} (noPercent : '%' ∉ s) : escape s = s := by
  induction s with
  | nil => rfl
  | cons c s induction =>
      rw [escape_cons (Ne.symm (List.ne_of_not_mem_cons noPercent)),
        induction (List.not_mem_of_not_mem_cons noPercent)]

theorem escape_replicate (n : Nat) :
    escape (List.replicate n '%') = List.replicate (2 * n) '%' := by
  induction n with
  | zero => rfl
  | succ n induction =>
      rw [List.replicate_succ, escape_percent, induction]
      rfl

theorem prefix_of_escape {read s : Text} (noPercent : '%' ∉ read) (isPrefix : read <+: escape s) :
    read <+: s := by
  induction read generalizing s with
  | nil => exact List.nil_prefix
  | cons c read induction =>
      have notPercent : c ≠ '%' := Ne.symm (List.ne_of_not_mem_cons noPercent)
      cases s with
      | nil => exact absurd (List.prefix_nil.mp isPrefix) (List.cons_ne_nil _ _)
      | cons first s =>
          by_cases isPercent : first = '%'
          · subst isPercent
            rw [escape_percent, List.cons_prefix_cons] at isPrefix
            exact absurd isPrefix.1 notPercent
          · rw [escape_cons isPercent, List.cons_prefix_cons] at isPrefix
            rw [List.cons_prefix_cons]
            exact ⟨isPrefix.1, induction (List.not_mem_of_not_mem_cons noPercent) isPrefix.2⟩

theorem exists_run (s : Text) :
    ∃ n post, s = List.replicate n '%' ++ post ∧ post.head? ≠ some '%' := by
  induction s with
  | nil => exact ⟨0, [], rfl, by simp⟩
  | cons c s induction =>
      by_cases isPercent : c = '%'
      · rcases induction with ⟨n, post, rfl, ends⟩
        exact ⟨n + 1, post, by rw [isPercent, List.replicate_succ, List.cons_append], ends⟩
      · exact ⟨0, c :: s, rfl, by simp [isPercent]⟩

namespace Segment

theorem split_run (n : Nat) (rest nstr : Text) :
    split (List.replicate n '%' ++ '%' :: rest) 0 nstr =
      split ('%' :: rest) 0 (nstr ++ List.replicate n '%') := by
  induction n generalizing nstr with
  | zero => simp
  | succ n induction =>
      have again : (List.replicate n '%' ++ '%' :: rest).head? = some '%' := by
        cases n <;> rfl
      rw [List.replicate_succ, List.cons_append, split, if_neg (not_not.mpr rfl), if_pos again,
        induction, List.append_assoc]
      rfl

theorem split_escape {before : Text} (noPercent : '%' ∉ before) (n : Nat) (post : Text) :
    split (escape (before ++ (List.replicate (n + 1) '%' ++ post))) 0 [] =
      split ('%' :: escape post) 0 (before ++ List.replicate (2 * n + 1) '%') := by
  have doubled : List.replicate (2 * (n + 1)) '%' ++ escape post =
      List.replicate (2 * n + 1) '%' ++ '%' :: escape post := by
    rw [Nat.mul_succ, List.replicate_succ', List.append_assoc]
    rfl
  rw [escape_append, escape_append, escape_eq_self noPercent, escape_replicate, doubled,
    split_text noPercent, split_run, List.nil_append]

end Segment

/-! ## Written texts -/

/-- What is known of `strftime` with a buffer of 64 characters: the buffer bounds what it
holds, a format of letters and opening braces, as `init` reads it, is copied if it fits, and the date
of the epoch begins with the digits of the year. -/
structure Strftime (strftime : Text → Int → Text) : Prop where
  bounded : ∀ fmt time, (strftime fmt time).length < 64
  copies : ∀ fmt time, (∀ c ∈ fmt, Directive.inFormat c = true) → fmt.length < 64 →
    strftime fmt time = fmt
  year : ∃ digit rest, strftime "%Y:%m:%d %H:%M:%S".toList 0 = digit :: rest ∧
    digit.isDigit = true

/-- The escaped text is a pattern without error, and every event is written as the text. -/
structure Escapes (strftime : Text → Int → Text) (s : Text) : Prop where
  noError : (LogFormatter.new (escape s)).ifError = false
  restored : ∀ loggerName level event,
    (LogFormatter.new (escape s)).format strftime loggerName level event = s

/-- An event in which no item begins with the letter of its directive. -/
def probe : LogEvent where
  file := ['!']
  elapse := 0
  line := 0
  threadId := 0
  fiberId := 0
  time := 0
  content := ['!']
  level := .DEBUG
  threadName := ['!']

namespace Segment

def written (strftime : Text → Int → Text) (segment : Segment) : Text :=
  segment.item.format strftime ['!'] .DEBUG probe

theorem written_flush (strftime : Text → Int → Text) (nstr : Text) :
    (flush nstr).flatMap (written strftime) = nstr := by
  by_cases isEmpty : nstr = []
  · simp [flush, isEmpty]
  · simp [flush, isEmpty, written, item, FormatItem.format]

end Segment

namespace Strftime

variable {strftime : Text → Int → Text}

theorem length_le (spec : Strftime strftime) {fmt : Text}
    (format : ∀ c ∈ fmt, Directive.inFormat c = true) (time : Int) :
    (strftime fmt time).length ≤ fmt.length := by
  by_cases fits : fmt.length < 64
  · rw [spec.copies fmt time format fits]
  · have bounded := spec.bounded fmt time
    omega

/-- A directive writes something that does not begin with its letter, except for a date with a
format. -/
theorem first_character (spec : Strftime strftime) {name fmt : Text} {item : FormatItem}
    (known : FormatItem.ofDirective name fmt = some item) :
    (name = ['d'] ∧ fmt ≠ [] ∧ item = .dateTime fmt) ∨
      ∃ x c out, name = [x] ∧ item.format strftime ['!'] .DEBUG probe = c :: out ∧ c ≠ x := by
  have member : name ∈ directiveNames := by
    by_contra unknown
    rw [(ofDirective_eq_none_iff name fmt).mpr unknown] at known
    cases known
  simp only [directiveNames, List.mem_cons, List.not_mem_nil, or_false] at member
  rcases member with rfl | rfl | rfl | rfl | rfl | rfl | rfl | rfl | rfl | rfl | rfl
  case inr.inr.inr.inr.inr.inr.inl =>
    cases known
    by_cases isEmpty : fmt = []
    · rcases spec.year with ⟨digit, rest, begins, isDigit⟩
      refine Or.inr ⟨'d', digit, rest, rfl, ?_, ?_⟩
      · rw [FormatItem.newDateTime, if_pos isEmpty]
        exact begins
      · intro isLetter
        rw [isLetter] at isDigit
        exact absurd isDigit (by decide)
    · exact Or.inl ⟨rfl, isEmpty, if_neg isEmpty⟩
  all_goals
    cases known
    exact Or.inr ⟨_, _, _, rfl, rfl, by decide⟩

end Strftime

/-! ## Percent signs that are not written back -/

theorem append_brace_ne {out read : Text} (short : out.length < read.length)
    (noClose : '}' ∉ read) (tail later : Text) : out ++ '}' :: tail ≠ read ++ later := by
  intro same
  rcases List.append_eq_append_iff.mp same with ⟨between, rfl, brace⟩ | ⟨between, rfl, -⟩
  · cases between with
    | nil => simp at short
    | cons c between =>
        cases brace
        exact noClose (List.mem_append_right _ List.mem_cons_self)
  · rw [List.length_append] at short
    omega

theorem head?_escape {post : Text} (ends : post.head? ≠ some '%') :
    (escape post).head? = post.head? := by
  cases post with
  | nil => rfl
  | cons c post =>
      rw [escape_cons (fun isPercent => ends (congrArg some isPercent))]
      rfl

namespace Escapes

variable {strftime : Text → Int → Text} {s : Text}

theorem correct (escapes : Escapes strftime s) :
    ∀ segment ∈ Segment.split (escape s) 0 [], segment.isError = false := by
  intro segment member
  rw [← Bool.not_eq_true]
  exact List.any_eq_false.mp escapes.noError segment member

theorem written_eq (escapes : Escapes strftime s) :
    (Segment.split (escape s) 0 []).flatMap (Segment.written strftime) = s := by
  have restored := escapes.restored ['!'] .DEBUG probe
  rw [LogFormatter.format, LogFormatter.new, List.flatMap_map] at restored
  exact restored

theorem not_run {before post : Text} (noPercent : '%' ∉ before) (n : Nat)
    (ends : post.head? ≠ some '%') :
    ¬Escapes strftime (before ++ (List.replicate (n + 2) '%' ++ post)) := by
  intro escapes
  have correct := escapes.correct
  have written := escapes.written_eq
  rw [Segment.split_escape noPercent] at correct written
  rcases Segment.pending_first (by simp) correct with ⟨more, tail, isFirst⟩
  have longer : List.replicate (2 * (n + 1) + 1) '%' =
      List.replicate (n + 2) '%' ++ List.replicate (n + 1) '%' := by
    rw [List.replicate_append_replicate]
    congr 1
    omega
  rw [isFirst, List.flatMap_cons, Segment.written, Segment.item, FormatItem.format, longer]
    at written
  simp only [List.append_assoc, List.append_cancel_left_eq] at written
  rw [List.replicate_succ] at written
  exact ends (written ▸ rfl)

theorem directive_writes {before post name fmt : Text} {later : List Segment}
    (escapes : Escapes strftime (before ++ '%' :: post))
    (begins : Segment.split (escape (before ++ '%' :: post)) 0 [] =
      Segment.flush (before ++ ['%']) ++ .directive name fmt :: later) :
    ∃ item, FormatItem.ofDirective name fmt = some item ∧
      item.format strftime ['!'] .DEBUG probe ++ later.flatMap (Segment.written strftime) =
        post := by
  have correct := escapes.correct
  have written := escapes.written_eq
  rw [begins] at correct written
  have known := correct (.directive name fmt) (List.mem_append_right _ List.mem_cons_self)
  rcases Option.isSome_iff_exists.mp (Option.isNone_eq_false_iff.mp known) with ⟨item, found⟩
  refine ⟨item, found, ?_⟩
  rw [List.flatMap_append, List.flatMap_cons, Segment.written_flush, List.append_assoc,
    List.append_cancel_left_eq, List.singleton_append, List.cons.injEq] at written
  have same : (Segment.directive name fmt).item = item := by
    rw [Segment.item, found, Option.getD_some]
  rw [← same]
  exact written.2

theorem date_ne (spec : Strftime strftime) {post fmt rest : Text}
    (format : ∀ c ∈ fmt, Directive.inFormat c = true)
    (text : escape post = ['d'] ++ '{' :: (fmt ++ '}' :: rest))
    (correct : ∀ segment ∈ Segment.split (['d'] ++ '{' :: (fmt ++ '}' :: rest))
      (1 + 1 + fmt.length) [], segment.isError = false) :
    strftime fmt 0 ++ (Segment.split (['d'] ++ '{' :: (fmt ++ '}' :: rest))
      (1 + 1 + fmt.length) []).flatMap (Segment.written strftime) ≠ post := by
  have noPercent : '%' ∉ fmt := Directive.not_mem_of_inFormat format rfl
  have noClose : '}' ∉ fmt := Directive.not_mem_of_inFormat format rfl
  have isPrefix : 'd' :: '{' :: fmt <+: escape post := ⟨'}' :: rest, by simp [text]⟩
  have noPercentRead : '%' ∉ 'd' :: '{' :: fmt := by simp [noPercent]
  have noCloseRead : '}' ∉ 'd' :: '{' :: fmt := by simp [noClose]
  rcases prefix_of_escape noPercentRead isPrefix with ⟨tail, rfl⟩
  have skipped := Segment.split_skip ('d' :: '{' :: fmt) ('}' :: rest) []
  have length : ('d' :: '{' :: fmt).length = 1 + 1 + fmt.length := by
    rw [List.length_cons, List.length_cons]
    omega
  have read : Segment.split (['d'] ++ '{' :: (fmt ++ '}' :: rest)) (1 + 1 + fmt.length) [] =
      Segment.split rest 0 ['}'] := by
    rw [← length]
    exact skipped
  rw [read] at correct ⊢
  rcases Segment.pending_first (List.cons_ne_nil _ _) correct with ⟨more, later, brace⟩
  rw [brace, List.flatMap_cons]
  apply append_brace_ne _ noCloseRead
  have short := spec.length_le format 0
  rw [length]
  omega

theorem not_single (spec : Strftime strftime) {before post : Text} (noPercent : '%' ∉ before)
    (ends : post.head? ≠ some '%') : ¬Escapes strftime (before ++ '%' :: post) := by
  intro escapes
  have begins := Segment.split_escape noPercent 0 post
  have next : (escape post).head? ≠ some '%' := by rwa [head?_escape ends]
  rw [Segment.split, if_neg (not_not.mpr rfl), if_neg next] at begins
  -- The directive and the rest of the text begin with the same letter.
  have notLetter {x c : Char} {out rest : Text} {later : List Segment}
      (read : escape post = x :: rest)
      (writes : c :: out ++ later.flatMap (Segment.written strftime) = post) : c = x := by
    rw [← writes, List.cons_append] at read ends
    rw [escape_cons (fun isPercent => ends (congrArg some isPercent))] at read
    exact (List.cons.inj read).1
  have reads := Directive.scan_reads (escape post)
  generalize Directive.scan [] (escape post) = directive at begins reads
  generalize text : escape post = rest at begins reads
  cases reads with
  | unterminated => cases escapes.correct .patternError (begins ▸ List.mem_cons_self)
  | plain letters boundary =>
      rcases escapes.directive_writes begins with ⟨item, known, writes⟩
      rcases spec.first_character known with date | ⟨x, c, out, rfl, first, differs⟩
      · exact date.2.1 rfl
      · rw [first] at writes
        exact differs (notLetter text writes)
  | withFormat letters format =>
      rcases escapes.directive_writes begins with ⟨item, known, writes⟩
      rcases spec.first_character known with ⟨rfl, -, rfl⟩ | ⟨x, c, out, rfl, first, differs⟩
      · refine date_ne spec format text ?_ writes
        intro segment member
        exact escapes.correct segment
          (begins ▸ List.mem_append_right _ (List.mem_cons_of_mem _ member))
      · rw [first] at writes
        exact differs (notLetter text writes)

theorem of_not_mem {s : Text} (noPercent : '%' ∉ s) : Escapes strftime s := by
  have read : Segment.split (escape s) 0 [] = Segment.flush s := by
    rw [escape_eq_self noPercent, ← List.append_nil s, Segment.split_text noPercent,
      List.append_nil]
    rfl
  by_cases isEmpty : s = []
  · rw [Segment.flush, if_pos isEmpty] at read
    exact ⟨by rw [LogFormatter.new, read]; rfl,
      fun _ _ _ => by rw [LogFormatter.format, LogFormatter.new, read, isEmpty]; rfl⟩
  · rw [Segment.flush, if_neg isEmpty] at read
    exact ⟨by rw [LogFormatter.new, read]; rfl,
      fun _ _ _ => by
        rw [LogFormatter.format, LogFormatter.new, read]
        exact List.append_nil s⟩

end Escapes

/-- A text is escaped by doubling its percent signs exactly if it has none. -/
theorem escapes_iff (strftime : Text → Int → Text) (spec : Strftime strftime) (s : Text) :
    Escapes strftime s ↔ '%' ∉ s := by
  constructor
  · intro escapes percent
    rcases List.eq_append_cons_of_mem percent with ⟨before, rest, rfl, noPercent⟩
    rcases exists_run rest with ⟨n, post, rfl, ends⟩
    cases n with
    | zero => exact Escapes.not_single spec noPercent ends escapes
    | succ n => exact Escapes.not_run noPercent n ends escapes
  · exact Escapes.of_not_mem

/-- `strftime` at the epoch, for the default format and for formats of letters and opening
braces. -/
def strftimeAtEpoch (fmt : Text) (_time : Int) : Text :=
  if fmt = "%Y:%m:%d %H:%M:%S".toList then "1970:01:01 00:00:00".toList
  else if fmt.all Directive.inFormat = true ∧ fmt.length < 64 then fmt
  else []

theorem escapes_iff_at_epoch :
    Escapes strftimeAtEpoch ['1', '0', '0', '%'] ↔ '%' ∉ ['1', '0', '0', '%'] := by
  apply escapes_iff
  refine ⟨?_, ?_, '1', _, rfl, rfl⟩
  · intro fmt time
    rw [strftimeAtEpoch]
    split
    · decide
    · split
      · rename_i fits
        exact fits.2
      · decide
  · intro fmt time format fits
    have notDefault : fmt ≠ "%Y:%m:%d %H:%M:%S".toList := by
      intro isDefault
      rw [isDefault] at format
      exact absurd (format '%' List.mem_cons_self) (by decide)
    rw [strftimeAtEpoch, if_neg notDefault,
      if_pos ⟨List.all_eq_true.mpr format, fits⟩]

/-- At the end of a text the second percent sign is an error, and before a letter it makes a
directive. -/
theorem escapes_fails :
    ¬Escapes strftimeAtEpoch ['1', '0', '0', '%'] ∧ ¬Escapes strftimeAtEpoch ['5', '%', 'm'] := by
  constructor
  · intro escapes
    exact absurd escapes.noError (by decide)
  · intro escapes
    exact absurd (escapes.restored ['!'] .DEBUG probe) (by decide)

end Sylar.Logging
