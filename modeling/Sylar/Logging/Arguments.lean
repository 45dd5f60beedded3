import Sylar.Logging.Patterns

/-! # Directives with arguments

The scan of a directive stops at a character that cannot belong to it, also within braces,
and the loop goes on at the closing brace. A list of pieces that is printed as a pattern is
read back only if no date directive has its format in braces.
-/

namespace Sylar.Logging

open Foundation

/-! ## The loop -/

namespace Segment

theorem newDateTime_ne_string (fmt content : Text) :
    FormatItem.newDateTime fmt ≠ .string content := by
  rw [FormatItem.newDateTime]
  split
  all_goals
    intro isString
    cases isString

theorem ofDirective_ne_string (name fmt content : Text) :
    FormatItem.ofDirective name fmt ≠ some (.string content) := by
  have entry (known : Prop) [Decidable known] {item : FormatItem} {rest : Option FormatItem}
      (notString : item ≠ .string content) (later : rest ≠ some (.string content)) :
      (if known then some item else rest) ≠ some (.string content) := by
    split
    · exact fun isString => notString (Option.some.inj isString)
    · exact later
  rw [FormatItem.ofDirective]
  repeat' apply entry
  all_goals first
    | exact newDateTime_ne_string fmt content
    | intro isString
      cases isString

theorem pending_first {pattern : Text} {skip : Nat} {nstr : Text} (pending : nstr ≠ [])
    (correct : ∀ segment ∈ split pattern skip nstr, segment.isError = false) :
    ∃ more tail, split pattern skip nstr = .text (nstr ++ more) :: tail := by
  induction pattern generalizing skip nstr with
  | nil => exact ⟨[], [], by simp [split, flush, pending]⟩
  | cons char rest induction =>
      cases skip with
      | succ skip => exact induction pending correct
      | zero =>
          rcases split_cons char rest nstr with taken | ⟨name, fmt, skip, ends⟩ | fails
          · rw [taken] at correct ⊢
            rcases induction (List.append_ne_nil_of_left_ne_nil pending _) correct with
              ⟨more, tail, isFirst⟩
            exact ⟨char :: more, tail, by rw [isFirst, List.append_assoc]; rfl⟩
          · exact ⟨[], _, by rw [ends, flush, if_neg pending, List.append_nil]; rfl⟩
          · rw [fails] at correct
            cases correct .patternError List.mem_cons_self

end Segment

namespace Directive

/-- The scan within braces reads a format to its end, or stops at a character that cannot
belong to it. -/
theorem scanFormat_eq (name acc : Text) {fmt : Text} (noClose : '}' ∉ fmt) (rest : Text) :
    scanFormat name acc (fmt ++ '}' :: rest) =
      if fmt.all continues then .withFormat name (acc ++ fmt) else .unterminated := by
  induction fmt generalizing acc with
  | nil => simp [scanFormat, continues]
  | cons char fmt induction =>
      have notClose : char ≠ '}' := Ne.symm (List.ne_of_not_mem_cons noClose)
      rw [List.cons_append, scanFormat, List.all_cons]
      cases belongs : continues char with
      | false => simp
      | true => simp [notClose, induction (acc ++ [char]) (List.not_mem_of_not_mem_cons noClose)]

end Directive

/-! ## Pieces -/

/-- What a pattern is put together from: text, `%x` and `%d{fmt}`. -/
inductive Piece
  | literal (content : Text)
  | plain (x : Char)
  | date (fmt : Text)
deriving DecidableEq, Repr

namespace Piece

def text : Piece → Text
  | .literal content => content
  | .plain x => ['%', x]
  | .date fmt => '%' :: 'd' :: '{' :: (fmt ++ ['}'])

def item : Piece → FormatItem
  | .literal content => .string content
  | .plain x => (FormatItem.ofDirective [x] []).getD (.string [x])
  | .date fmt => .newDateTime fmt

def Valid : Piece → Prop
  | .literal content => content ≠ [] ∧ '%' ∉ content ∧ '{' ∉ content ∧ '}' ∉ content
  | .plain x => [x] ∈ directiveNames
  | .date fmt => '}' ∉ fmt

def MayPrecede : Piece → Piece → Prop
  | .literal _, .literal _ => False
  | .plain _, .literal content => ∀ c, content.head? = some c → c.isAlpha = false
  | _, _ => True

def Printable : List Piece → Prop
  | [] => True
  | piece :: rest =>
      piece.Valid ∧ (∀ next, rest.head? = some next → piece.MayPrecede next) ∧ Printable rest

def print (pieces : List Piece) : Text :=
  pieces.flatMap text

def segment : Piece → Segment
  | .literal content => .text content
  | .plain x => .directive [x] []
  | .date fmt => .directive ['d'] fmt

theorem isAlpha_of_mem {x : Char} (known : [x] ∈ directiveNames) : x.isAlpha = true := by
  have letters : directiveNames.all (fun name => name.all Char.isAlpha) = true := by decide
  have all := List.all_eq_true.mp letters [x] known
  simpa using all

theorem scan_plain {x : Char} (known : [x] ∈ directiveNames) {rest : Text}
    (boundary : Directive.Boundary rest) : Directive.scan [] (x :: rest) = .plain [x] := by
  have letters : ∀ c ∈ [x], Directive.inName c = true := by
    intro c member
    rw [List.mem_singleton.mp member, Directive.inName, isAlpha_of_mem known, Bool.true_or]
  exact (Directive.Reads.plain letters boundary).scan_eq

theorem split_plain {x : Char} (known : [x] ∈ directiveNames) {rest : Text}
    (boundary : Directive.Boundary rest) (nstr : Text) :
    Segment.split ('%' :: x :: rest) 0 nstr =
      Segment.flush nstr ++ .directive [x] [] :: Segment.split rest 0 [] := by
  have notPercent : (x :: rest).head? ≠ some '%' := by
    intro isPercent
    have letter := isAlpha_of_mem known
    rw [Option.some.inj isPercent] at letter
    exact absurd letter (by decide)
  rw [Segment.split, if_neg (not_not.mpr rfl), if_neg notPercent, scan_plain known boundary]
  rfl

theorem boundary_percent (rest : Text) : Directive.Boundary ('%' :: rest) := by
  intro c isFirst
  rw [← Option.some.inj isFirst]
  decide

theorem boundary_print {x : Char} {pieces : List Piece}
    (printable : Printable (.plain x :: pieces)) {rest : Text}
    (boundary : Directive.Boundary rest) : Directive.Boundary (print pieces ++ rest) := by
  rcases printable with ⟨-, follows, valid⟩
  cases pieces with
  | nil => exact boundary
  | cons next pieces =>
      cases next with
      | plain | date => exact boundary_percent _
      | literal content =>
          rcases valid.1 with ⟨nonempty, -, noOpen, noClose⟩
          rcases List.exists_cons_of_ne_nil nonempty with ⟨c, content, rfl⟩
          intro first isFirst
          cases Option.some.inj isFirst
          rw [Directive.continues_eq_isAlpha (Ne.symm (List.ne_of_not_mem_cons noOpen))
            (Ne.symm (List.ne_of_not_mem_cons noClose))]
          exact follows _ rfl c rfl

theorem split_print {pieces : List Piece} (printable : Printable pieces)
    (dateless : ∀ fmt, .date fmt ∉ pieces) {rest : Text} (boundary : Directive.Boundary rest)
    (nstr : Text) :
    ∃ segments pending,
      Segment.split (print pieces ++ rest) 0 nstr =
          segments ++ Segment.split rest 0 pending ∧
        ((nstr = [] ∨ ∀ content, pieces.head? ≠ some (.literal content)) →
          segments ++ Segment.flush pending = Segment.flush nstr ++ pieces.map segment) := by
  induction pieces generalizing nstr with
  | nil => exact ⟨[], nstr, rfl, fun _ => by simp⟩
  | cons piece pieces induction =>
      have datelessLater : ∀ fmt, .date fmt ∉ pieces :=
        fun fmt member => dateless fmt (List.mem_cons_of_mem _ member)
      cases piece with
      | date fmt => exact absurd List.mem_cons_self (dateless fmt)
      | literal content =>
          rcases printable with ⟨⟨nonempty, noPercent, -, -⟩, follows, printableLater⟩
          rcases induction printableLater datelessLater (nstr ++ content) with
            ⟨segments, pending, split, flushed⟩
          refine ⟨segments, pending, ?_, ?_⟩
          · rw [← split, ← Segment.split_text noPercent, ← List.append_assoc]
            rfl
          · intro starts
            have isEmpty : nstr = [] := starts.resolve_right (fun other => other content rfl)
            have notLiteral : ∀ content, pieces.head? ≠ some (.literal content) :=
              fun content isNext => follows _ isNext
            rw [flushed (Or.inr notLiteral), isEmpty, List.nil_append, Segment.flush,
              if_neg nonempty]
            rfl
      | plain x =>
          rcases induction printable.2.2 datelessLater [] with
            ⟨segments, pending, split, flushed⟩
          refine ⟨Segment.flush nstr ++ .directive [x] [] :: segments, pending, ?_, ?_⟩
          · have reads := split_plain printable.1 (boundary_print printable boundary) nstr
            rw [split] at reads
            rw [List.append_assoc]
            exact reads
          · intro _
            rw [List.append_assoc, List.cons_append, flushed (Or.inl rfl)]
            rfl

def RoundTrips (pieces : List Piece) : Prop :=
  (LogFormatter.new (print pieces)).items = pieces.map item ∧
    (LogFormatter.new (print pieces)).ifError = false

theorem item_segment (piece : Piece) (valid : piece.Valid) :
    piece.segment.item = piece.item ∧ piece.segment.isError = false := by
  cases piece with
  | literal content => exact ⟨rfl, rfl⟩
  | plain x =>
      refine ⟨rfl, ?_⟩
      have known : FormatItem.ofDirective [x] [] ≠ none := fun unknown =>
        (ofDirective_eq_none_iff [x] []).mp unknown valid
      exact Option.isNone_eq_false_iff.mpr (Option.isSome_iff_ne_none.mpr known)
  | date fmt => exact ⟨rfl, rfl⟩

theorem Printable.valid {pieces : List Piece} (printable : Printable pieces) :
    ∀ piece ∈ pieces, piece.Valid := by
  induction pieces with
  | nil => exact fun _ member => absurd member List.not_mem_nil
  | cons piece pieces induction =>
      exact List.forall_mem_cons.mpr ⟨printable.1, induction printable.2.2⟩

theorem roundTrips_of_dateless {pieces : List Piece} (printable : Printable pieces)
    (dateless : ∀ fmt, .date fmt ∉ pieces) : RoundTrips pieces := by
  have atEnd : Directive.Boundary [] := fun c isFirst => by cases isFirst
  rcases split_print printable dateless atEnd [] with ⟨segments, pending, split, flushed⟩
  have read : Segment.split (print pieces) 0 [] = pieces.map segment := by
    rw [← List.append_nil (print pieces), split]
    exact flushed (Or.inl rfl)
  constructor
  · rw [LogFormatter.new, read, List.map_map]
    exact List.map_congr_left fun piece member =>
      (item_segment piece (printable.valid piece member)).1
  · rw [LogFormatter.new, read, List.any_map, List.any_eq_false]
    intro piece member
    rw [Bool.not_eq_true]
    exact (item_segment piece (printable.valid piece member)).2

theorem Printable.of_append {before after : List Piece}
    (printable : Printable (before ++ after)) : Printable before ∧ Printable after := by
  induction before with
  | nil => exact ⟨trivial, printable⟩
  | cons piece before induction =>
      rcases printable with ⟨valid, follows, later⟩
      refine ⟨⟨valid, ?_, (induction later).1⟩, (induction later).2⟩
      intro next isNext
      apply follows
      change (before ++ after).head? = some next
      rw [List.head?_append, isNext]
      rfl

theorem split_date {fmt : Text} (noClose : '}' ∉ fmt) (rest nstr : Text) :
    Segment.split ('%' :: 'd' :: '{' :: (fmt ++ '}' :: rest)) 0 nstr =
      if fmt.all Directive.continues then
        Segment.flush nstr ++ .directive ['d'] fmt :: Segment.split rest 0 ['}']
      else
        .patternError :: Segment.split ('d' :: '{' :: (fmt ++ '}' :: rest)) 0 nstr := by
  have scanned : Directive.scan [] ('d' :: '{' :: (fmt ++ '}' :: rest)) =
      Directive.scanFormat ['d'] [] (fmt ++ '}' :: rest) := rfl
  have skipped := Segment.split_skip ('d' :: '{' :: fmt) ('}' :: rest) []
  have length : ('d' :: '{' :: fmt : Text).length = ['d'].length + 1 + fmt.length := by
    simp
    omega
  rw [length] at skipped
  rw [Segment.split, if_neg (not_not.mpr rfl), if_neg (by simp), scanned,
    Directive.scanFormat_eq _ _ noClose]
  by_cases belongs : fmt.all Directive.continues = true
  · rw [if_pos belongs, if_pos belongs]
    exact congrArg (fun later => Segment.flush nstr ++ .directive ['d'] fmt :: later) skipped
  · rw [if_neg belongs, if_neg belongs]

theorem item_ne_string_close {piece : Piece} (valid : piece.Valid) (more : Text) :
    piece.item ≠ .string ('}' :: more) := by
  intro isString
  cases piece with
  | literal content =>
      rw [FormatItem.string.inj isString] at valid
      exact valid.2.2.2 List.mem_cons_self
  | plain x =>
      rw [item] at isString
      cases found : FormatItem.ofDirective [x] [] with
      | none => exact (ofDirective_eq_none_iff [x] []).mp found valid
      | some known =>
          rw [found, Option.getD_some] at isString
          exact Segment.ofDirective_ne_string [x] [] ('}' :: more) (isString ▸ found)
  | date fmt => exact Segment.newDateTime_ne_string fmt _ isString

theorem not_roundTrips_of_date {before after : List Piece} {fmt : Text}
    (printable : Printable (before ++ .date fmt :: after))
    (dateless : ∀ fmt, .date fmt ∉ before) : ¬RoundTrips (before ++ .date fmt :: after) := by
  intro roundTrips
  rcases roundTrips with ⟨items, noError⟩
  rcases Printable.of_append printable with ⟨printableBefore, noClose, -, printableAfter⟩
  have printed : print (before ++ .date fmt :: after) =
      print before ++ '%' :: 'd' :: '{' :: (fmt ++ '}' :: print after) := by
    simp [print, text]
  rcases split_print printableBefore dateless
      (boundary_percent ('d' :: '{' :: (fmt ++ '}' :: print after))) [] with
    ⟨segments, pending, read, flushed⟩
  rw [LogFormatter.new, printed, read, split_date noClose] at items noError
  have correct := List.any_eq_false.mp noError
  by_cases belongs : fmt.all Directive.continues = true
  · rw [if_pos belongs, ← List.append_assoc, flushed (Or.inl rfl)] at items correct
    have restCorrect : ∀ segment ∈ Segment.split (print after) 0 ['}'],
        segment.isError = false := by
      intro segment member
      rw [← Bool.not_eq_true]
      exact correct segment (List.mem_append_right _ (List.mem_cons_of_mem _ member))
    rcases Segment.pending_first (List.cons_ne_nil _ _) restCorrect with ⟨more, tail, brace⟩
    have same : (before.map segment).map Segment.item = before.map item := by
      rw [List.map_map]
      exact List.map_congr_left fun piece member =>
        (item_segment piece (printableBefore.valid piece member)).1
    rw [brace] at items
    simp only [Segment.flush, if_true, List.nil_append, List.map_append, same,
      List.append_cancel_left_eq, List.map_cons, List.cons.injEq] at items
    cases after with
    | nil => cases items.2
    | cons piece after =>
        exact item_ne_string_close printableAfter.1 more (List.cons.inj items.2).1.symm
  · rw [if_neg belongs] at correct
    exact correct .patternError (List.mem_append_right _ List.mem_cons_self) rfl

theorem exists_first_date {pieces : List Piece} {fmt : Text} (member : .date fmt ∈ pieces) :
    ∃ before fmt after, pieces = before ++ .date fmt :: after ∧
      ∀ fmt, .date fmt ∉ before := by
  induction pieces with
  | nil => cases member
  | cons piece pieces induction =>
      cases piece with
      | date fmt => exact ⟨[], fmt, pieces, rfl, fun _ => List.not_mem_nil⟩
      | literal | plain =>
          have later : .date fmt ∈ pieces := by simpa using member
          rcases induction later with ⟨before, fmt, after, rfl, dateless⟩
          exact ⟨_ :: before, fmt, after, rfl, fun fmt => by simp [dateless fmt]⟩

/-- A printed list of pieces is read back exactly if there is no date with a format in it. -/
theorem arguments_round_trip_iff (pieces : List Piece) (printable : Printable pieces) :
    RoundTrips pieces ↔ ∀ fmt, .date fmt ∉ pieces := by
  constructor
  · intro roundTrips fmt member
    rcases exists_first_date member with ⟨before, fmt, after, rfl, dateless⟩
    exact not_roundTrips_of_date printable dateless roundTrips
  · exact roundTrips_of_dateless printable

theorem arguments_round_trip_iff_dateless :
    RoundTrips [.plain 'm', .literal [' '], .plain 'p'] ↔
      ∀ fmt, .date fmt ∉ [plain 'm', literal [' '], plain 'p'] := by
  apply arguments_round_trip_iff
  have message : Valid (.plain 'm') := List.mem_of_elem_eq_true rfl
  have level : Valid (.plain 'p') := List.mem_of_elem_eq_true rfl
  have space : Valid (.literal [' ']) := by simp [Valid]
  refine ⟨message, ?_, space, ?_, level, fun next none => (by cases none), trivial⟩
  · intro next isNext
    cases Option.some.inj isNext
    intro c isFirst
    cases Option.some.inj isFirst
    rfl
  · intro next isNext
    cases Option.some.inj isNext
    trivial

/-- A format of conversions is an error, and one of letters leaves its closing brace. -/
theorem dates_do_not_round_trip :
    (Printable [.date ['%', 'H']] ∧ ¬RoundTrips [.date ['%', 'H']]) ∧
      Printable [.date ['H']] ∧ ¬RoundTrips [.date ['H']] := by
  have printable (fmt : Text) (noClose : '}' ∉ fmt) : Printable [.date fmt] :=
    ⟨noClose, fun next none => (by cases none), trivial⟩
  refine ⟨⟨printable _ (by decide), ?_⟩, printable _ (by decide), ?_⟩
  · intro roundTrips
    exact absurd roundTrips.2 (by decide)
  · intro roundTrips
    exact absurd roundTrips.1 (by decide +kernel)

end Piece

end Sylar.Logging
