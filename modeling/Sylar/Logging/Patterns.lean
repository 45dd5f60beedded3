import Mathlib.Data.List.TakeWhile
import Sylar.Logging.LogFormatter

/-! # Patterns without braces

The loop over a pattern takes in texts, skips what the scan of a directive has read, and
flushes the text collected so far at each directive. A pattern without braces and without
adjacent percent signs is read as it looks.
-/

namespace Sylar.Logging

open Foundation

/-! ## The scan and the loop -/

namespace Directive

theorem continues_eq_isAlpha {char : Char} (notOpen : char ≠ '{') (notClose : char ≠ '}') :
    continues char = char.isAlpha := by
  rw [continues, beq_false_of_ne notOpen, beq_false_of_ne notClose, Bool.or_false,
    Bool.or_false]

def inName (char : Char) : Bool :=
  char.isAlpha || char == '}'

def inFormat (char : Char) : Bool :=
  char.isAlpha || char == '{'

theorem inName_eq {char : Char} (notOpen : char ≠ '{') : inName char = continues char := by
  rw [inName, continues, beq_false_of_ne notOpen, Bool.or_false]

theorem inFormat_eq {char : Char} (notClose : char ≠ '}') : inFormat char = continues char := by
  rw [inFormat, continues, beq_false_of_ne notClose, Bool.or_false]

theorem not_mem_of_inName {name : Text} (letters : ∀ c ∈ name, inName c = true) {char : Char}
    (other : inName char = false) : char ∉ name := by
  intro member
  rw [letters char member] at other
  cases other

theorem not_mem_of_inFormat {fmt : Text} (letters : ∀ c ∈ fmt, inFormat c = true) {char : Char}
    (other : inFormat char = false) : char ∉ fmt := by
  intro member
  rw [letters char member] at other
  cases other

def Boundary (rest : Text) : Prop :=
  ∀ c, rest.head? = some c → continues c = false

inductive Reads : Text → Directive → Prop
  | plain {name rest : Text} (letters : ∀ c ∈ name, inName c = true) (ends : Boundary rest) :
      Reads (name ++ rest) (.plain name)
  | withFormat {name fmt rest : Text} (letters : ∀ c ∈ name, inName c = true)
      (format : ∀ c ∈ fmt, inFormat c = true) :
      Reads (name ++ '{' :: (fmt ++ '}' :: rest)) (.withFormat name fmt)
  | unterminated {name fmt rest : Text} (letters : ∀ c ∈ name, inName c = true)
      (format : ∀ c ∈ fmt, inFormat c = true) (ends : Boundary rest) :
      Reads (name ++ '{' :: (fmt ++ rest)) .unterminated

theorem scan_append {read : Text} (letters : ∀ c ∈ read, inName c = true) (name rest : Text) :
    scan name (read ++ rest) = scan (name ++ read) rest := by
  induction read generalizing name with
  | nil => rw [List.append_nil, List.nil_append]
  | cons char read induction =>
      have letter := letters char List.mem_cons_self
      have notOpen : char ≠ '{' := by
        intro isOpen
        rw [isOpen] at letter
        exact absurd letter (by decide)
      rw [inName_eq notOpen] at letter
      rw [List.cons_append, scan, letter, Bool.not_true, if_neg Bool.false_ne_true,
        if_neg notOpen, induction (List.forall_mem_of_forall_mem_cons letters), List.append_assoc]
      rfl

theorem scanFormat_append {read : Text} (format : ∀ c ∈ read, inFormat c = true)
    (name fmt rest : Text) :
    scanFormat name fmt (read ++ rest) = scanFormat name (fmt ++ read) rest := by
  induction read generalizing fmt with
  | nil => rw [List.append_nil, List.nil_append]
  | cons char read induction =>
      have letter := format char List.mem_cons_self
      have notClose : char ≠ '}' := by
        intro isClose
        rw [isClose] at letter
        exact absurd letter (by decide)
      rw [inFormat_eq notClose] at letter
      rw [List.cons_append, scanFormat, letter, Bool.not_true, if_neg Bool.false_ne_true,
        if_neg notClose, induction (List.forall_mem_of_forall_mem_cons format), List.append_assoc]
      rfl

theorem scan_boundary {rest : Text} (ends : Boundary rest) (name : Text) :
    scan name rest = .plain name := by
  cases rest with
  | nil => rfl
  | cons char rest => rw [scan, ends char rfl, Bool.not_false, if_pos rfl]

theorem scanFormat_boundary {rest : Text} (ends : Boundary rest) (name fmt : Text) :
    scanFormat name fmt rest = .unterminated := by
  cases rest with
  | nil => rfl
  | cons char rest => rw [scanFormat, ends char rfl, Bool.not_false, if_pos rfl]

theorem Reads.scan_eq {rest : Text} {directive : Directive} (reads : Reads rest directive) :
    scan [] rest = directive := by
  cases reads with
  | plain letters ends => rw [scan_append letters, scan_boundary ends, List.nil_append]
  | withFormat letters format =>
      rw [scan_append letters]
      change scanFormat _ [] _ = _
      rw [scanFormat_append format]
      rfl
  | unterminated letters format ends =>
      rw [scan_append letters]
      change scanFormat _ [] _ = _
      rw [scanFormat_append format, scanFormat_boundary ends]

theorem exists_span (belongs : Char → Bool) (text : Text) :
    ∃ read rest, text = read ++ rest ∧ (∀ c ∈ read, belongs c = true) ∧
      ∀ c, rest.head? = some c → belongs c = false := by
  refine ⟨text.takeWhile belongs, text.dropWhile belongs,
    List.takeWhile_append_dropWhile.symm, fun _ => List.mem_takeWhile_imp, ?_⟩
  intro c isFirst
  have stops := List.head?_dropWhile_not belongs text
  rw [isFirst] at stops
  exact stops

theorem scan_reads (text : Text) : Reads text (scan [] text) := by
  suffices found : ∃ directive, Reads text directive by
    rcases found with ⟨directive, reads⟩
    rwa [reads.scan_eq]
  rcases exists_span inName text with ⟨name, rest, rfl, letters, stops⟩
  cases rest with
  | nil => exact ⟨_, .plain letters (fun c isFirst => by cases isFirst)⟩
  | cons char rest =>
      by_cases isOpen : char = '{'
      · subst isOpen
        rcases exists_span inFormat rest with ⟨fmt, rest, rfl, format, stopsFormat⟩
        by_cases closes : rest.head? = some '}'
        · rcases List.head?_eq_some_iff.mp closes with ⟨rest, rfl⟩
          exact ⟨_, .withFormat letters format⟩
        · refine ⟨_, .unterminated letters format ?_⟩
          intro c isFirst
          rw [← inFormat_eq (fun isClose => closes (isClose ▸ isFirst))]
          exact stopsFormat c isFirst
      · refine ⟨_, .plain letters ?_⟩
        intro c isFirst
        cases Option.some.inj isFirst
        rw [← inName_eq isOpen]
        exact stops _ rfl

theorem scan_eq {rest : Text} (noOpen : '{' ∉ rest) (noClose : '}' ∉ rest) :
    scan [] rest = .plain (rest.takeWhile Char.isAlpha) := by
  have letters : ∀ c ∈ rest.takeWhile Char.isAlpha, inName c = true := by
    intro c member
    rw [inName, List.mem_takeWhile_imp member, Bool.true_or]
  have ends : Boundary (rest.dropWhile Char.isAlpha) := by
    intro c isFirst
    have member : c ∈ rest := (List.dropWhile_subset _) (List.mem_of_mem_head? isFirst)
    have stops := List.head?_dropWhile_not Char.isAlpha rest
    rw [isFirst] at stops
    rw [continues_eq_isAlpha (ne_of_mem_of_not_mem member noOpen)
      (ne_of_mem_of_not_mem member noClose)]
    exact stops
  have reads := (Reads.plain letters ends).scan_eq
  rwa [List.takeWhile_append_dropWhile] at reads

end Directive

namespace Segment

theorem split_skip (skipped rest nstr : Text) :
    split (skipped ++ rest) skipped.length nstr = split rest 0 nstr := by
  induction skipped with
  | nil => rfl
  | cons char skipped induction => exact induction

theorem split_text {content : Text} (noPercent : '%' ∉ content) (rest nstr : Text) :
    split (content ++ rest) 0 nstr = split rest 0 (nstr ++ content) := by
  induction content generalizing nstr with
  | nil => simp
  | cons char content induction =>
      have notPercent : char ≠ '%' := Ne.symm (List.ne_of_not_mem_cons noPercent)
      rw [List.cons_append, split, if_pos notPercent,
        induction (List.not_mem_of_not_mem_cons noPercent), List.append_assoc]
      rfl

theorem split_cons (char : Char) (rest nstr : Text) :
    split (char :: rest) 0 nstr = split rest 0 (nstr ++ [char]) ∨
      (∃ name fmt skip,
        split (char :: rest) 0 nstr = flush nstr ++ .directive name fmt :: split rest skip []) ∨
      split (char :: rest) 0 nstr = .patternError :: split rest 0 nstr := by
  rw [split]
  by_cases isPercent : char = '%'
  · subst isPercent
    rw [if_neg (not_not.mpr rfl)]
    split
    · exact Or.inl rfl
    · right
      cases Directive.scan [] rest with
      | plain name => exact Or.inl ⟨name, [], name.length, rfl⟩
      | withFormat name fmt => exact Or.inl ⟨name, fmt, name.length + 1 + fmt.length, rfl⟩
      | unterminated => exact Or.inr rfl
  · rw [if_pos isPercent]
    exact Or.inl rfl

end Segment

/-! ## Tokens -/

inductive Token
  | literal (content : Text)
  | directive (name : Text)
deriving DecidableEq, Repr

def tokens : Text → List Token
  | [] => []
  | char :: rest =>
      if char = '%' then
        .directive (rest.takeWhile Char.isAlpha) :: tokens (rest.dropWhile Char.isAlpha)
      else
        .literal (char :: rest.takeWhile (· ≠ '%')) :: tokens (rest.dropWhile (· ≠ '%'))
termination_by pattern => pattern.length
decreasing_by
  all_goals
    rw [List.length_cons]
    exact Nat.lt_succ_of_le (List.dropWhile_sublist _).length_le

namespace Token

def text : Token → Text
  | .literal content => content
  | .directive name => '%' :: name

def item : Token → FormatItem
  | .literal content => .string content
  | .directive name => (FormatItem.ofDirective name []).getD (.string name)

def segment : Token → Segment
  | .literal content => .text content
  | .directive name => .directive name []

theorem item_segment (token : Token) : token.segment.item = token.item := by
  cases token <;> rfl

end Token

theorem flatMap_text_tokens (pattern : Text) : (tokens pattern).flatMap Token.text = pattern := by
  induction pattern using tokens.induct with
  | case1 => simp [tokens]
  | case2 rest induction =>
      rw [tokens, if_pos rfl, List.flatMap_cons, induction, Token.text, List.cons_append,
        List.takeWhile_append_dropWhile]
  | case3 char rest notPercent induction =>
      rw [tokens, if_neg notPercent, List.flatMap_cons, induction, Token.text,
        List.cons_append, List.takeWhile_append_dropWhile]

/-- A pattern without braces and without adjacent percent signs. -/
structure Simple (pattern : Text) : Prop where
  noOpen : '{' ∉ pattern
  noClose : '}' ∉ pattern
  apart : ¬['%', '%'] <:+: pattern

namespace Simple

theorem of_suffix {pattern rest : Text} (simple : Simple pattern) (suffix : rest <:+ pattern) :
    Simple rest where
  noOpen member := simple.noOpen (suffix.subset member)
  noClose member := simple.noClose (suffix.subset member)
  apart within := simple.apart (within.trans suffix.isInfix)

theorem head?_ne {rest : Text} (simple : Simple ('%' :: rest)) : rest.head? ≠ some '%' := by
  intro percent
  rcases List.head?_eq_some_iff.mp percent with ⟨later, rfl⟩
  exact simple.apart ⟨[], later, rfl⟩

theorem split_percent {rest : Text} (simple : Simple ('%' :: rest)) (nstr : Text) :
    Segment.split ('%' :: rest) 0 nstr =
      Segment.flush nstr ++ .directive (rest.takeWhile Char.isAlpha) [] ::
        Segment.split (rest.dropWhile Char.isAlpha) 0 [] := by
  have tail := simple.of_suffix (List.suffix_cons '%' rest)
  have skipped := Segment.split_skip (rest.takeWhile Char.isAlpha)
    (rest.dropWhile Char.isAlpha) []
  rw [List.takeWhile_append_dropWhile] at skipped
  rw [Segment.split, if_neg (not_not.mpr rfl), if_neg simple.head?_ne,
    Directive.scan_eq tail.noOpen tail.noClose, ← skipped]

theorem split_flush {rest nstr : Text} (simple : Simple rest)
    (boundary : rest = [] ∨ rest.head? = some '%') (pending : nstr ≠ []) :
    Segment.split rest 0 nstr = .text nstr :: Segment.split rest 0 [] := by
  rcases boundary with rfl | percent
  · simp [Segment.split, Segment.flush, pending]
  · rcases List.head?_eq_some_iff.mp percent with ⟨later, rfl⟩
    rw [simple.split_percent, simple.split_percent, Segment.flush, if_neg pending]
    rfl

theorem dropWhile_boundary (rest : Text) :
    rest.dropWhile (· ≠ '%') = [] ∨ (rest.dropWhile (· ≠ '%')).head? = some '%' := by
  cases remainder : rest.dropWhile (· ≠ '%') with
  | nil => exact Or.inl rfl
  | cons char later =>
      have stops := List.head?_dropWhile_not (fun char => decide (char ≠ '%')) rest
      rw [remainder] at stops
      right
      simpa using stops

theorem split_eq {pattern : Text} (simple : Simple pattern) :
    Segment.split pattern 0 [] = (tokens pattern).map Token.segment := by
  induction pattern using tokens.induct with
  | case1 => simp [tokens, Segment.split, Segment.flush]
  | case2 rest induction =>
      have later : rest.dropWhile Char.isAlpha <:+ '%' :: rest :=
        (List.dropWhile_suffix _).trans (List.suffix_cons _ _)
      rw [simple.split_percent, induction (simple.of_suffix later), tokens, if_pos rfl]
      rfl
  | case3 char rest notPercent induction =>
      have later : rest.dropWhile (· ≠ '%') <:+ char :: rest :=
        (List.dropWhile_suffix _).trans (List.suffix_cons _ _)
      have whole : char :: rest =
          (char :: rest.takeWhile (· ≠ '%')) ++ rest.dropWhile (· ≠ '%') := by
        rw [List.cons_append, List.takeWhile_append_dropWhile]
      have noPercent : '%' ∉ char :: rest.takeWhile (· ≠ '%') := by
        intro member
        rcases List.mem_cons.mp member with same | taken
        · exact notPercent same.symm
        · simpa using List.mem_takeWhile_imp taken
      rw [tokens, if_neg notPercent, List.map_cons, ← induction (simple.of_suffix later)]
      conv_lhs => rw [whole]
      rw [Segment.split_text noPercent, List.nil_append]
      exact split_flush (simple.of_suffix later) (dropWhile_boundary rest)
        (List.cons_ne_nil _ _)

end Simple

/-! ## Names -/

def directiveNames : List Text :=
  [['m'], ['p'], ['r'], ['c'], ['t'], ['n'], ['d'], ['f'], ['l'], ['F'], ['N']]

theorem ofDirective_eq_none_iff (name fmt : Text) :
    FormatItem.ofDirective name fmt = none ↔ name ∉ directiveNames := by
  have entry (known : Prop) [Decidable known] (item : FormatItem) (rest : Option FormatItem) :
      (if known then some item else rest) = none ↔ ¬known ∧ rest = none := by
    split <;> simp [*]
  simp only [FormatItem.ofDirective, entry, directiveNames, List.mem_cons, List.not_mem_nil,
    not_or, not_false_eq_true, and_true]
  exact Iff.rfl

structure ReadsAs (pattern : Text) (read : List Token) : Prop where
  items : (LogFormatter.new pattern).items = read.map Token.item
  ifError : (LogFormatter.new pattern).ifError = true ↔
    ∃ name, .directive name ∈ read ∧ name ∉ directiveNames
  whole : read.flatMap Token.text = pattern

/-- A simple pattern is read in maximal runs of text and of letters after percent signs. -/
theorem simple_readsAs (pattern : Text) (simple : Simple pattern) :
    ReadsAs pattern (tokens pattern) where
  items := by
    rw [LogFormatter.new, simple.split_eq, List.map_map]
    exact List.map_congr_left fun token _ => token.item_segment
  ifError := by
    rw [LogFormatter.new, simple.split_eq, List.any_map, List.any_eq_true]
    constructor
    · intro failing
      rcases failing with ⟨token, member, isError⟩
      cases token with
      | literal content => cases isError
      | directive name =>
          exact ⟨name, member,
            (ofDirective_eq_none_iff name []).mp (Option.isNone_iff_eq_none.mp isError)⟩
    · intro unknown
      rcases unknown with ⟨name, member, notKnown⟩
      exact ⟨.directive name, member,
        Option.isNone_iff_eq_none.mpr ((ofDirective_eq_none_iff name []).mpr notKnown)⟩
  whole := flatMap_text_tokens pattern

theorem simple_readsAs_mixed :
    ReadsAs ['a', '%', 'm', ' ', '%', 'q', 'q', '5', '%']
      (tokens ['a', '%', 'm', ' ', '%', 'q', 'q', '5', '%']) :=
  simple_readsAs _ ⟨by decide, by decide, by decide⟩

end Sylar.Logging
