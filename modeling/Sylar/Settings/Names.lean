import Mathlib
import Sylar.Settings.Loading

/-! # Names that are registered and names that are loaded

`Lookup` accepts a name for one of its characters, `LoadAllNumber` only for all of them.
`Lookup` stores a variable under the name as it is given, while the variable itself and
the loader use the name in lower case.
-/

namespace Sylar.Settings

open Foundation

namespace Config

variable {Kind : Type} {Val : Kind → Type}

/-! ## The entries -/

theorem lookUpBase_enter (config : Config Val) {name : Text}
    (accepted : findFirstOf name lookupChars ≠ none) (v : ConfigVarBase Val) (sought : Text) :
    (config.enter name accepted v).lookUpBase sought =
      if name = sought then some config.objects.length else config.lookUpBase sought := by
  rw [lookUpBase, enter, Ordered.find?_assign]
  split <;> rfl

theorem lookUpBase_eq_some_iff {config : Config Val} {name : Text} {v : VarId} :
    config.lookUpBase name = some v ↔ (name, v) ∈ config.datas := by
  rw [lookUpBase, Option.map_eq_some_iff]
  constructor
  · intro found
    rcases found with ⟨entry, isEntry, rfl⟩
    rcases Ordered.find?_eq_some_iff.mp isEntry with ⟨member, rfl⟩
    exact member
  · intro member
    exact ⟨(name, v), Ordered.find?_of_mem member, rfl⟩

theorem lookUpBase_ne_length (config : Config Val) (name : Text) :
    config.lookUpBase name ≠ some config.objects.length := by
  intro found
  exact Nat.lt_irrefl _ (config.points _ (lookUpBase_eq_some_iff.mp found))

/-! ## Loading under the registered name -/

def trace (yaml : Yaml) (config : Config Val) (root : Node) : List (VarId × Text) :=
  loadWith yaml config (fun calls v text => calls ++ [(v, text)]) root []

def nest (parts : List Text) (child : Node) : Node :=
  parts.foldr (fun part node => .map [(part, node)]) child

/-- A document with this name calls the variable with the text of the node. -/
structure Sets (yaml : Yaml) (config : Config Val) (v : VarId) (name : Text)
    (child : Node) : Prop where
  single : (v, textOf yaml child) ∈ config.trace yaml (.map [(name, child)])
  nested : (∀ part ∈ name.splitOn '.', part ≠ []) →
    (v, textOf yaml child) ∈ config.trace yaml (nest (name.splitOn '.') child)

theorem trace_eq (yaml : Yaml) (config : Config Val) (root : Node) :
    config.trace yaml root = (numbers [] root.walk).filterMap (callFor yaml config) := by
  rw [trace, loadWith_eq, loadAllNumber_eq, List.nil_append, List.foldl_append_eq_append,
    ← List.flatMap_def, List.flatMap_singleton']
  rfl

theorem loadable_of_mem_trace {yaml : Yaml} {config : Config Val} {root : Node} {v : VarId}
    {text : Text} (member : (v, text) ∈ config.trace yaml root) :
    ∃ name, Loadable name ∧ config.lookUpBase name = some v := by
  rw [trace_eq] at member
  rcases List.mem_filterMap.mp member with ⟨i, isNumber, isCall⟩
  have loadable : Loadable i.1 := of_decide_eq_true (List.mem_filter.mp isNumber).2
  rw [callFor, loadable.toLower_eq] at isCall
  split at isCall
  · cases isCall
  · rcases Option.map_eq_some_iff.mp isCall with ⟨other, found, same⟩
    cases same
    exact ⟨i.1, loadable, found⟩

theorem mem_trace {yaml : Yaml} {config : Config Val} {root child : Node}
    {keys : List Text} {name : Text} {v : VarId} (reached : (keys, child) ∈ root.walk)
    (path : keys.foldl memberPath [] = name) (loadable : Loadable name)
    (found : config.lookUpBase name = some v) :
    (v, textOf yaml child) ∈ config.trace yaml root := by
  have notRoot : name ≠ [] := config.named _ (lookUpBase_eq_some_iff.mp found)
  have isNumber : (name, child) ∈ numbers [] root.walk := by
    refine List.mem_filter.mpr ⟨List.mem_map.mpr ⟨(keys, child), reached, ?_⟩, ?_⟩
    · rw [numbered, path]
    · exact decide_eq_true loadable
  rw [trace_eq]
  refine List.mem_filterMap.mpr ⟨(name, child), isNumber, ?_⟩
  rw [callFor, if_neg notRoot, loadable.toLower_eq, found]
  rfl

theorem self_mem_walk (node : Node) : ([], node) ∈ node.walk := by
  cases node <;> exact List.mem_cons_self

theorem mem_walk_nest (parts : List Text) (child : Node) :
    (parts, child) ∈ (nest parts child).walk := by
  induction parts with
  | nil => exact self_mem_walk child
  | cons part rest induction =>
      refine List.mem_cons_of_mem _ (List.mem_append_left _ ?_)
      exact List.mem_map.mpr ⟨(rest, child), induction, rfl⟩

/-! ## Keys in lower case -/

/-- Every variable is registered under its own name, in lower case. -/
structure Canonical (config : Config Val) : Prop where
  own : ∀ entry ∈ config.datas, ∃ v, config.objects[entry.2]? = some v ∧ v.2.name = entry.1
  cased : ∀ left ∈ config.datas, ∀ right ∈ config.datas,
    toLower left.1 = toLower right.1 → left.2 = right.2
  found : ∀ entry ∈ config.datas, config.lookUpBase (toLower entry.1) = some entry.2

def Lowered (config : Config Val) : Prop :=
  ∀ v ∈ config.objects, toLower v.2.name = v.2.name

theorem toLower_toLower (text : Text) : toLower (toLower text) = toLower text := by
  rw [toLower, toLower, List.map_map]
  exact List.map_congr_left fun c _ => Char.toLower_toLower_eq_toLower c

theorem Canonical.of_own {config : Config Val} (lowered : config.Lowered)
    (own : ∀ entry ∈ config.datas, ∃ v,
      config.objects[entry.2]? = some v ∧ v.2.name = entry.1) : config.Canonical := by
  have lower : ∀ entry ∈ config.datas, toLower entry.1 = entry.1 := by
    intro entry member
    rcases own entry member with ⟨v, isVar, name⟩
    rw [← name]
    exact lowered v (List.mem_of_getElem? isVar)
  refine ⟨own, ?_, ?_⟩
  · intro left leftMember right rightMember same
    rw [lower left leftMember, lower right rightMember] at same
    rw [Ordered.eq_of_key_eq leftMember rightMember same]
  · intro entry member
    rw [lower entry member]
    exact lookUpBase_eq_some_iff.mpr member

theorem Lowered.enter {config : Config Val} (lowered : config.Lowered) {name : Text}
    (accepted : findFirstOf name lookupChars ≠ none) {kind : Kind} (defaultVar : Val kind)
    (description : Text) :
    (config.enter name accepted ⟨kind, .new name defaultVar description⟩).Lowered := by
  intro v member
  rcases List.mem_append.mp member with old | new
  · exact lowered v old
  · rw [List.mem_singleton.mp new]
    exact toLower_toLower name

theorem canonical_enter_iff {config : Config Val} (lowered : config.Lowered)
    (canonical : config.Canonical) {name : Text}
    (accepted : findFirstOf name lookupChars ≠ none) {kind : Kind} (defaultVar : Val kind)
    (description : Text) :
    (config.enter name accepted ⟨kind, .new name defaultVar description⟩).Canonical ↔
      toLower name = name := by
  have newObject : (config.enter name accepted
      ⟨kind, .new name defaultVar description⟩).objects[config.objects.length]? =
        some ⟨kind, .new name defaultVar description⟩ := by
    simp [enter]
  constructor
  · intro canonical
    rcases canonical.own (name, config.objects.length) (Ordered.mem_assign.mpr (Or.inl rfl))
      with ⟨v, isVar, sameName⟩
    rw [newObject] at isVar
    cases isVar
    exact sameName
  · intro isLower
    refine Canonical.of_own (lowered.enter accepted defaultVar description) ?_
    intro entry member
    rcases Ordered.mem_assign.mp member with rfl | ⟨old, -⟩
    · exact ⟨_, newObject, isLower⟩
    · rcases canonical.own entry old with ⟨v, isVar, sameName⟩
      refine ⟨v, ?_, sameName⟩
      rw [enter, List.getElem?_append_left (config.points entry old), isVar]

/-! ## Names that `Lookup` registers -/

variable [DecidableEq Kind]

theorem lookup_eq_enter {config : Config Val} {name : Text}
    (unregistered : config.lookUpBase name = none)
    (accepted : findFirstOf name lookupChars ≠ none) (kind : Kind) (defaultVar : Val kind)
    (description : Text) :
    config.lookup kind name defaultVar description =
      .ok (some config.objects.length,
        config.enter name accepted ⟨kind, .new name defaultVar description⟩) := by
  simp only [lookup, unregistered]
  exact dif_pos accepted

theorem lookup_cases (config : Config Val) (kind : Kind) (name : Text) (defaultVar : Val kind)
    (description : Text) :
    (∃ temp, config.lookUpBase name = some temp ∧
      config.lookup kind name defaultVar description =
        .ok (config.pointerCast kind temp, config)) ∨
    (config.lookUpBase name = none ∧ ∃ accepted,
      config.lookup kind name defaultVar description =
        .ok (some config.objects.length,
          config.enter name accepted ⟨kind, .new name defaultVar description⟩)) ∨
    (config.lookUpBase name = none ∧ findFirstOf name lookupChars = none ∧
      config.lookup kind name defaultVar description = .error (.invalidArgument name)) := by
  cases found : config.lookUpBase name with
  | some temp => exact Or.inl ⟨temp, rfl, by rw [lookup, found]⟩
  | none =>
      by_cases accepted : findFirstOf name lookupChars ≠ none
      · exact Or.inr (Or.inl ⟨rfl, accepted, lookup_eq_enter found accepted kind _ _⟩)
      · refine Or.inr (Or.inr ⟨rfl, not_not.mp accepted, ?_⟩)
        simp only [lookup, found]
        exact dif_neg accepted

/-- A variable that `Lookup` registers can be set by a document exactly if the loader
allows every character of its name. -/
theorem sets_iff_loadable {config next : Config Val} {kind : Kind} {name : Text}
    {defaultVar : Val kind} {description : Text} {v : VarId}
    (unregistered : config.lookUpBase name = none)
    (registered : config.lookup kind name defaultVar description = .ok (some v, next))
    (yaml : Yaml) (child : Node) : next.Sets yaml v name child ↔ Loadable name := by
  rcases lookup_cases config kind name defaultVar description with
    ⟨temp, found, -⟩ | ⟨-, accepted, result⟩ | ⟨-, -, result⟩
  · rw [unregistered] at found
    cases found
  · rw [result] at registered
    cases registered
    have looksUp : ∀ sought, _ := lookUpBase_enter config accepted
      ⟨kind, .new name defaultVar description⟩
    constructor
    · intro sets
      rcases loadable_of_mem_trace sets.single with ⟨other, loadable, found⟩
      rw [looksUp] at found
      split at found
      · next isName => exact isName ▸ loadable
      · exact absurd found (lookUpBase_ne_length config other)
    · intro loadable
      have found := (looksUp name).trans (if_pos rfl)
      refine ⟨mem_trace (mem_walk_nest [name] child) rfl loadable found, ?_⟩
      intro nonempty
      have path : (name.splitOn '.').foldl memberPath [] = name :=
        (foldl_memberPath nonempty).trans (List.intercalate_splitOn '.')
      exact mem_trace (mem_walk_nest _ child) path loadable found
  · rw [result] at registered
    cases registered

def scalars : Yaml where
  load text := .ok (.scalar text)
  dump
    | .scalar text => text
    | _ => "~".toList
  index text := (String.ofList text).toNat?
  nullText := .ok "null".toList

theorem sets_iff_loadable_port :
    let accepted : findFirstOf "system.port".toList lookupChars ≠ none := by decide
    let next : Config fun _ : Unit => Text :=
      Config.empty.enter "system.port".toList accepted ⟨(), .new "system.port".toList [] []⟩
    next.Sets scalars 0 "system.port".toList (.scalar "8080".toList) := by
  intro accepted next
  have unregistered : (Config.empty : Config fun _ : Unit => Text).lookUpBase
      "system.port".toList = none := rfl
  have registered := lookup_eq_enter unregistered accepted () [] []
  exact (sets_iff_loadable unregistered registered scalars _).mpr (by decide)

/-- The name `a-b` is registered, and no document sets it. -/
theorem sets_iff_loadable_fails :
    let accepted : findFirstOf "a-b".toList lookupChars ≠ none := by decide
    let next : Config fun _ : Unit => Text :=
      Config.empty.enter "a-b".toList accepted ⟨(), .new "a-b".toList [] []⟩
    (Config.empty : Config fun _ : Unit => Text).lookup () "a-b".toList [] [] =
        .ok (some 0, next) ∧
      ¬next.Sets scalars 0 "a-b".toList (.scalar "x".toList) := by
  intro accepted next
  have unregistered : (Config.empty : Config fun _ : Unit => Text).lookUpBase
      "a-b".toList = none := rfl
  refine ⟨lookup_eq_enter unregistered accepted () [] [], fun sets => ?_⟩
  have silent : next.trace scalars (.map [("a-b".toList, .scalar "x".toList)]) = [] := by
    rw [trace_eq]
    rfl
  have called := sets.single
  rw [silent] at called
  cases called

/-! ## Runs of `Lookup` -/

structure Call (Val : Kind → Type) where
  kind : Kind
  name : Text
  defaultVar : Val kind
  description : Text

def machine : Machine (Config Val) (Call Val) where
  step config call :=
    match config.lookup call.kind call.name call.defaultVar call.description with
    | .ok (_, next) => some next
    | .error _ => some config

/-- The call registers its name, which is in lower case if it does. -/
def RegistersLower (config : Config Val) (call : Call Val) : Prop :=
  config.lookUpBase call.name = none → findFirstOf call.name lookupChars ≠ none →
    toLower call.name = call.name

theorem step_cases {config next : Config Val} {call : Call Val}
    (stepped : machine.step config call = some next) :
    next = config ∧
        (config.lookUpBase call.name ≠ none ∨ findFirstOf call.name lookupChars = none) ∨
      config.lookUpBase call.name = none ∧ ∃ accepted,
        next = config.enter call.name accepted
          ⟨call.kind, .new call.name call.defaultVar call.description⟩ := by
  rcases lookup_cases config call.kind call.name call.defaultVar call.description with
    ⟨temp, found, result⟩ | ⟨unregistered, accepted, result⟩ | ⟨-, rejected, result⟩
  · simp only [machine, result, Option.some.injEq] at stepped
    exact Or.inl ⟨stepped.symm, Or.inl (found ▸ Option.some_ne_none _)⟩
  · simp only [machine, result, Option.some.injEq] at stepped
    exact Or.inr ⟨unregistered, accepted, stepped.symm⟩
  · simp only [machine, result, Option.some.injEq] at stepped
    exact Or.inl ⟨stepped.symm, Or.inr rejected⟩

theorem Lowered.step {config next : Config Val} {call : Call Val} (lowered : config.Lowered)
    (stepped : machine.step config call = some next) : next.Lowered := by
  rcases step_cases stepped with ⟨rfl, -⟩ | ⟨-, accepted, rfl⟩
  · exact lowered
  · exact lowered.enter accepted call.defaultVar call.description

/-- The keys are canonical all along a run exactly if the names that are registered in it
are in lower case. -/
theorem canonical_iff_registersLower (calls : List (Call Val)) :
    machine.Always Canonical Config.empty calls ↔
      machine.StepsMeet RegistersLower Config.empty calls := by
  refine Machine.always_iff_stepsMeet Lowered ?_ ?_ ?_ ?_ calls
  · intro config call next lowered _ _ stepped
    exact lowered.step stepped
  · intro config call next lowered canonical stepped
    rcases step_cases stepped with ⟨rfl, notNew⟩ | ⟨unregistered, accepted, rfl⟩
    · refine iff_of_true canonical ?_
      intro unregistered accepted
      rcases notNew with registered | rejected
      · exact absurd unregistered registered
      · exact absurd rejected accepted
    · rw [canonical_enter_iff lowered canonical accepted]
      exact ⟨fun isLower _ _ => isLower, fun met => met unregistered accepted⟩
  · intro v member
    cases member
  · exact Canonical.of_own (fun v member => by cases member)
      fun entry member => absurd member (Ordered.notMem_empty entry)

/-- A variable is registered as `A` and calls itself `a`. -/
theorem canonical_iff_registersLower_fails :
    ¬(machine : Machine (Config fun _ : Unit => Text) _).Always Canonical Config.empty
      [{ kind := (), name := ['A'], defaultVar := [], description := [] }] := by
  intro always
  have accepted : findFirstOf ['A'] lookupChars ≠ none := by decide
  have stepped : (machine : Machine (Config fun _ : Unit => Text) _).step Config.empty
      { kind := (), name := ['A'], defaultVar := [], description := [] } =
        some (Config.empty.enter ['A'] accepted ⟨(), .new ['A'] [] []⟩) := by
    have unregistered : (Config.empty : Config fun _ : Unit => Text).lookUpBase ['A'] = none :=
      rfl
    simp only [machine, lookup_eq_enter unregistered accepted () [] []]
  have lowered : (Config.empty : Config fun _ : Unit => Text).Lowered :=
    fun v member => by cases member
  have isLower := (canonical_enter_iff lowered always.here accepted [] []).mp
    (always.2 _ stepped).here
  exact absurd isLower (by decide)

end Config

end Sylar.Settings
