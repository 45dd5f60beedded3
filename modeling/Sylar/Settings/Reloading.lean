import Sylar.Settings.Names

/-! # Loading several documents

A program may load more than one document, and may load them again. The order only
matters between documents that name the same variable. Change callbacks touch no variable
here, and whether one throws depends on the two values that it is told.
-/

namespace Sylar.Settings

open Foundation

theorem foldl_getD_eq {Entry Value : Type} (read : Entry → Option Value)
    (entries : List Entry) (val : Value) :
    entries.foldl (fun val entry => (read entry).getD val) val =
      (entries.filterMap read).getLast?.getD val := by
  induction entries using List.reverseRecOn with
  | nil => rfl
  | append_singleton entries entry induction =>
      rw [List.foldl_append, List.foldl_cons, List.foldl_nil, induction, List.filterMap_append,
        List.getLast?_append]
      cases readEntry : read entry with
      | none => simp [readEntry]
      | some last => simp [readEntry]

namespace Config

variable {Kind : Type} {Val : Kind → Type} {config next : Config Val}

def loadAll (yaml : Yaml) (casts : (kind : Kind) → LexicalCast (Val kind))
    (config : Config Val) (roots : List Node) : Config Val :=
  roots.foldl (loadFromYaml yaml casts) config

def callAll (casts : (kind : Kind) → LexicalCast (Val kind)) (config : Config Val)
    (calls : List (VarId × Text)) : Config Val :=
  calls.foldl (fun config call => fromString casts config call.1 call.2) config

theorem eq_of_objects (datas : next.datas = config.datas)
    (objects : ∀ v : VarId, next.objects[v]? = config.objects[v]?) : next = config := by
  have sameObjects : next.objects = config.objects := List.ext_getElem? objects
  cases config
  cases next
  cases datas
  cases sameObjects
  rfl

/-! ## What several documents call -/

variable (yaml : Yaml) (casts : (kind : Kind) → LexicalCast (Val kind))

theorem trace_eq_filterMap (config : Config Val) (root : Node) :
    config.trace yaml root = (loadAllNumber [] root []).filterMap (callFor yaml config) := by
  rw [trace_eq, loadAllNumber_eq, List.nil_append]

theorem loadFromYaml_eq (config : Config Val) (root : Node) :
    config.loadFromYaml yaml casts root = config.callAll casts (config.trace yaml root) := by
  rw [loadFromYaml, loadWith_eq, trace_eq_filterMap, callAll]

theorem trace_congr (datas : next.datas = config.datas) (root : Node) :
    next.trace yaml root = config.trace yaml root := by
  have sameCalls : callFor yaml next = callFor yaml config := by
    funext i
    rw [callFor, callFor, lookUpBase, lookUpBase, datas]
  rw [trace_eq, trace_eq, sameCalls]

theorem callAll_append (config : Config Val) (calls later : List (VarId × Text)) :
    config.callAll casts (calls ++ later) = (config.callAll casts calls).callAll casts later :=
  List.foldl_append ..

theorem datas_callAll (config : Config Val) (calls : List (VarId × Text)) :
    (config.callAll casts calls).datas = config.datas :=
  datas_foldl casts config calls

theorem loadAll_eq (config : Config Val) (roots : List Node) :
    config.loadAll yaml casts roots =
      config.callAll casts (roots.flatMap (config.trace yaml)) := by
  suffices ∀ state : Config Val, state.datas = config.datas →
      state.loadAll yaml casts roots =
        state.callAll casts (roots.flatMap (config.trace yaml)) from this config rfl
  induction roots with
  | nil => exact fun _ _ => rfl
  | cons root roots induction =>
      intro state datas
      rw [loadAll, List.foldl_cons, loadFromYaml_eq, trace_congr yaml datas, List.flatMap_cons,
        callAll_append]
      exact induction _ ((datas_callAll casts state _).trans datas)

/-! ## Again -/

def Quiet (config : Config Val) : Prop :=
  ∀ (v : VarId) (kind : Kind) (var : ConfigVar (Val kind)),
    config.objects[v]? = some ⟨kind, var⟩ → var.Quiet

theorem objects_callAll_of_quiet (quiet : config.Quiet) (calls : List (VarId × Text))
    {v : VarId} {kind : Kind} {var : ConfigVar (Val kind)}
    (isVar : config.objects[v]? = some ⟨kind, var⟩) :
    (config.callAll casts calls).objects[v]? =
      some ⟨kind, { var with
        val := (((textsFor v calls).filterMap fun text =>
          ((casts kind).ofText text).toOption).getLast?).getD var.val }⟩ := by
  rw [callAll, objects_foldl, isVar, Option.map_some,
    ConfigVar.foldl_fromString casts (quiet v kind var isVar), foldl_getD_eq]

theorem quiet_callAll (quiet : config.Quiet) (calls : List (VarId × Text)) :
    (config.callAll casts calls).Quiet := by
  intro v kind var isVar
  cases isObject : config.objects[v]? with
  | none =>
      rw [callAll, objects_foldl, isObject] at isVar
      cases isVar
  | some object =>
      rcases object with ⟨own, before⟩
      rw [objects_callAll_of_quiet casts quiet calls isObject] at isVar
      cases isVar
      exact quiet v _ before isObject

theorem callAll_again (quiet : config.Quiet) (calls : List (VarId × Text)) :
    (config.callAll casts calls).callAll casts calls = config.callAll casts calls := by
  refine eq_of_objects (datas_callAll casts _ calls) fun v => ?_
  cases isObject : config.objects[v]? with
  | none =>
      rw [callAll, callAll, objects_foldl, objects_foldl, isObject]
      rfl
  | some object =>
      rcases object with ⟨kind, var⟩
      have once := objects_callAll_of_quiet casts quiet calls isObject
      rw [objects_callAll_of_quiet casts (quiet_callAll casts quiet calls) calls once, once]
      dsimp only
      cases ((textsFor v calls).filterMap fun text =>
        ((casts kind).ofText text).toOption).getLast? <;> rfl

/-- Documents that are loaded a second time, in the same order, change nothing, if no
callback throws or touches a variable. -/
theorem loadAll_again (quiet : config.Quiet) (roots : List Node) :
    (config.loadAll yaml casts roots).loadAll yaml casts roots =
      config.loadAll yaml casts roots := by
  have datas : (config.loadAll yaml casts roots).datas = config.datas := by
    rw [loadAll_eq]
    exact datas_callAll casts config _
  have sameTrace : (config.loadAll yaml casts roots).trace yaml = config.trace yaml :=
    funext (trace_congr yaml datas)
  rw [loadAll_eq yaml casts (config.loadAll yaml casts roots), sameTrace,
    loadAll_eq yaml casts config]
  exact callAll_again casts quiet _

theorem loadAll_again_port :
    let casts : Unit → LexicalCast Text := fun _ => { toText := .ok, ofText := .ok }
    let config : Config fun _ : Unit => Text :=
      Config.empty.enter "port".toList (by decide) ⟨(), .new "port".toList [] []⟩
    let roots : List Node :=
      [.map [("port".toList, .scalar "1".toList)], .map [("port".toList, .scalar "2".toList)]]
    (config.loadAll scalars casts roots).loadAll scalars casts roots =
      config.loadAll scalars casts roots := by
  intro casts config roots
  refine loadAll_again scalars casts ?_ roots
  intro v kind var isVar callback member
  rcases v with _ | v
  · cases isVar
    cases member
  · cases isVar

/-! ## In another order -/

def Apart (config : Config Val) (root other : Node) : Prop :=
  ∀ call ∈ config.trace yaml root, ∀ callToo ∈ config.trace yaml other, call.1 ≠ callToo.1

theorem textsFor_append (v : VarId) (calls later : List (VarId × Text)) :
    textsFor v (calls ++ later) = textsFor v calls ++ textsFor v later :=
  List.filterMap_append

theorem textsFor_eq_nil {v : VarId} {calls : List (VarId × Text)}
    (others : ∀ call ∈ calls, call.1 ≠ v) : textsFor v calls = [] :=
  List.filterMap_eq_nil_iff.mpr fun call member => if_neg (others call member)

theorem callAll_comm (config : Config Val) {calls others : List (VarId × Text)}
    (apart : ∀ call ∈ calls, ∀ other ∈ others, call.1 ≠ other.1) :
    config.callAll casts (calls ++ others) = config.callAll casts (others ++ calls) := by
  refine eq_of_objects ?_ fun v => ?_
  · rw [datas_callAll, datas_callAll]
  · have sameTexts : textsFor v (calls ++ others) = textsFor v (others ++ calls) := by
      rw [textsFor_append, textsFor_append]
      by_cases called : ∃ call ∈ calls, call.1 = v
      · rcases called with ⟨call, member, rfl⟩
        rw [textsFor_eq_nil fun other memberToo => (apart call member other memberToo).symm]
        exact List.append_nil _
      · rw [textsFor_eq_nil fun call member same => called ⟨call, member, same⟩]
        exact (List.append_nil _).symm
    rw [callAll, callAll, objects_foldl, objects_foldl, sameTexts]

theorem callAll_perm {roots others : List Node} (perm : roots.Perm others)
    (apart : roots.Pairwise (config.Apart yaml)) (state : Config Val) :
    state.callAll casts (roots.flatMap (config.trace yaml)) =
      state.callAll casts (others.flatMap (config.trace yaml)) := by
  induction perm generalizing state with
  | nil => rfl
  | cons root _ induction =>
      rw [List.flatMap_cons, List.flatMap_cons, callAll_append, callAll_append]
      exact induction (List.pairwise_cons.mp apart).2 _
  | swap root other rest =>
      have apartHere := (List.pairwise_cons.mp apart).1 root List.mem_cons_self
      simp only [List.flatMap_cons]
      rw [← List.append_assoc, callAll_append, callAll_comm casts state apartHere,
        ← callAll_append, List.append_assoc]
  | trans first _ induction later =>
      have symmetric : ∀ {root other : Node}, config.Apart yaml root other →
          config.Apart yaml other root :=
        fun apart call member other memberToo => (apart other memberToo call member).symm
      rw [induction apart]
      exact later ((first.pairwise_iff symmetric).mp apart) state

/-- Documents of which no two name the same variable may be loaded in any order, if no
callback touches a variable. -/
theorem loadAll_perm {roots others : List Node} (perm : roots.Perm others)
    (apart : roots.Pairwise (config.Apart yaml)) :
    config.loadAll yaml casts roots = config.loadAll yaml casts others := by
  rw [loadAll_eq, loadAll_eq]
  exact callAll_perm yaml casts perm apart config

theorem loadAll_perm_ports :
    let casts : Unit → LexicalCast Text := fun _ => { toText := .ok, ofText := .ok }
    let config : Config fun _ : Unit => Text :=
      (Config.empty.enter ['a'] (by decide) ⟨(), .new ['a'] [] []⟩).enter ['b'] (by decide)
        ⟨(), .new ['b'] [] []⟩
    let first : Node := .map [(['a'], .scalar ['1'])]
    let second : Node := .map [(['b'], .scalar ['2'])]
    config.loadAll scalars casts [first, second] =
      config.loadAll scalars casts [second, first] := by
  intro casts config first second
  refine loadAll_perm scalars casts (.swap ..) ?_
  have apart : config.Apart scalars first second := by
    have traced : config.trace scalars first = [(0, ['1'])] := rfl
    have tracedToo : config.trace scalars second = [(1, ['2'])] := rfl
    rw [Apart, traced, tracedToo]
    decide
  simpa using apart

end Config

end Sylar.Settings
