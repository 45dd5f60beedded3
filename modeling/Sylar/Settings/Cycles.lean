import Mathlib.Data.Fintype.EquivFin
import Sylar.Foundation.Cycles
import Sylar.Settings.Loading

/-! # Documents with aliases

An alias is the node it refers to, so a document is a graph, and `LoadAllNumber` follows
its maps without a record of the nodes it has seen. The depth is that of the recursion,
and a call that needs more of it has no result.
-/

namespace Sylar.Settings

open Foundation

inductive Content (Id : Type u)
  | null
  | scalar (text : Text)
  | sequence (items : List Id)
  | map (entries : List (Text × Id))

abbrev Graph (Id : Type u) := Id → Content Id

namespace Graph

variable {Id : Type u}

def loadEntries (load : Text → Id → List (Text × Id) → Option (List (Text × Id)))
    (path : Text) : List (Text × Id) → List (Text × Id) → Option (List (Text × Id))
  | [], output => some output
  | (key, child) :: rest, output =>
      (load (Config.memberPath path key) child output).bind (loadEntries load path rest)

def loadAllNumber (graph : Graph Id) :
    Nat → Text → Id → List (Text × Id) → Option (List (Text × Id))
  | 0, _, _, _ => none
  | depth + 1, path, node, output =>
      if findFirstNotOf path Config.loaderChars ≠ none then some output
      else
        match graph node with
        | .map entries =>
            loadEntries (loadAllNumber graph depth) path entries (output ++ [(path, node)])
        | _ => some (output ++ [(path, node)])

/-- `LoadAllNumber("", root, output)` ends, with finitely many entries appended. -/
def Terminates (graph : Graph Id) (root : Id) : Prop :=
  ∀ output, ∃ depth appended,
    graph.loadAllNumber depth [] root output = some (output ++ appended)

/-- A member of a map under a key that `LoadAllNumber` does not stop at. -/
def Member (graph : Graph Id) (parent child : Id) : Prop :=
  ∃ entries key, graph parent = .map entries ∧ (key, child) ∈ entries ∧ Config.Loadable key

/-! ## One call -/

theorem loadable_nil : Config.Loadable [] :=
  fun _ member => absurd member List.not_mem_nil

theorem loadable_memberPath_iff {path key : Text} (loadable : Config.Loadable path) :
    Config.Loadable (Config.memberPath path key) ↔ Config.Loadable key := by
  by_cases isRoot : path = []
  · rw [Config.memberPath, if_pos isRoot]
  · have separator : '.' ∈ Config.loaderChars := by decide
    rw [Config.memberPath, if_neg isRoot, Config.Loadable.append_iff]
    simp only [Config.Loadable, List.forall_mem_cons, separator, true_and]
    exact and_iff_right loadable

variable {graph : Graph Id} {node : Id} {path : Text} {output : List (Text × Id)}

theorem loadAllNumber_of_invalid (invalid : ¬Config.Loadable path) (depth : Nat) :
    graph.loadAllNumber (depth + 1) path node output = some output := by
  rw [loadAllNumber, if_pos]
  exact fun noInvalid => invalid (Config.findFirstNotOf_eq_none_iff.mp noInvalid)

theorem loadAllNumber_of_map {entries : List (Text × Id)} (loadable : Config.Loadable path)
    (isMap : graph node = .map entries) (depth : Nat) :
    graph.loadAllNumber (depth + 1) path node output =
      loadEntries (graph.loadAllNumber depth) path entries (output ++ [(path, node)]) := by
  have noInvalid := Config.findFirstNotOf_eq_none_iff.mpr loadable
  rw [loadAllNumber, if_neg (not_not.mpr noInvalid), isMap]

theorem loadAllNumber_of_leaf (loadable : Config.Loadable path)
    (isLeaf : ∀ entries, graph node ≠ .map entries) (depth : Nat) :
    graph.loadAllNumber (depth + 1) path node output = some (output ++ [(path, node)]) := by
  have noInvalid := Config.findFirstNotOf_eq_none_iff.mpr loadable
  rw [loadAllNumber, if_neg (not_not.mpr noInvalid)]
  cases content : graph node with
  | map entries => exact absurd content (isLeaf entries)
  | null | scalar | sequence => rfl

/-! ## More depth changes no result -/

theorem loadEntries_mono
    {load deeper : Text → Id → List (Text × Id) → Option (List (Text × Id))}
    (mono : ∀ path node output result, load path node output = some result →
      deeper path node output = some result)
    {entries result : List (Text × Id)}
    (ended : loadEntries load path entries output = some result) :
    loadEntries deeper path entries output = some result := by
  induction entries generalizing output with
  | nil => exact ended
  | cons entry rest induction =>
      rcases Option.bind_eq_some_iff.mp ended with ⟨next, first, others⟩
      rw [loadEntries, mono _ _ _ _ first, Option.bind_some]
      exact induction others

theorem loadAllNumber_succ {depth : Nat} {result : List (Text × Id)}
    (ended : graph.loadAllNumber depth path node output = some result) :
    graph.loadAllNumber (depth + 1) path node output = some result := by
  induction depth generalizing path node output result with
  | zero => cases ended
  | succ depth induction =>
      by_cases loadable : Config.Loadable path
      · cases content : graph node with
        | map entries =>
            rw [loadAllNumber_of_map loadable content] at ended ⊢
            exact loadEntries_mono (fun _ _ _ _ first => induction first) ended
        | null | scalar | sequence =>
            rw [loadAllNumber_of_leaf loadable (by simp [content])] at ended ⊢
            exact ended
      · rw [loadAllNumber_of_invalid loadable] at ended ⊢
        exact ended

theorem loadAllNumber_mono {depth deeper : Nat} {result : List (Text × Id)}
    (more : depth ≤ deeper)
    (ended : graph.loadAllNumber depth path node output = some result) :
    graph.loadAllNumber deeper path node output = some result := by
  induction more with
  | refl => exact ended
  | step _ induction => exact loadAllNumber_succ induction

/-! ## When there is a result -/

theorem loadEntries_ends {entries : List (Text × Id)}
    (ends : ∀ entry ∈ entries, ∀ output, ∃ depth appended,
      graph.loadAllNumber depth (Config.memberPath path entry.1) entry.2 output =
        some (output ++ appended))
    (output : List (Text × Id)) :
    ∃ depth appended,
      loadEntries (graph.loadAllNumber depth) path entries output =
        some (output ++ appended) := by
  induction entries generalizing output with
  | nil => exact ⟨0, [], by rw [List.append_nil]; rfl⟩
  | cons entry rest induction =>
      rcases List.forall_mem_cons.mp ends with ⟨firstEnds, restEnds⟩
      rcases firstEnds output with ⟨depth, appended, first⟩
      rcases induction restEnds (output ++ appended) with ⟨restDepth, restAppended, others⟩
      refine ⟨max depth restDepth, appended ++ restAppended, ?_⟩
      have firstToo := loadAllNumber_mono (le_max_left depth restDepth) first
      have othersToo := loadEntries_mono
        (fun _ _ _ _ => loadAllNumber_mono (le_max_right depth restDepth)) others
      rw [loadEntries, firstToo, Option.bind_some, othersToo, List.append_assoc]

theorem ends_of_descends (descends : Descends graph.Member node) (path : Text)
    (output : List (Text × Id)) :
    ∃ depth appended,
      graph.loadAllNumber depth path node output = some (output ++ appended) := by
  induction descends generalizing path output with
  | intro node _ induction =>
      by_cases loadable : Config.Loadable path
      · cases content : graph node with
        | map entries =>
            have ends : ∀ entry ∈ entries, ∀ output, ∃ depth appended,
                graph.loadAllNumber depth (Config.memberPath path entry.1) entry.2 output =
                  some (output ++ appended) := by
              intro entry member output
              by_cases keyLoadable : Config.Loadable entry.1
              · exact induction entry.2 ⟨entries, entry.1, content, member, keyLoadable⟩ _ _
              · have invalid := mt (loadable_memberPath_iff loadable).mp keyLoadable
                exact ⟨1, [], by rw [loadAllNumber_of_invalid invalid, List.append_nil]⟩
            rcases loadEntries_ends ends (output ++ [(path, node)]) with ⟨depth, appended, ended⟩
            refine ⟨depth + 1, (path, node) :: appended, ?_⟩
            rw [loadAllNumber_of_map loadable content, ended, List.append_assoc]
            rfl
        | null | scalar | sequence =>
            exact ⟨1, [(path, node)], loadAllNumber_of_leaf loadable (by simp [content]) 0⟩
      · exact ⟨1, [], by rw [loadAllNumber_of_invalid loadable, List.append_nil]⟩

theorem member_of_loadEntries
    {load : Text → Id → List (Text × Id) → Option (List (Text × Id))}
    {entries result : List (Text × Id)}
    (ended : loadEntries load path entries output = some result) :
    ∀ entry ∈ entries, ∃ before after,
      load (Config.memberPath path entry.1) entry.2 before = some after := by
  induction entries generalizing output with
  | nil => exact fun _ member => absurd member List.not_mem_nil
  | cons entry rest induction =>
      rcases Option.bind_eq_some_iff.mp ended with ⟨next, first, others⟩
      exact List.forall_mem_cons.mpr ⟨⟨output, next, first⟩, induction others⟩

theorem descends_of_ends {depth : Nat} {result : List (Text × Id)}
    (loadable : Config.Loadable path)
    (ended : graph.loadAllNumber depth path node output = some result) :
    Descends graph.Member node := by
  induction depth generalizing path node output result with
  | zero => cases ended
  | succ depth induction =>
      apply Acc.intro
      rintro child ⟨entries, key, isMap, member, keyLoadable⟩
      rw [loadAllNumber_of_map loadable isMap] at ended
      rcases member_of_loadEntries ended (key, child) member with ⟨before, after, childEnded⟩
      exact induction ((loadable_memberPath_iff loadable).mpr keyLoadable) childEnded

theorem terminates_iff_descends {root : Id} :
    graph.Terminates root ↔ Descends graph.Member root := by
  constructor
  · intro terminates
    rcases terminates [] with ⟨depth, appended, ended⟩
    exact descends_of_ends loadable_nil ended
  · exact fun descends => ends_of_descends descends []

/-- `LoadAllNumber` ends exactly if no cycle of members is reached from the root. -/
theorem terminates_iff [Finite Id] (graph : Graph Id) (root : Id) :
    graph.Terminates root ↔ ¬Circular graph.Member root :=
  terminates_iff_descends.trans descends_iff_not_circular

theorem shared_terminates :
    let graph : Graph (Fin 3)
      | 0 => .map [("a".toList, 1), ("c".toList, 1)]
      | 1 => .map [("b".toList, 2)]
      | 2 => .scalar "1".toList
    graph.Terminates 0 := by
  intro graph
  apply (terminates_iff graph 0).mpr
  apply Descends.not_circular
  apply descends_of_rank fun node => 2 - node.val
  rintro parent child ⟨entries, key, isMap, member, -⟩
  match parent with
  | 0 => cases isMap; rcases List.mem_pair.mp member with same | same <;> cases same <;> decide
  | 1 => cases isMap; cases List.mem_singleton.mp member; decide
  | 2 => cases isMap

/-- `&x {a: *x}`: the map is its own member. -/
theorem alias_not_terminates :
    let graph : Graph Unit := fun _ => .map [("a".toList, ())]
    ¬graph.Terminates () := by
  intro graph terminates
  have own : graph.Member () () :=
    ⟨_, _, rfl, List.mem_singleton_self _, by decide⟩
  exact (terminates_iff_descends.mp terminates).not_circular ⟨(), .refl, .single own⟩

/-! ## Documents without aliases -/

def toNode (tree : Id → Node) : Content Id → Node
  | .null => .null
  | .scalar text => .scalar text
  | .sequence items => .sequence (items.map tree)
  | .map entries => .map (entries.map (Prod.map id tree))

def Unfolds (graph : Graph Id) (tree : Id → Node) : Prop :=
  ∀ node, tree node = toNode tree (graph node)

section Trees

variable {tree : Id → Node}

theorem loadEntries_unfolds {depth : Nat}
    (unfolds : ∀ path node output result,
      graph.loadAllNumber depth path node output = some result →
      Config.loadAllNumber path (tree node) (output.map (Prod.map id tree)) =
        result.map (Prod.map id tree))
    {entries result : List (Text × Id)}
    (ended : loadEntries (graph.loadAllNumber depth) path entries output = some result) :
    Config.loadEntries path (entries.map (Prod.map id tree)) (output.map (Prod.map id tree)) =
      result.map (Prod.map id tree) := by
  induction entries generalizing output with
  | nil => cases ended; rfl
  | cons entry rest induction =>
      rcases Option.bind_eq_some_iff.mp ended with ⟨next, first, others⟩
      rw [List.map_cons, Config.loadEntries]
      exact (congrArg _ (unfolds _ _ _ _ first)).trans (induction others)

theorem Unfolds.loadAllNumber (unfolds : graph.Unfolds tree)
    {depth : Nat} {result : List (Text × Id)}
    (ended : graph.loadAllNumber depth path node output = some result) :
    Config.loadAllNumber path (tree node) (output.map (Prod.map id tree)) =
      result.map (Prod.map id tree) := by
  induction depth generalizing path node output result with
  | zero => cases ended
  | succ depth induction =>
      have unfolded := unfolds node
      by_cases loadable : Config.Loadable path
      · have noInvalid := Config.findFirstNotOf_eq_none_iff.mpr loadable
        cases content : graph node with
        | map entries =>
            rw [loadAllNumber_of_map loadable content] at ended
            have rest := loadEntries_unfolds (fun _ _ _ _ => induction) ended
            rw [List.map_append, List.map_singleton, Prod.map, unfolded, content] at rest
            rw [unfolded, content, toNode, Config.loadAllNumber,
              if_neg (not_not.mpr noInvalid)]
            exact rest
        | null | scalar | sequence =>
            rw [loadAllNumber_of_leaf loadable (by simp [content])] at ended
            cases ended
            rw [List.map_append, List.map_singleton, Prod.map, unfolded, content, toNode,
              Config.loadAllNumber, if_neg (not_not.mpr noInvalid)]
            · rfl
            · simp
      · have invalid := mt Config.findFirstNotOf_eq_none_iff.mp loadable
        rw [loadAllNumber_of_invalid loadable] at ended
        cases ended
        unfold Config.loadAllNumber
        exact if_pos invalid

end Trees

def ofTree : Graph Node
  | .null => .null
  | .scalar text => .scalar text
  | .sequence items => .sequence items
  | .map entries => .map entries

theorem ofTree_unfolds : ofTree.Unfolds id := by
  intro node
  cases node with
  | null | scalar => rfl
  | sequence items => exact congrArg Node.sequence (List.map_id items).symm
  | map entries => exact congrArg Node.map (List.map_id entries).symm

theorem ofTree_descends (root : Node) : Descends ofTree.Member root := by
  apply descends_of_rank sizeOf
  rintro parent child ⟨entries, key, isMap, member, -⟩
  cases parent with
  | null | scalar | sequence => cases isMap
  | map entries =>
      cases isMap
      have smaller := List.sizeOf_lt_of_mem member
      simp only [Prod.mk.sizeOf_spec, Node.map.sizeOf_spec] at smaller ⊢
      omega

theorem loadAllNumber_ofTree (root : Node) (output : List (Text × Node)) :
    ∃ depth, ofTree.loadAllNumber depth [] root output =
      some (Config.loadAllNumber [] root output) := by
  rcases ends_of_descends (ofTree_descends root) [] output with ⟨depth, appended, ended⟩
  have same := ofTree_unfolds.loadAllNumber ended
  rw [Prod.map_id, List.map_id, List.map_id] at same
  exact ⟨depth, ended.trans (congrArg some same.symm)⟩

end Graph

end Sylar.Settings
