import Mathlib.Data.List.FinRange
import Mathlib.Data.List.Induction
import Mathlib.Data.List.Perm.Subperm
import Mathlib.Logic.Function.Basic
import Mathlib.Tactic.Common

/-! # Indices

Lists that a finite family contributes to, and lists read at indices that are given
out one after the other.
-/

namespace Sylar.Foundation

variable {Entry : Type u} {Object : Type v}

/-! ## Contributions of a family -/

theorem flatMap_finRange_perm {size : Nat} (part : Fin size → List Entry)
    (index : Fin size) :
    ((List.finRange size).flatMap part).Perm
      (part index ++ ((List.finRange size).erase index).flatMap part) := by
  have split := List.perm_cons_erase (List.mem_finRange index)
  have mapped := split.flatMap_right part
  rwa [List.flatMap_cons] at mapped

theorem flatMap_update_perm {size : Nat} (part : Object → List Entry)
    (objects : Fin size → Object) (index : Fin size) (object : Object) :
    ∃ rest,
      ((List.finRange size).flatMap fun other => part (objects other)).Perm
        (part (objects index) ++ rest) ∧
      ((List.finRange size).flatMap fun other =>
        part (Function.update objects index object other)).Perm (part object ++ rest) := by
  refine ⟨_, flatMap_finRange_perm (fun other => part (objects other)) index, ?_⟩
  have replaced := flatMap_finRange_perm
    (fun other => part (Function.update objects index object other)) index
  have others : ((List.finRange size).erase index).flatMap
        (fun other => part (Function.update objects index object other)) =
      ((List.finRange size).erase index).flatMap fun other => part (objects other) := by
    apply List.flatMap_congr
    intro other member
    have different := ((List.nodup_finRange size).mem_erase_iff.mp member).1
    rw [Function.update_of_ne different]
  rwa [Function.update_self, others] at replaced

/-! ## Indices that are given out -/

theorem length_filter_range (entries : List Entry) (test : Entry → Bool) :
    ((List.range entries.length).filter fun index => entries[index]?.any test).length =
      entries.countP test := by
  induction entries using List.reverseRecOn with
  | nil => rfl
  | append_singleton entries entry induction =>
      have before : ((List.range entries.length).filter
            fun index => (entries ++ [entry])[index]?.any test) =
          (List.range entries.length).filter fun index => entries[index]?.any test := by
        apply List.filter_congr
        intro index member
        rw [List.getElem?_append_left (List.mem_range.mp member)]
      rw [List.length_append, List.length_singleton, List.range_succ, List.filter_append,
        List.length_append, before, induction, List.countP_append]
      cases passes : test entry <;> simp [passes]

theorem length_indices_le {entries : List Entry} {test : Entry → Bool} {indices : List Nat}
    (nodup : indices.Nodup)
    (passes : ∀ index ∈ indices, entries[index]?.any test = true) :
    indices.length ≤ entries.countP test := by
  rw [← length_filter_range]
  apply (nodup.subperm ?_).length_le
  intro index member
  have passed := passes index member
  refine List.mem_filter.mpr ⟨List.mem_range.mpr ?_, passed⟩
  cases found : entries[index]? with
  | none =>
      rw [found] at passed
      cases passed
  | some entry => exact (List.getElem?_eq_some_iff.mp found).1

end Sylar.Foundation
