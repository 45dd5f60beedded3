import Mathlib.Algebra.Order.BigOperators.Group.List
import Mathlib.Algebra.Order.Ring.Nat
import Mathlib.Data.List.FinRange
import Mathlib.Logic.Function.Basic
import Mathlib.Tactic.Common

/-! # Totals over a list of entries

The total weight of the objects that a list of distinct entries refers to, and
what happens to it when one object is replaced.
-/

namespace Sylar.Foundation

variable {Entry : Type u} {Object : Type v}

def total (weight : Object → Nat) (objects : Entry → Object)
    (entries : List Entry) : Nat :=
  (entries.map fun entry => weight (objects entry)).sum

variable {weight : Object → Nat} {objects other : Entry → Object}
  {entries : List Entry}

theorem total_congr (same : ∀ entry ∈ entries, objects entry = other entry) :
    total weight objects entries = total weight other entries := by
  have mapped : (entries.map fun entry => weight (objects entry)) =
      entries.map fun entry => weight (other entry) :=
    List.map_congr_left fun entry member => by rw [same entry member]
  rw [total, mapped, total]

theorem total_eq_zero_iff :
    total weight objects entries = 0 ↔
      ∀ entry ∈ entries, weight (objects entry) = 0 := by
  rw [total, List.sum_eq_zero_iff_forall_eq_nat, List.forall_mem_map]

theorem total_le (bound : Nat) (each : ∀ object, weight object ≤ bound) :
    total weight objects entries ≤ entries.length * bound := by
  induction entries with
  | nil => simp [total]
  | cons entry rest induction =>
      have here := each (objects entry)
      simp only [total, List.map_cons, List.sum_cons, List.length_cons] at induction ⊢
      rw [Nat.succ_mul]
      omega

theorem total_reweigh {after marks : Object → Nat} {gone come : Nat}
    (shift : ∀ object, after object + marks object * gone =
      weight object + marks object * come) :
    total after objects entries + total marks objects entries * gone =
      total weight objects entries + total marks objects entries * come := by
  induction entries with
  | nil => simp [total]
  | cons entry rest induction =>
      have here := shift (objects entry)
      simp only [total, List.map_cons, List.sum_cons, Nat.add_mul] at induction ⊢
      omega

theorem le_total {entry : Entry} (member : entry ∈ entries) :
    weight (objects entry) ≤ total weight objects entries :=
  List.le_sum_of_mem (List.mem_map.mpr ⟨entry, member, rfl⟩)

theorem total_perm {more : List Entry} (perm : entries.Perm more) :
    total weight objects entries = total weight objects more :=
  (perm.map _).sum_eq

variable [DecidableEq Entry]

theorem total_update_of_notMem {entry : Entry} (absent : entry ∉ entries)
    (object : Object) :
    total weight (Function.update objects entry object) entries =
      total weight objects entries :=
  total_congr fun _ member =>
    Function.update_of_ne (ne_of_mem_of_not_mem member absent) _ _

theorem total_update (nodup : entries.Nodup) {entry : Entry}
    (member : entry ∈ entries) (object : Object) :
    total weight (Function.update objects entry object) entries +
        weight (objects entry) =
      total weight objects entries + weight object := by
  induction entries with
  | nil => cases member
  | cons first rest induction =>
      rcases List.nodup_cons.mp nodup with ⟨absent, restNodup⟩
      by_cases here : first = entry
      · subst here
        have unchanged : total weight (Function.update objects first object) rest =
            total weight objects rest := total_update_of_notMem absent object
        simp only [total, List.map_cons, List.sum_cons, Function.update_self] at unchanged ⊢
        omega
      · have later : entry ∈ rest :=
          (List.mem_cons.mp member).resolve_left fun same => here same.symm
        have exchanged := induction restNodup later
        simp only [total, List.map_cons, List.sum_cons,
          Function.update_of_ne here] at exchanged ⊢
        omega

theorem total_finRange_update {size : Nat} {before after : Fin size → Object}
    {index : Fin size} {object : Object}
    (afterIs : after = Function.update before index object) :
    total weight after (List.finRange size) + weight (before index) =
      total weight before (List.finRange size) + weight object := by
  rw [afterIs]
  exact total_update (List.nodup_finRange size) (List.mem_finRange index) object

theorem add_le_total {first second : Entry}
    (distinct : first ≠ second) (firstMember : first ∈ entries)
    (secondMember : second ∈ entries) :
    weight (objects first) + weight (objects second) ≤ total weight objects entries := by
  have split := List.perm_cons_erase firstMember
  have later : second ∈ entries.erase first :=
    (List.mem_erase_of_ne distinct.symm).mpr secondMember
  have rest : weight (objects second) ≤ total weight objects (entries.erase first) :=
    le_total later
  rw [total_perm split, total, List.map_cons, List.sum_cons]
  exact Nat.add_le_add_left rest _

end Sylar.Foundation
