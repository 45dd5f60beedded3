import Mathlib.Data.List.Pairwise
import Mathlib.Tactic.Common
import Sylar.Foundation.Ordered

/-! # Elements with distinct keys

A finite collection in which every element has a key of its own and the elements stand
in any order: a hash table in the order in which it is gone through. With the element as
its own key it is an unordered set, with the first component as the key an unordered
map.
-/

namespace Sylar.Foundation

structure Unordered {α : Type u} {κ : Type v} (key : α → κ) where
  toList : List α
  distinct : toList.Pairwise fun left right => key left ≠ key right

namespace Unordered

variable {α : Type u} {κ : Type v} {key : α → κ}

theorem ext {left right : Unordered key} (same : left.toList = right.toList) :
    left = right := by
  cases left
  cases right
  cases same
  rfl

def empty : Unordered key where
  toList := []
  distinct := List.Pairwise.nil

instance : EmptyCollection (Unordered key) := ⟨empty⟩

@[simp] theorem toList_empty : (∅ : Unordered key).toList = [] := rfl

instance : Membership α (Unordered key) where
  mem elements element := element ∈ elements.toList

theorem mem_toList {elements : Unordered key} {element : α} :
    element ∈ elements.toList ↔ element ∈ elements := Iff.rfl

theorem distinct_append {element : α} {elements : List α}
    (distinct : elements.Pairwise fun left right => key left ≠ key right)
    (fresh : ∀ other ∈ elements, key other ≠ key element) :
    (elements ++ [element]).Pairwise fun left right => key left ≠ key right := by
  refine List.pairwise_append.mpr ⟨distinct, List.pairwise_singleton _ _, ?_⟩
  intro other member last isLast
  rw [List.mem_singleton.mp isLast]
  exact fresh other member

variable [DecidableEq κ]

def find? (elements : Unordered key) (sought : κ) : Option α :=
  elements.toList.find? fun element => decide (key element = sought)

def insert (element : α) (elements : Unordered key) : Unordered key :=
  if fresh : ∀ other ∈ elements.toList, key other ≠ key element then
    { toList := elements.toList ++ [element]
      distinct := distinct_append elements.distinct fresh }
  else elements

def ofList (key : α → κ) (elements : List α) : Unordered key :=
  elements.foldl (fun collection element => collection.insert element) ∅

theorem toList_ofList {elements : List α}
    (distinct : elements.Pairwise fun left right => key left ≠ key right) :
    (ofList key elements).toList = elements := by
  have appends (collection : Unordered key) (element : α)
      (fresh : ∀ other ∈ collection.toList, key other ≠ key element) :
      (collection.insert element).toList = collection.toList ++ [element] := by
    rw [insert, dif_pos fresh]
  exact toList_foldl Unordered.toList appends distinct

end Unordered

end Sylar.Foundation
