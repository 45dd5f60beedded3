import Mathlib.Data.Char
import Mathlib.Data.List.Lex
import Mathlib.Data.List.Pairwise
import Mathlib.Order.Lattice
import Mathlib.Tactic.Common

/-! # Elements in the order of their keys

A finite collection in which every element has a key of its own and the elements
stand in the order of the keys. With the element as its own key it is an ordered
set, with the first component as the key an ordered map.
-/

namespace Sylar.Foundation

abbrev Text := List Char

/-- If an element that fits behind those of a collection is appended to them, then so are all
elements of a list that come in this order. -/
theorem toList_foldl {α : Type u} {Collection : Type v} (toList : Collection → List α)
    {insert : Collection → α → Collection} {fits : α → α → Prop}
    (appends : ∀ collection element, (∀ other ∈ toList collection, fits other element) →
      toList (insert collection element) = toList collection ++ [element])
    {later : List α} {collection : Collection}
    (ordered : (toList collection ++ later).Pairwise fits) :
    toList (later.foldl insert collection) = toList collection ++ later := by
  induction later generalizing collection with
  | nil => exact (List.append_nil _).symm
  | cons element rest induction =>
      have appended := appends collection element fun other member =>
        (List.pairwise_append.mp ordered).2.2 other member element List.mem_cons_self
      rw [List.foldl_cons, induction, appended, List.append_assoc]
      · rfl
      · rw [appended, List.append_assoc]
        exact ordered

structure Ordered {α : Type u} {κ : Type v} [LT κ] (key : α → κ) where
  toList : List α
  ascending : toList.Pairwise fun left right => key left < key right

namespace Ordered

variable {α : Type u} {κ : Type v} [LinearOrder κ] {key : α → κ}

theorem ext {left right : Ordered key} (same : left.toList = right.toList) :
    left = right := by
  cases left
  cases right
  cases same
  rfl

def empty : Ordered key where
  toList := []
  ascending := List.Pairwise.nil

instance : EmptyCollection (Ordered key) := ⟨empty⟩

@[simp] theorem toList_empty : (∅ : Ordered key).toList = [] := rfl

instance : Membership α (Ordered key) where
  mem elements element := element ∈ elements.toList

theorem mem_toList {elements : Ordered key} {element : α} :
    element ∈ elements.toList ↔ element ∈ elements := Iff.rfl

@[simp] theorem notMem_empty (element : α) : element ∉ (∅ : Ordered key) :=
  List.not_mem_nil

theorem eq_of_key_eq {elements : Ordered key} {left right : α} (leftMember : left ∈ elements)
    (rightMember : right ∈ elements) (same : key left = key right) : left = right := by
  by_contra different
  have apart : elements.toList.Pairwise fun left right => key left ≠ key right :=
    elements.ascending.imp ne_of_lt
  have symmetric : Std.Symm fun left right => key left ≠ key right :=
    ⟨fun _ _ => Ne.symm⟩
  exact apart.forall leftMember rightMember different same

/-! ## Looking up -/

def find? (elements : Ordered key) (sought : κ) : Option α :=
  elements.toList.find? fun element => decide (key element = sought)

@[simp] theorem find?_empty (sought : κ) : (∅ : Ordered key).find? sought = none := rfl

theorem find?_eq_some_iff {elements : Ordered key} {sought : κ} {element : α} :
    elements.find? sought = some element ↔ element ∈ elements ∧ key element = sought := by
  constructor
  · intro found
    exact ⟨List.mem_of_find?_eq_some found, by simpa using List.find?_some found⟩
  · intro isElement
    rcases isElement with ⟨member, rfl⟩
    cases found : elements.find? (key element) with
    | none =>
        have missing := List.find?_eq_none.mp found element member
        simp at missing
    | some other =>
        have otherMember : other ∈ elements := List.mem_of_find?_eq_some found
        have same : key other = key element := by simpa using List.find?_some found
        rw [eq_of_key_eq otherMember member same]

theorem find?_of_mem {elements : Ordered key} {element : α} (member : element ∈ elements) :
    elements.find? (key element) = some element :=
  find?_eq_some_iff.mpr ⟨member, rfl⟩

theorem find?_eq_none_iff {elements : Ordered key} {sought : κ} :
    elements.find? sought = none ↔ ∀ element ∈ elements, key element ≠ sought := by
  simp [find?, List.find?_eq_none, ← mem_toList]

/-! ## Putting an element in -/

def place (key : α → κ) (stays : Bool) (element : α) : List α → List α
  | [] => [element]
  | other :: rest =>
      if key element < key other then element :: other :: rest
      else if key element = key other then (if stays then other else element) :: rest
      else other :: place key stays element rest

theorem mem_place {stays : Bool} {element other : α} {elements : List α}
    (member : other ∈ place key stays element elements) :
    other = element ∨ other ∈ elements := by
  induction elements with
  | nil => exact Or.inl (List.mem_singleton.mp member)
  | cons first rest induction =>
      simp only [place] at member
      split at member
      · exact List.mem_cons.mp member
      · split at member
        · rcases List.mem_cons.mp member with isFirst | later
          · cases stays with
            | true => exact Or.inr (isFirst ▸ List.mem_cons_self)
            | false => exact Or.inl isFirst
          · exact Or.inr (List.mem_cons_of_mem _ later)
        · rcases List.mem_cons.mp member with isFirst | later
          · exact Or.inr (isFirst ▸ List.mem_cons_self)
          · rcases induction later with isElement | old
            · exact Or.inl isElement
            · exact Or.inr (List.mem_cons_of_mem _ old)

theorem ascending_place (stays : Bool) (element : α) {elements : List α}
    (ascending : elements.Pairwise fun left right => key left < key right) :
    (place key stays element elements).Pairwise fun left right => key left < key right := by
  induction elements with
  | nil => exact List.pairwise_singleton _ _
  | cons first rest induction =>
      rcases List.pairwise_cons.mp ascending with ⟨below, restAscending⟩
      simp only [place]
      split
      · next before =>
          refine List.pairwise_cons.mpr ⟨?_, ascending⟩
          intro other member
          rcases List.mem_cons.mp member with rfl | later
          · exact before
          · exact lt_trans before (below other later)
      · next notBefore =>
          split
          · next same =>
              refine List.pairwise_cons.mpr ⟨?_, restAscending⟩
              intro other later
              cases stays with
              | true => exact below other later
              | false => exact same ▸ below other later
          · next different =>
              refine List.pairwise_cons.mpr ⟨?_, induction restAscending⟩
              intro other member
              rcases mem_place member with rfl | old
              · exact lt_of_le_of_ne (not_lt.mp notBefore) (Ne.symm different)
              · exact below other old

def insert (element : α) (elements : Ordered key) : Ordered key where
  toList := place key true element elements.toList
  ascending := ascending_place true element elements.ascending

def assign (element : α) (elements : Ordered key) : Ordered key where
  toList := place key false element elements.toList
  ascending := ascending_place false element elements.ascending

theorem mem_place_iff {stays : Bool} {element other : α} {elements : List α}
    (ascending : elements.Pairwise fun left right => key left < key right) :
    other ∈ place key stays element elements ↔
      other ∈ elements ∧ (stays = true ∨ key other ≠ key element) ∨
        other = element ∧
          (stays = false ∨ ∀ another ∈ elements, key another ≠ key element) := by
  induction elements with
  | nil => simp [place]
  | cons first rest induction =>
      rcases List.pairwise_cons.mp ascending with ⟨below, restAscending⟩
      have above : key element ≤ key first → ∀ another ∈ rest, key another ≠ key element :=
        fun notAfter another member same =>
          absurd (below another member) (not_lt.mpr (same ▸ notAfter))
      simp only [place]
      split
      · next before =>
          have others := above (le_of_lt before)
          have notFirst := ne_of_gt before
          grind
      · next notBefore =>
          split
          · next same =>
              have others := above (le_of_eq same)
              cases stays <;> grind
          · next different =>
              have notFirst := Ne.symm different
              grind

theorem mem_insert {element other : α} {elements : Ordered key} :
    other ∈ elements.insert element ↔
      other ∈ elements ∨
        other = element ∧ ∀ another ∈ elements, key another ≠ key element := by
  have members : other ∈ place key true element elements.toList ↔ _ :=
    mem_place_iff elements.ascending
  simpa [insert, ← mem_toList] using members

theorem mem_assign {element other : α} {elements : Ordered key} :
    other ∈ elements.assign element ↔
      other = element ∨ other ∈ elements ∧ key other ≠ key element := by
  have members : other ∈ place key false element elements.toList ↔ _ :=
    mem_place_iff elements.ascending
  simpa [assign, ← mem_toList, or_comm] using members

@[simp] theorem find?_assign (element : α) (elements : Ordered key) (sought : κ) :
    (elements.assign element).find? sought =
      if key element = sought then some element else elements.find? sought := by
  by_cases isElement : key element = sought
  · rw [if_pos isElement, find?_eq_some_iff]
    exact ⟨mem_assign.mpr (Or.inl rfl), isElement⟩
  · rw [if_neg isElement]
    apply Option.ext
    intro other
    rw [find?_eq_some_iff, find?_eq_some_iff, mem_assign]
    constructor
    · intro found
      rcases found with ⟨rfl | ⟨member, -⟩, isSought⟩
      · exact absurd isSought isElement
      · exact ⟨member, isSought⟩
    · intro found
      rcases found with ⟨member, isSought⟩
      exact ⟨Or.inr ⟨member, fun same => isElement (same ▸ isSought)⟩, isSought⟩

theorem find?_insert (element : α) (elements : Ordered key) (sought : κ) :
    (elements.insert element).find? sought =
      (elements.find? sought).or (if key element = sought then some element else none) := by
  cases found : elements.find? sought with
  | some other =>
      rcases find?_eq_some_iff.mp found with ⟨member, isSought⟩
      exact find?_eq_some_iff.mpr ⟨mem_insert.mpr (Or.inl member), isSought⟩
  | none =>
      have absent := find?_eq_none_iff.mp found
      rw [Option.none_or]
      by_cases isElement : key element = sought
      · rw [if_pos isElement, find?_eq_some_iff, mem_insert]
        exact ⟨Or.inr ⟨rfl, isElement ▸ absent⟩, isElement⟩
      · rw [if_neg isElement, find?_eq_none_iff]
        intro other member
        rcases mem_insert.mp member with old | ⟨rfl, -⟩
        · exact absent other old
        · exact isElement

/-! ## Taking an element out -/

def erase (sought : κ) (elements : Ordered key) : Ordered key where
  toList := elements.toList.filter fun element => decide (key element ≠ sought)
  ascending := elements.ascending.filter _

/-! ## Building a collection -/

def ofList (key : α → κ) (elements : List α) : Ordered key :=
  elements.foldl (fun collection element => collection.insert element) ∅

theorem place_eq_append {stays : Bool} {element : α} {elements : List α}
    (below : ∀ other ∈ elements, key other < key element) :
    place key stays element elements = elements ++ [element] := by
  induction elements with
  | nil => rfl
  | cons first rest induction =>
      have firstBelow := below first List.mem_cons_self
      rw [place, if_neg (not_lt.mpr (le_of_lt firstBelow)), if_neg (ne_of_gt firstBelow),
        induction fun other member => below other (List.mem_cons_of_mem _ member)]
      rfl

theorem find?_ofList (elements : List α) (sought : κ) :
    (ofList key elements).find? sought =
      elements.find? fun element => decide (key element = sought) := by
  have continued (collection : Ordered key) :
      (elements.foldl (fun collection element => collection.insert element)
        collection).find? sought =
        (collection.find? sought).or
          (elements.find? fun element => decide (key element = sought)) := by
    induction elements generalizing collection with
    | nil => exact Option.or_none.symm
    | cons element rest induction =>
        rw [List.foldl_cons, induction, find?_insert, Option.or_assoc, List.find?_cons]
        by_cases isElement : key element = sought <;> simp [isElement]
  exact continued ∅

theorem ofList_toList (elements : Ordered key) : ofList key elements.toList = elements := by
  apply ext
  have appends (collection : Ordered key) (element : α)
      (below : ∀ other ∈ collection.toList, key other < key element) :
      (collection.insert element).toList = collection.toList ++ [element] :=
    place_eq_append below
  exact toList_foldl Ordered.toList appends elements.ascending

end Ordered

end Sylar.Foundation
