import Mathlib.Data.Tree.Basic
import Mathlib.Data.List.Basic
import Mathlib.Data.List.Nodup
import Mathlib.Tactic.Common

/-! # Ordered sets kept in a search tree

The operations of a balanced search tree as the standard associative containers
specify them: every lookup descends from the root, comparing at each node, and
positions count the elements to the left in order. Nothing is assumed about the
comparison in the definitions; the lemmas ask for what they need. Rebalancing is
left open: a `Layout` fixes the shape of the tree after a modification, and only
its in-order sequence is determined.
-/

namespace Sylar.Foundation.SearchTree

open BinaryTree

variable {α : Type u}

def toList : BinaryTree α → List α
  | .nil => []
  | .node value left right => toList left ++ value :: toList right

@[simp] theorem toList_nil : toList (.nil : BinaryTree α) = [] := rfl

/-- The shape the container gives to the tree that holds a sequence. -/
structure Layout (α : Type u) where
  build : List α → BinaryTree α
  toList_build : ∀ values, toList (build values) = values

attribute [simp] Layout.toList_build

def spine : Layout α where
  build values := values.foldr (fun value rest => .node value .nil rest) .nil
  toList_build values := by
    induction values with
    | nil => rfl
    | cons value values induction => simp [toList, induction]

/-! ## Descents -/

/-- Walk from the root, to the right of the nodes for which `goRight` holds and
to the left of the others; the result counts the elements passed. -/
def descend (goRight : α → Bool) : BinaryTree α → Nat
  | .nil => 0
  | .node value left right =>
      if goRight value then (toList left).length + 1 + descend goRight right
      else descend goRight left

theorem descend_le_length (goRight : α → Bool) (tree : BinaryTree α) :
    descend goRight tree ≤ (toList tree).length := by
  induction tree with
  | nil => simp [descend]
  | node value left right leftInduction rightInduction =>
      simp only [descend, toList, List.length_append, List.length_cons]
      split <;> omega

/-- If going right at an element implies going right at all earlier ones, the
descent splits the sequence, whatever the shape of the tree. -/
theorem descend_splits (goRight : α → Bool) (tree : BinaryTree α)
    (monotone : (toList tree).Pairwise fun earlier later =>
      goRight later → goRight earlier) :
    (toList tree).take (descend goRight tree) = (toList tree).filter goRight ∧
      (toList tree).drop (descend goRight tree) =
        (toList tree).filter (fun value => !goRight value) := by
  induction tree with
  | nil => simp [toList]
  | node value left right leftInduction rightInduction =>
      rcases List.pairwise_append.mp monotone with
        ⟨leftMonotone, valueAndRight, across⟩
      rcases List.pairwise_cons.mp valueAndRight with
        ⟨fromValue, rightMonotone⟩
      by_cases passed : goRight value = true
      · have leftPassed : ∀ earlier ∈ toList left, goRight earlier = true :=
          fun earlier member => across earlier member value (by simp) passed
        have leftKept : (toList left).filter goRight = toList left :=
          List.filter_eq_self.mpr leftPassed
        have leftDropped :
            (toList left).filter (fun earlier => !goRight earlier) = [] := by
          simpa using leftPassed
        have position : (toList left).length + 1 + descend goRight right =
            (toList left).length + (descend goRight right + 1) := by omega
        simp only [toList, descend, passed, if_true, position,
          List.take_length_add_append, List.drop_length_add_append,
          List.filter_append, leftKept, leftDropped, List.filter_cons]
        simp [rightInduction rightMonotone]
      · have rightStopped : ∀ later ∈ toList right, goRight later = false := by
          intro later member
          by_contra goes
          exact passed (fromValue later member (by simpa using goes))
        have rightKept :
            (toList right).filter (fun later => !goRight later) = toList right := by
          simpa using rightStopped
        have rightDropped : (toList right).filter goRight = [] := by
          simpa using rightStopped
        rcases leftInduction leftMonotone with ⟨taken, dropped⟩
        have bounded := descend_le_length goRight left
        simp only [toList, descend, passed, List.filter_append, List.filter_cons,
          rightKept, rightDropped]
        simp [List.take_append_of_le_length bounded,
          List.drop_append_of_le_length bounded, taken, dropped]

/-! ## Operations

`lessThan` is the comparison object of the container. -/

section Operations

variable (lessThan : α → α → Bool)

def lowerBound (key : α) (tree : BinaryTree α) : Nat :=
  descend (fun value => lessThan value key) tree

def upperBound (key : α) (tree : BinaryTree α) : Nat :=
  descend (fun value => !lessThan key value) tree

def find (key : α) (tree : BinaryTree α) : Option Nat :=
  let position := lowerBound lessThan key tree
  match (toList tree)[position]? with
  | none => none
  | some value => if lessThan key value then none else some position

/-- The result of an insertion: the tree, the position of the new element or of
the equivalent one that prevented it, and whether the insertion took place. -/
structure Insertion (α : Type u) where
  tree : BinaryTree α
  position : Nat
  inserted : Bool

/-- Whether a key that belongs at a position may be inserted there: the element
just before the position, if there is one, has to be before the key. -/
def accepts (key : α) (values : List α) : Nat → Bool
  | 0 => true
  | before + 1 =>
      match values[before]? with
      | none => true
      | some value => lessThan value key

/-- Descend to the place of the key and insert it there, unless the element just
before that place is not before the key. -/
def insertUnique (layout : Layout α) (key : α) (tree : BinaryTree α) :
    Insertion α :=
  let place := upperBound lessThan key tree
  if accepts lessThan key (toList tree) place then
    { tree := layout.build
        ((toList tree).take place ++ key :: (toList tree).drop place)
      position := place
      inserted := true }
  else
    { tree := tree, position := place - 1, inserted := false }

def eraseAt (layout : Layout α) (position : Nat) (tree : BinaryTree α) :
    BinaryTree α :=
  layout.build ((toList tree).eraseIdx position)

def erasePrefix (layout : Layout α) (count : Nat) (tree : BinaryTree α) :
    BinaryTree α :=
  layout.build ((toList tree).drop count)

end Operations

@[simp] theorem toList_eraseAt (layout : Layout α) (position : Nat)
    (tree : BinaryTree α) :
    toList (eraseAt layout position tree) =
      (toList tree).eraseIdx position := by
  simp [eraseAt]

@[simp] theorem toList_erasePrefix (layout : Layout α) (count : Nat)
    (tree : BinaryTree α) :
    toList (erasePrefix layout count tree) = (toList tree).drop count := by
  simp [erasePrefix]

/-! ## Chains

A comparison that is a strict partial order need not compare every two elements.
A tree whose in-order sequence is increasing is a chain of such an order. -/

def Chain (lessThan : α → α → Bool) (tree : BinaryTree α) : Prop :=
  (toList tree).Pairwise fun earlier later => lessThan earlier later = true

def Comparable (lessThan : α → α → Bool) (left right : α) : Prop :=
  lessThan left right = true ∨ lessThan right left = true

instance (lessThan : α → α → Bool) (left right : α) :
    Decidable (Comparable lessThan left right) :=
  inferInstanceAs (Decidable (_ ∨ _))

theorem Chain.congr {lessThan lessThan' : α → α → Bool} {tree : BinaryTree α}
    (chain : Chain lessThan tree)
    (same : ∀ left ∈ toList tree, ∀ right ∈ toList tree,
      lessThan' left right = lessThan left right) :
    Chain lessThan' tree :=
  List.Pairwise.imp_of_mem
    (fun leftMember rightMember ordered =>
      (same _ leftMember _ rightMember).trans ordered) chain

section StrictOrder

variable {lessThan : α → α → Bool}
  (irreflexive : ∀ value, lessThan value value = false)
  (transitive : ∀ first second third, lessThan first second = true →
    lessThan second third = true → lessThan first third = true)
  {tree : BinaryTree α}

include irreflexive in
theorem Chain.nodup (chain : Chain lessThan tree) : (toList tree).Nodup :=
  List.Pairwise.imp (fun ordered equal => by
    subst equal
    simp [irreflexive] at ordered) chain

theorem comparable_of_pairwise {values : List α}
    (pairwise : values.Pairwise (Comparable lessThan)) {left right : α}
    (leftMember : left ∈ values) (rightMember : right ∈ values)
    (different : left ≠ right) : Comparable lessThan left right := by
  have forward : values.Pairwise fun left right =>
      left ≠ right → Comparable lessThan left right := by
    apply pairwise.imp
    exact fun related _ => related
  have backward : values.Pairwise (flip fun left right =>
      left ≠ right → Comparable lessThan left right) := by
    apply pairwise.imp
    exact fun related _ => related.symm
  exact List.Pairwise.forall_of_forall_of_flip
    (fun _ _ self => absurd rfl self) forward backward leftMember rightMember
    different

theorem Chain.comparable (chain : Chain lessThan tree) {left right : α}
    (leftMember : left ∈ toList tree) (rightMember : right ∈ toList tree)
    (different : left ≠ right) : Comparable lessThan left right :=
  comparable_of_pairwise (List.Pairwise.imp Or.inl chain) leftMember
    rightMember different

section Transitive

include transitive

theorem Chain.upperBound_splits (chain : Chain lessThan tree) (key : α) :
    (toList tree).take (upperBound lessThan key tree) =
        (toList tree).filter (fun value => !lessThan key value) ∧
      (toList tree).drop (upperBound lessThan key tree) =
        (toList tree).filter (fun value => lessThan key value) := by
  have split := descend_splits (fun value => !lessThan key value) tree
    (List.Pairwise.imp (fun ordered notAfter => by
      by_contra after
      simp only [Bool.not_eq_true', Bool.not_eq_false] at notAfter after
      simp [transitive _ _ _ after ordered] at notAfter) chain)
  simpa [upperBound] using split

theorem Chain.lowerBound_splits (chain : Chain lessThan tree) (key : α) :
    (toList tree).take (lowerBound lessThan key tree) =
        (toList tree).filter (fun value => lessThan value key) ∧
      (toList tree).drop (lowerBound lessThan key tree) =
        (toList tree).filter (fun value => !lessThan value key) :=
  descend_splits (fun value => lessThan value key) tree
    (List.Pairwise.imp (fun ordered before =>
      transitive _ _ _ ordered before) chain)

theorem Chain.accepts_iff (chain : Chain lessThan tree) (key : α) :
    accepts lessThan key (toList tree) (upperBound lessThan key tree) = true ↔
      ∀ value ∈ toList tree, Comparable lessThan value key := by
  rcases chain.upperBound_splits transitive key with ⟨taken, dropped⟩
  have bounded : upperBound lessThan key tree ≤ (toList tree).length :=
    descend_le_length _ tree
  have afterPlace : ∀ value ∈ toList tree,
      value ∉ (toList tree).take (upperBound lessThan key tree) →
      lessThan key value = true := by
    intro value member notTaken
    by_contra notAfter
    rw [taken] at notTaken
    exact notTaken (List.mem_filter.mpr ⟨member, by simpa using notAfter⟩)
  cases place : upperBound lessThan key tree with
  | zero =>
      rw [place] at afterPlace
      simp only [accepts, true_iff]
      exact fun value member => Or.inr (afterPlace value member (by simp))
  | succ before =>
      rw [place] at taken bounded afterPlace
      have inside : before < (toList tree).length := by omega
      have lastTaken : (toList tree)[before] ∈
          (toList tree).take (before + 1) := by
        rw [List.take_succ_eq_append_getElem inside]
        exact List.mem_append_right _ (List.mem_singleton_self _)
      have lastNotAfter : lessThan key (toList tree)[before] = false := by
        rw [taken] at lastTaken
        simpa using (List.mem_filter.mp lastTaken).2
      simp only [accepts, List.getElem?_eq_getElem inside]
      constructor
      · intro lastBefore value member
        by_cases isTaken : value ∈ (toList tree).take (before + 1)
        · left
          rw [List.take_succ_eq_append_getElem inside] at isTaken
          rcases List.mem_append.mp isTaken with earlier | last
          · have ordered : ((toList tree).take before ++
                (toList tree).drop before).Pairwise
                  fun earlier later => lessThan earlier later = true := by
              rw [List.take_append_drop]
              exact chain
            have lastDropped : (toList tree)[before] ∈
                (toList tree).drop before := by
              rw [List.drop_eq_getElem_cons inside]
              exact List.mem_cons_self
            exact transitive _ _ _
              ((List.pairwise_append.mp ordered).2.2 value earlier _
                lastDropped) lastBefore
          · rw [List.mem_singleton.mp last]
            exact lastBefore
        · exact Or.inr (afterPlace value member isTaken)
      · intro comparable
        rcases comparable _ (List.getElem_mem inside) with lastBefore | lastAfter
        · exact lastBefore
        · simp [lastNotAfter] at lastAfter

theorem Chain.insertUnique_inserted_iff (chain : Chain lessThan tree)
    (layout : Layout α) (key : α) :
    (insertUnique lessThan layout key tree).inserted = true ↔
      ∀ value ∈ toList tree, Comparable lessThan value key := by
  rw [← chain.accepts_iff transitive key]
  by_cases accepted :
      accepts lessThan key (toList tree) (upperBound lessThan key tree) = true <;>
    simp [insertUnique, accepted]

theorem Chain.toList_insertUnique (chain : Chain lessThan tree)
    (layout : Layout α) (key : α)
    (comparable : ∀ value ∈ toList tree, Comparable lessThan value key) :
    toList (insertUnique lessThan layout key tree).tree =
      (toList tree).filter (fun value => !lessThan key value) ++
        key :: (toList tree).filter (fun value => lessThan key value) := by
  rcases chain.upperBound_splits transitive key with ⟨taken, dropped⟩
  have accepted := (chain.accepts_iff transitive key).mpr comparable
  rw [← taken, ← dropped]
  simp [insertUnique, accepted]

omit transitive in
theorem insertUnique_refused (layout : Layout α) (key : α)
    (refused : (insertUnique lessThan layout key tree).inserted = false) :
    (insertUnique lessThan layout key tree).tree = tree := by
  by_cases accepted :
      accepts lessThan key (toList tree) (upperBound lessThan key tree) = true
  · simp [insertUnique, accepted] at refused
  · simp [insertUnique, accepted]

theorem Chain.insertUnique (chain : Chain lessThan tree) (layout : Layout α)
    (key : α) :
    Chain lessThan (insertUnique lessThan layout key tree).tree := by
  cases inserted : (SearchTree.insertUnique lessThan layout key tree).inserted with
  | false => rwa [insertUnique_refused layout key inserted]
  | true =>
      have comparable :=
        (chain.insertUnique_inserted_iff transitive layout key).mp inserted
      have beforeKey : ∀ value ∈ toList tree, lessThan key value = false →
          lessThan value key = true := by
        intro value member notAfter
        rcases comparable value member with before | after
        · exact before
        · simp [notAfter] at after
      rw [Chain]
      rw [chain.toList_insertUnique transitive layout key comparable]
      refine List.pairwise_append.mpr
        ⟨chain.filter _, List.pairwise_cons.mpr ⟨?_, chain.filter _⟩, ?_⟩
      · intro value member
        simpa using (List.mem_filter.mp member).2
      · intro earlier earlierMember later laterMember
        have earlierFacts := List.mem_filter.mp earlierMember
        have earlierBefore := beforeKey earlier earlierFacts.1
          (by simpa using earlierFacts.2)
        rcases List.mem_cons.mp laterMember with isKey | laterMember
        · exact isKey ▸ earlierBefore
        · exact transitive _ _ _ earlierBefore
            (by simpa using (List.mem_filter.mp laterMember).2)

theorem Chain.mem_insertUnique (chain : Chain lessThan tree)
    (layout : Layout α) (key : α)
    (comparable : ∀ value ∈ toList tree, Comparable lessThan value key)
    (value : α) :
    value ∈ toList (SearchTree.insertUnique lessThan layout key tree).tree ↔
      value = key ∨ value ∈ toList tree := by
  rw [chain.toList_insertUnique transitive layout key comparable]
  simp only [List.mem_append, List.mem_cons, List.mem_filter]
  cases lessThan key value <;> simp [or_comm]

/-- What a successful `find` returns in a chain is an element that the
comparison does not tell from the key. -/
theorem Chain.find_some (chain : Chain lessThan tree) (key : α)
    {position : Nat} (found : find lessThan key tree = some position) :
    ∃ value, (toList tree)[position]? = some value ∧
      ¬Comparable lessThan value key := by
  rcases chain.lowerBound_splits transitive key with ⟨_, dropped⟩
  rw [find] at found
  cases atBound : (toList tree)[lowerBound lessThan key tree]? with
  | none => simp [atBound] at found
  | some value =>
      simp only [atBound, Option.ite_none_left_eq_some, Option.some.injEq,
        Bool.not_eq_true] at found
      rcases found with ⟨notAfter, isBound⟩
      have head : ((toList tree).drop (lowerBound lessThan key tree))[0]? =
          some value := by
        simpa using atBound
      rw [dropped] at head
      have notBefore := (List.mem_filter.mp (List.mem_of_getElem? head)).2
      refine ⟨value, isBound ▸ atBound, ?_⟩
      intro given
      rcases given with before | after
      · simp [before] at notBefore
      · simp [notAfter] at after

/-- `find` fails in a chain exactly if the key is comparable with every
element. -/
theorem Chain.find_eq_none_iff (chain : Chain lessThan tree) (key : α) :
    find lessThan key tree = none ↔
      ∀ value ∈ toList tree, Comparable lessThan value key := by
  rcases chain.lowerBound_splits transitive key with ⟨taken, dropped⟩
  have beforeOrDropped : ∀ value ∈ toList tree,
      lessThan value key = true ∨
        value ∈ (toList tree).drop (lowerBound lessThan key tree) := by
    intro value member
    cases before : lessThan value key with
    | true => exact Or.inl rfl
    | false =>
        right
        rw [dropped]
        exact List.mem_filter.mpr ⟨member, by simp [before]⟩
  constructor
  · intro missing value member
    rcases beforeOrDropped value member with before | isDropped
    · exact Or.inl before
    · right
      rw [find] at missing
      cases atBound : (toList tree)[lowerBound lessThan key tree]? with
      | none =>
          rw [List.drop_eq_nil_of_le (List.getElem?_eq_none_iff.mp atBound)]
            at isDropped
          cases isDropped
      | some first =>
          have firstAfter : lessThan key first = true := by
            simpa [atBound] using missing
          rcases List.getElem?_eq_some_iff.mp atBound with ⟨inside, isFirst⟩
          rw [List.drop_eq_getElem_cons inside, isFirst] at isDropped
          rcases List.mem_cons.mp isDropped with isValue | later
          · exact isValue ▸ firstAfter
          · have ordered := (List.pairwise_cons.mp
              (isFirst ▸ List.drop_eq_getElem_cons inside ▸
                List.Pairwise.drop chain)).1
            exact transitive _ _ _ firstAfter (ordered value later)
  · intro comparable
    cases found : find lessThan key tree with
    | none => rfl
    | some position =>
        rcases chain.find_some transitive key found with
          ⟨value, atPosition, incomparable⟩
        exact absurd (comparable value (List.mem_of_getElem? atPosition))
          incomparable

end Transitive

theorem Chain.find_of_mem
    (irreflexive : ∀ value, lessThan value value = false)
    (transitive : ∀ first second third, lessThan first second = true →
      lessThan second third = true → lessThan first third = true)
    (chain : Chain lessThan tree) {key : α} (member : key ∈ toList tree) :
    ∃ position, find lessThan key tree = some position ∧
      (toList tree)[position]? = some key := by
  cases found : find lessThan key tree with
  | none =>
      have self := (chain.find_eq_none_iff transitive key).mp found key member
      simp [Comparable, irreflexive] at self
  | some position =>
      rcases chain.find_some transitive key found with
        ⟨value, atPosition, incomparable⟩
      have same : value = key := by
        by_contra different
        exact incomparable (chain.comparable
          (List.mem_of_getElem? atPosition) member different)
      exact ⟨position, rfl, same ▸ atPosition⟩

end StrictOrder

/-! ## Erasing -/

theorem Chain.eraseAt {lessThan : α → α → Bool} {tree : BinaryTree α}
    (chain : Chain lessThan tree) (layout : Layout α) (position : Nat) :
    Chain lessThan (eraseAt layout position tree) := by
  rw [Chain]
  rw [toList_eraseAt]
  exact List.Pairwise.sublist (List.eraseIdx_sublist _ _) chain

theorem Chain.erasePrefix {lessThan : α → α → Bool} {tree : BinaryTree α}
    (chain : Chain lessThan tree) (layout : Layout α) (count : Nat) :
    Chain lessThan (erasePrefix layout count tree) := by
  rw [Chain]
  rw [toList_erasePrefix]
  exact List.Pairwise.drop chain

theorem mem_eraseAt {tree : BinaryTree α} (nodup : (toList tree).Nodup)
    (layout : Layout α) {position : Nat} {erased : α}
    (atPosition : (toList tree)[position]? = some erased) (value : α) :
    value ∈ toList (SearchTree.eraseAt layout position tree) ↔
      value ∈ toList tree ∧ value ≠ erased := by
  rcases List.getElem?_eq_some_iff.mp atPosition with ⟨inside, isErased⟩
  have split : toList tree = (toList tree).take position ++
      erased :: (toList tree).drop (position + 1) := by
    rw [← isErased, ← List.drop_eq_getElem_cons inside,
      List.take_append_drop]
  rw [toList_eraseAt, List.eraseIdx_eq_take_drop_succ]
  rw [split] at nodup
  have parts := List.nodup_append.mp nodup
  have notLater := (List.nodup_cons.mp parts.2.1).1
  conv_rhs => rw [split]
  simp only [List.mem_append, List.mem_cons]
  constructor
  · intro given
    rcases given with earlier | later
    · exact ⟨Or.inl earlier, parts.2.2 value earlier erased (by simp)⟩
    · exact ⟨Or.inr (Or.inr later), fun same => notLater (same ▸ later)⟩
  · intro given
    rcases given with ⟨earlier | same | later, different⟩
    · exact Or.inl earlier
    · exact absurd same different
    · exact Or.inr later

end Sylar.Foundation.SearchTree
