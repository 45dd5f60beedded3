import Mathlib
import Sylar.Settings.LexicalCast

/-! # Values that come back from their texts

For every type that is built from integers and containers, the casts to text and back
return the value.
-/

namespace Sylar.Settings

open Foundation

/-! ## What the casts mean -/

/-- When two values of a type are equal, and the node that the cast to text dumps. -/
structure Meaning (T : Type) where
  same : T → T → Prop
  node : T → Node

namespace Meaning

variable {T C : Type}

def integer (boost : Boost) (low high : Int) : Meaning (Integer low high) where
  same := Eq
  node v := .scalar (boost.toText v.val)

def elementwise (meaning : Meaning T) (elements : C → List T) (same : C → C → Prop) :
    Meaning C where
  same := same
  node v := .ofItems ((elements v).map meaning.node)

def vector (meaning : Meaning T) : Meaning (Array T) :=
  meaning.elementwise Array.toList fun left right =>
    List.Forall₂ meaning.same left.toList right.toList

def list (meaning : Meaning T) : Meaning (List T) :=
  meaning.elementwise (fun v => v) (List.Forall₂ meaning.same)

def set [LinearOrder T] (meaning : Meaning T) : Meaning (Ordered fun element : T => element) :=
  meaning.elementwise Ordered.toList Eq

def unorderedSet (meaning : Meaning T) : Meaning (Unordered fun element : T => element) :=
  meaning.elementwise Unordered.toList fun left right =>
    ∀ element, element ∈ left ↔ element ∈ right

def SameEntry (meaning : Meaning T) (left right : Text × T) : Prop :=
  left.1 = right.1 ∧ meaning.same left.2 right.2

def keyed (meaning : Meaning T) (elements : C → List (Text × T)) (same : C → C → Prop) :
    Meaning C where
  same := same
  node v := .ofEntries ((elements v).map fun entry => (entry.1, meaning.node entry.2))

def map (meaning : Meaning T) : Meaning (Ordered (Prod.fst : Text × T → Text)) :=
  meaning.keyed Ordered.toList fun left right =>
    List.Forall₂ meaning.SameEntry left.toList right.toList

def unorderedMap (meaning : Meaning T) : Meaning (Unordered (Prod.fst : Text × T → Text)) :=
  meaning.keyed Unordered.toList fun left right =>
    ∀ key, Option.Rel meaning.SameEntry (left.find? key) (right.find? key)

def Plain (meaning : Meaning T) : Prop :=
  ∀ left right, meaning.same left right → left = right

theorem Plain.integer (boost : Boost) (low high : Int) : (integer boost low high).Plain :=
  fun _ _ same => same

theorem Plain.eq_of_forall₂ {meaning : Meaning T} (plain : meaning.Plain) {ws vs : List T}
    (allSame : List.Forall₂ meaning.same ws vs) : ws = vs := by
  have allEqual : List.Forall₂ Eq ws vs := allSame.imp plain
  rwa [List.forall₂_eq_eq_eq] at allEqual

theorem Plain.vector {meaning : Meaning T} (plain : meaning.Plain) : meaning.vector.Plain :=
  fun _ _ same => Array.toList_inj.mp (plain.eq_of_forall₂ same)

theorem Plain.list {meaning : Meaning T} (plain : meaning.Plain) : meaning.list.Plain :=
  fun _ _ same => plain.eq_of_forall₂ same

theorem Plain.set [LinearOrder T] (meaning : Meaning T) : meaning.set.Plain :=
  fun _ _ same => same

theorem Plain.map {meaning : Meaning T} (plain : meaning.Plain) : meaning.map.Plain := by
  intro left right same
  have entries : List.Forall₂ Eq left.toList right.toList := same.imp
    fun _ _ sameEntry => Prod.ext sameEntry.1 (plain _ _ sameEntry.2)
  rw [List.forall₂_eq_eq_eq] at entries
  exact Ordered.ext entries

end Meaning

/-- The types built from the integer types by the containers, with their casts. The
elements of a set are compared, or hashed: they are plain. -/
inductive Built (yaml : Yaml) (boost : Boost) :
    {T : Type} → LexicalCast T → Meaning T → Prop
  | int32 : Built yaml boost (.int32 boost) (.integer boost _ _)
  | int64 : Built yaml boost (.int64 boost) (.integer boost _ _)
  | uint64 : Built yaml boost (.uint64 boost) (.integer boost _ _)
  | vector {T : Type} {cast : LexicalCast T} {meaning : Meaning T}
      (element : Built yaml boost cast meaning) :
      Built yaml boost (cast.vector yaml) meaning.vector
  | list {T : Type} {cast : LexicalCast T} {meaning : Meaning T}
      (element : Built yaml boost cast meaning) :
      Built yaml boost (cast.list yaml) meaning.list
  | set {T : Type} [LinearOrder T] {cast : LexicalCast T} {meaning : Meaning T}
      (element : Built yaml boost cast meaning)
      (plain : meaning.Plain) :
      Built yaml boost (cast.set yaml) meaning.set
  | unorderedSet {T : Type} [DecidableEq T] {cast : LexicalCast T} {meaning : Meaning T}
      (element : Built yaml boost cast meaning)
      (plain : meaning.Plain) :
      Built yaml boost (cast.unorderedSet yaml) meaning.unorderedSet
  | map {T : Type} {cast : LexicalCast T} {meaning : Meaning T}
      (value : Built yaml boost cast meaning) :
      Built yaml boost (cast.map yaml) meaning.map
  | unorderedMap {T : Type} {cast : LexicalCast T} {meaning : Meaning T}
      (value : Built yaml boost cast meaning) :
      Built yaml boost (cast.unorderedMap yaml) meaning.unorderedMap

/-- yaml-cpp loads every part of the node as it has dumped it, and dumps a scalar as its
own text. -/
def Yaml.Returns (yaml : Yaml) (node : Node) : Prop :=
  ∀ part, part.Part node →
    yaml.load (yaml.dump part) = .ok part ∧
      ∀ text, part = .scalar text → yaml.dump part = text

namespace Yaml.Returns

variable {yaml : Yaml} {node : Node}

theorem load (returns : yaml.Returns node) : yaml.load (yaml.dump node) = .ok node :=
  (returns node (.self node)).1

theorem ofItem {items : List Node} (returns : yaml.Returns (.ofItems items)) {item : Node}
    (isItem : item ∈ items) : yaml.Returns item := by
  intro part isPart
  cases items with
  | nil => exact absurd isItem List.not_mem_nil
  | cons first rest => exact returns part (.item isItem isPart)

theorem ofEntry {entries : List (Text × Node)} (returns : yaml.Returns (.ofEntries entries))
    {entry : Text × Node} (isEntry : entry ∈ entries) : yaml.Returns entry.2 := by
  intro part isPart
  cases entries with
  | nil => exact absurd isEntry List.not_mem_nil
  | cons first rest => exact returns part (.entry isEntry isPart)

end Yaml.Returns

theorem Node.entries_ofEntries (entries : List (Text × Node)) :
    (Node.ofEntries entries).entries = .ok entries := by
  cases entries <;> rfl

theorem Node.assign_eq_append {key : Text} {value : Node} {entries : List (Text × Node)}
    (fresh : ∀ entry ∈ entries, entry.1 ≠ key) :
    Node.assign key value entries = entries ++ [(key, value)] := by
  induction entries with
  | nil => rfl
  | cons first rest induction =>
      have firstOther := fresh first List.mem_cons_self
      have restFresh := fun entry member => fresh entry (List.mem_cons_of_mem first member)
      rw [Node.assign, if_neg firstOther, induction restFresh]
      rfl

namespace Node

theorem part_null_iff {part : Node} : part.Part .null ↔ part = .null := by
  constructor
  · intro isPart
    cases isPart
    rfl
  · intro isNode
    exact isNode ▸ .self part

theorem part_scalar_iff {part : Node} {text : Text} :
    part.Part (.scalar text) ↔ part = .scalar text := by
  constructor
  · intro isPart
    cases isPart
    rfl
  · intro isNode
    exact isNode ▸ .self part

theorem part_sequence_iff {part : Node} {items : List Node} :
    part.Part (.sequence items) ↔
      part = .sequence items ∨ ∃ item ∈ items, part.Part item := by
  constructor
  · intro isPart
    cases isPart with
    | self => exact Or.inl rfl
    | item isItem isPart => exact Or.inr ⟨_, isItem, isPart⟩
  · intro isPart
    rcases isPart with rfl | ⟨item, isItem, isPart⟩
    · exact .self _
    · exact .item isItem isPart

end Node

/-! ## From an element to a container -/

structure Exact (yaml : Yaml) {T : Type} (cast : LexicalCast T) (meaning : Meaning T)
    (v : T) : Prop where
  dumped : cast.toText v = .ok (yaml.dump (meaning.node v))
  returned : ∃ w, cast.ofText (yaml.dump (meaning.node v)) = .ok w ∧ meaning.same w v

namespace LexicalCast

variable {yaml : Yaml} {T C : Type} {cast : LexicalCast T} {meaning : Meaning T}

/-! ### Containers of elements -/

theorem itemsOf_eq {vs : List T} (exact : ∀ v ∈ vs, Exact yaml cast meaning v)
    (loads : ∀ v ∈ vs, yaml.load (yaml.dump (meaning.node v)) = .ok (meaning.node v)) :
    itemsOf yaml cast vs = .ok (vs.map meaning.node) := by
  induction vs with
  | nil => rfl
  | cons v rest induction =>
      have restItems := induction
        (fun v member => exact v (List.mem_cons_of_mem _ member))
        (fun v member => loads v (List.mem_cons_of_mem _ member))
      rw [itemsOf, (exact v List.mem_cons_self).dumped]
      change (yaml.load _ >>= _) = _
      rw [loads v List.mem_cons_self]
      change (itemsOf yaml cast rest >>= _) = _
      rw [restItems]
      rfl

theorem readItems_eq {vs : List T} (exact : ∀ v ∈ vs, Exact yaml cast meaning v)
    (add : C → T → C) (vec : C) :
    ∃ ws, List.Forall₂ meaning.same ws vs ∧
      readItems yaml cast add ((vs.map meaning.node).map some) vec =
        .ok (ws.foldl add vec) := by
  induction vs generalizing vec with
  | nil => exact ⟨[], .nil, rfl⟩
  | cons v rest induction =>
      rcases (exact v List.mem_cons_self).returned with ⟨w, read, same⟩
      rcases induction (fun v member => exact v (List.mem_cons_of_mem _ member)) (add vec w)
        with ⟨ws, allSame, result⟩
      refine ⟨w :: ws, .cons same allSame, ?_⟩
      rw [List.map_cons, List.map_cons, readItems, Yaml.write, read]
      exact result

/-- A container of exact elements is exact if adding equal elements in their order makes
an equal container. -/
theorem elementwise_exact {elements : C → List T} {same : C → C → Prop} {empty : C}
    {add : C → T → C} {v : C}
    (element : ∀ x, yaml.Returns (meaning.node x) → Exact yaml cast meaning x)
    (collects : ∀ ws, List.Forall₂ meaning.same ws (elements v) → same (ws.foldl add empty) v)
    (returns : yaml.Returns ((meaning.elementwise elements same).node v)) :
    Exact yaml (elementwise yaml cast elements empty add)
      (meaning.elementwise elements same) v := by
  have exact : ∀ x ∈ elements v, Exact yaml cast meaning x := fun x member =>
    element x (returns.ofItem (List.mem_map_of_mem member))
  constructor
  · have items := itemsOf_eq exact fun x member =>
      (returns.ofItem (List.mem_map_of_mem member)).load
    simp only [elementwise, items]
    rfl
  · rcases readItems_eq exact add empty with ⟨ws, allSame, result⟩
    refine ⟨ws.foldl add empty, ?_, collects ws allSame⟩
    have loaded := returns.load
    simp only [elementwise, loaded]
    change readItems yaml cast add (Node.items yaml (Node.ofItems _)) empty = _
    rw [Node.items_ofItems, result]

/-! ### Maps -/

theorem entriesOf_eq {vs : List (Text × T)}
    (exact : ∀ v ∈ vs, Exact yaml cast meaning v.2)
    (loads : ∀ v ∈ vs, yaml.load (yaml.dump (meaning.node v.2)) = .ok (meaning.node v.2))
    (distinct : vs.Pairwise fun left right => left.1 ≠ right.1)
    {node : List (Text × Node)} (fresh : ∀ entry ∈ node, ∀ v ∈ vs, entry.1 ≠ v.1) :
    entriesOf yaml cast vs node =
      .ok (node ++ vs.map fun v => (v.1, meaning.node v.2)) := by
  induction vs generalizing node with
  | nil => simp [entriesOf]
  | cons v rest induction =>
      rcases List.pairwise_cons.mp distinct with ⟨others, restDistinct⟩
      have appended : Node.assign v.1 (meaning.node v.2) node =
          node ++ [(v.1, meaning.node v.2)] :=
        Node.assign_eq_append fun entry member => fresh entry member v List.mem_cons_self
      have stillFresh : ∀ entry ∈ node ++ [(v.1, meaning.node v.2)], ∀ other ∈ rest,
          entry.1 ≠ other.1 := by
        intro entry member other isOther
        rcases List.mem_append.mp member with old | new
        · exact fresh entry old other (List.mem_cons_of_mem _ isOther)
        · rw [List.mem_singleton.mp new]
          exact others other isOther
      have restEntries := induction
        (fun v member => exact v (List.mem_cons_of_mem _ member))
        (fun v member => loads v (List.mem_cons_of_mem _ member)) restDistinct stillFresh
      rw [entriesOf, (exact v List.mem_cons_self).dumped]
      change (yaml.load _ >>= _) = _
      rw [loads v List.mem_cons_self]
      change entriesOf yaml cast rest (Node.assign v.1 (meaning.node v.2) node) = _
      rw [appended, restEntries, List.append_assoc]
      rfl

theorem readEntries_eq {vs : List (Text × T)}
    (exact : ∀ v ∈ vs, Exact yaml cast meaning v.2) (add : C → Text × T → C) (map : C) :
    ∃ ws, List.Forall₂ meaning.SameEntry ws vs ∧
      readEntries yaml cast add (vs.map fun v => (v.1, meaning.node v.2)) map =
        .ok (ws.foldl add map) := by
  induction vs generalizing map with
  | nil => exact ⟨[], .nil, rfl⟩
  | cons v rest induction =>
      rcases (exact v List.mem_cons_self).returned with ⟨w, read, same⟩
      rcases induction (fun v member => exact v (List.mem_cons_of_mem _ member))
        (add map (v.1, w)) with ⟨ws, allSame, result⟩
      refine ⟨(v.1, w) :: ws, .cons ⟨rfl, same⟩ allSame, ?_⟩
      rw [List.map_cons, readEntries, read]
      exact result

/-- A map with distinct keys and exact values is exact if adding equal entries in their
order makes an equal map. -/
theorem keyed_exact {elements : C → List (Text × T)} {same : C → C → Prop} {empty : C}
    {add : C → Text × T → C} {v : C}
    (distinct : (elements v).Pairwise fun left right => left.1 ≠ right.1)
    (value : ∀ x, yaml.Returns (meaning.node x) → Exact yaml cast meaning x)
    (collects : ∀ ws, List.Forall₂ meaning.SameEntry ws (elements v) →
      same (ws.foldl add empty) v)
    (returns : yaml.Returns ((meaning.keyed elements same).node v)) :
    Exact yaml (keyed yaml cast elements empty add) (meaning.keyed elements same) v := by
  have exact : ∀ entry ∈ elements v, Exact yaml cast meaning entry.2 := fun entry member =>
    value entry.2 (returns.ofEntry (List.mem_map_of_mem member))
  constructor
  · have noEntries : ∀ entry ∈ ([] : List (Text × Node)), ∀ v' ∈ elements v, entry.1 ≠ v'.1 :=
      fun entry member => absurd member List.not_mem_nil
    have entries := entriesOf_eq exact
      (fun entry member => (returns.ofEntry (List.mem_map_of_mem member)).load) distinct
      noEntries
    simp only [keyed, entries]
    rfl
  · rcases readEntries_eq exact add empty with ⟨ws, allSame, result⟩
    refine ⟨ws.foldl add empty, ?_, collects ws allSame⟩
    have loaded := returns.load
    simp only [keyed, loaded]
    change (Node.entries (Node.ofEntries _) >>= _) = _
    rw [Node.entries_ofEntries]
    exact result

end LexicalCast

namespace Meaning

variable {T : Type} {meaning : Meaning T}

theorem keys_eq {ws vs : List (Text × T)} (allSame : List.Forall₂ meaning.SameEntry ws vs) :
    ws.map Prod.fst = vs.map Prod.fst := by
  induction allSame with
  | nil => rfl
  | cons same _ induction => rw [List.map_cons, List.map_cons, same.1, induction]

theorem pairwise_keys {relation : Text → Text → Prop} {ws vs : List (Text × T)}
    (allSame : List.Forall₂ meaning.SameEntry ws vs)
    (pairwise : vs.Pairwise fun left right => relation left.1 right.1) :
    ws.Pairwise fun left right => relation left.1 right.1 := by
  have keys : (vs.map Prod.fst).Pairwise relation := List.pairwise_map.mpr pairwise
  rw [← keys_eq allSame] at keys
  exact List.pairwise_map.mp keys

theorem find?_rel {ws vs : List (Text × T)}
    (allSame : List.Forall₂ meaning.SameEntry ws vs) (key : Text) :
    Option.Rel meaning.SameEntry (ws.find? fun entry => decide (entry.1 = key))
      (vs.find? fun entry => decide (entry.1 = key)) := by
  induction allSame with
  | nil => exact .none
  | @cons w v _ _ same _ induction =>
      by_cases isKey : v.1 = key
      · have isKey' : w.1 = key := same.1.trans isKey
        simpa [isKey, isKey'] using Option.Rel.some same
      · have notKey : w.1 ≠ key := fun equal => isKey (same.1.symm.trans equal)
        simpa [isKey, notKey] using induction

end Meaning

/-! ## The round trip -/

theorem Built.exact {yaml : Yaml} {boost : Boost}
    (inverse : ∀ low high (n : Integer low high),
      boost.ofText low high (boost.toText n.val) = .ok n)
    {T : Type} {cast : LexicalCast T} {meaning : Meaning T}
    (built : Built yaml boost cast meaning) :
    ∀ v, yaml.Returns (meaning.node v) → Exact yaml cast meaning v := by
  induction built with
  | int32 | int64 | uint64 =>
      intro v returns
      have own : yaml.dump (.scalar (boost.toText v.val)) = boost.toText v.val :=
        (returns _ (.self _)).2 _ rfl
      exact
        { dumped := congrArg Except.ok own.symm
          returned := ⟨v, (congrArg _ own).trans (inverse _ _ v), rfl⟩ }
  | vector element induction =>
      intro v returns
      refine LexicalCast.elementwise_exact induction ?_ returns
      intro ws allSame
      simpa using allSame
  | list element induction =>
      intro v returns
      refine LexicalCast.elementwise_exact induction ?_ returns
      intro ws allSame
      have appended : ws.foldl (fun vec element => vec ++ [element]) [] = ws := by
        rw [List.foldl_append_eq_append, ← List.flatMap_def, List.flatMap_singleton']
        rfl
      rw [appended]
      exact allSame
  | set element plain induction =>
      intro v returns
      refine LexicalCast.elementwise_exact induction ?_ returns
      intro ws allSame
      rw [plain.eq_of_forall₂ allSame]
      exact Ordered.ofList_toList v
  | unorderedSet element plain induction =>
      intro v returns
      refine LexicalCast.elementwise_exact induction ?_ returns
      intro ws allSame element
      have inserted : (Unordered.ofList (fun element => element) v.toList).toList = v.toList :=
        Unordered.toList_ofList v.distinct
      rw [plain.eq_of_forall₂ allSame]
      change element ∈ (Unordered.ofList (fun element => element) v.toList).toList ↔ _
      rw [inserted]
      rfl
  | map value induction =>
      intro v returns
      refine LexicalCast.keyed_exact (v.ascending.imp ne_of_lt) induction ?_ returns
      intro ws allSame
      have inserted : Ordered.ofList Prod.fst ws =
          ⟨ws, Meaning.pairwise_keys allSame v.ascending⟩ :=
        Ordered.ofList_toList ⟨ws, Meaning.pairwise_keys allSame v.ascending⟩
      change List.Forall₂ _ (Ordered.ofList Prod.fst ws).toList v.toList
      rw [inserted]
      exact allSame
  | unorderedMap value induction =>
      intro v returns
      refine LexicalCast.keyed_exact v.distinct induction ?_ returns
      intro ws allSame key
      have inserted : (Unordered.ofList Prod.fst ws).toList = ws :=
        Unordered.toList_ofList (Meaning.pairwise_keys allSame v.distinct)
      change Option.Rel _ ((Unordered.ofList Prod.fst ws).toList.find? _) _
      rw [inserted]
      exact Meaning.find?_rel allSame key

/-- The cast of a value to text and back returns the value. -/
theorem Built.roundTrip {yaml : Yaml} {boost : Boost}
    (inverse : ∀ low high (n : Integer low high),
      boost.ofText low high (boost.toText n.val) = .ok n)
    {T : Type} {cast : LexicalCast T} {meaning : Meaning T}
    (built : Built yaml boost cast meaning) (v : T)
    (returns : yaml.Returns (meaning.node v)) :
    ∃ w, (cast.toText v >>= cast.ofText) = .ok w ∧ meaning.same w v := by
  have exact := built.exact inverse v returns
  rcases exact.returned with ⟨w, read, same⟩
  refine ⟨w, ?_, same⟩
  rw [exact.dumped]
  exact read

def decimals : Boost where
  toText n := n.repr.toList
  ofText low high text :=
    match (String.ofList text).toInt? with
    | some n => if within : low ≤ n ∧ n ≤ high then .ok ⟨n, within⟩ else .error .badLexicalCast
    | none => .error .badLexicalCast

theorem decimals_inverse (low high : Int) (n : Integer low high) :
    decimals.ofText low high (decimals.toText n.val) = .ok n := by
  have read : (String.ofList n.val.repr.toList).toInt? = some n.val := by
    rw [String.ofList_toList, Int.toInt?_repr]
  simp only [decimals, read]
  exact dif_pos n.property

def setOfLists : Yaml where
  load text :=
    if text = "~".toList then .ok .null
    else if text = "- 1\n- 2".toList then
      .ok (.sequence [.scalar "1".toList, .scalar "2".toList])
    else if text = "- ~\n-\n  - 1\n  - 2".toList then
      .ok (.sequence [.null, .sequence [.scalar "1".toList, .scalar "2".toList]])
    else .ok (.scalar text)
  dump
    | .null => "~".toList
    | .scalar text => text
    | .sequence (.null :: _) => "- ~\n-\n  - 1\n  - 2".toList
    | .sequence _ => "- 1\n- 2".toList
    | .map _ => []
  index text := (String.ofList text).toNat?
  nullText := .ok "null".toList

theorem Built.roundTrip_setOfLists :
    let one : Integer (-2147483648) 2147483647 := ⟨1, by decide⟩
    let two : Integer (-2147483648) 2147483647 := ⟨2, by decide⟩
    let cast := ((LexicalCast.int32 decimals).list setOfLists).set setOfLists
    let v : Ordered fun element : List (Integer (-2147483648) 2147483647) => element :=
      { toList := [[], [one, two]], ascending := by simp }
    ∃ w, (cast.toText v >>= cast.ofText) = .ok w ∧ w = v := by
  intro one two cast v
  have plain := (Meaning.Plain.integer decimals (-2147483648) 2147483647).list
  refine Built.roundTrip decimals_inverse (.set (.list .int32) plain) v ?_
  have node : ((Meaning.integer decimals (-2147483648) 2147483647).list.set).node v =
      .sequence [.null, .sequence [.scalar "1".toList, .scalar "2".toList]] := by
    have oneText : decimals.toText 1 = "1".toList := by decide +kernel
    have twoText : decimals.toText 2 = "2".toList := by decide +kernel
    rw [← oneText, ← twoText]
    rfl
  rw [node]
  intro part isPart
  simp only [Node.part_sequence_iff, List.mem_cons, List.not_mem_nil, or_false,
    exists_eq_or_imp, exists_eq_left, Node.part_null_iff, Node.part_scalar_iff] at isPart
  rcases isPart with rfl | rfl | rfl | rfl | rfl
  all_goals exact ⟨rfl, fun text isScalar => by cases isScalar <;> rfl⟩

end Sylar.Settings
