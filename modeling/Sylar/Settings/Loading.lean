import Sylar.Settings.Config

/-! # What loading a document does

`LoadAllNumber` visits the nodes of a document in pre-order and leaves out what lies
below an invalid key. From that follow the calls of `LoadFromYaml` and what they leave of
every variable.
-/

namespace Sylar.Settings

open Foundation

/-! ## The nodes of a document -/

namespace Node

mutual

/-- The nodes that are reached through maps, in the order of the document, with the keys
on the way to each. -/
def walk (node : Node) : List (List Text × Node) :=
  ([], node) ::
    match node with
    | .map entries => walkEntries entries
    | _ => []

def walkEntries (entries : List (Text × Node)) : List (List Text × Node) :=
  match entries with
  | [] => []
  | (key, child) :: rest =>
      (child.walk.map fun reached => (key :: reached.1, reached.2)) ++ walkEntries rest

end

end Node

namespace Config

/-- The path has characters that `LoadAllNumber` allows, and no others. -/
def Loadable (path : Text) : Prop :=
  ∀ c ∈ path, c ∈ loaderChars

instance (path : Text) : Decidable (Loadable path) :=
  List.decidableBAll (fun c => c ∈ loaderChars) path

theorem findFirstNotOf_eq_none_iff {path : Text} :
    findFirstNotOf path loaderChars = none ↔ Loadable path := by
  simp [findFirstNotOf, Loadable, List.findIdx?_eq_none_iff]

theorem Loadable.append_iff {left right : Text} :
    Loadable (left ++ right) ↔ Loadable left ∧ Loadable right :=
  List.forall_mem_append

theorem Loadable.of_memberPath {path key : Text} (loadable : Loadable (memberPath path key)) :
    Loadable path := by
  by_cases isRoot : path = []
  · rw [isRoot]
    exact fun _ member => absurd member List.not_mem_nil
  · rw [memberPath, if_neg isRoot] at loadable
    exact (Loadable.append_iff.mp loadable).1

theorem Loadable.of_foldl {path : Text} {keys : List Text}
    (loadable : Loadable (keys.foldl memberPath path)) : Loadable path := by
  induction keys generalizing path with
  | nil => exact loadable
  | cons key rest induction => exact (induction loadable).of_memberPath

theorem Loadable.toLower_eq {path : Text} (loadable : Loadable path) : toLower path = path := by
  have lower : loaderChars.all (fun c => decide (Char.toLower c = c)) = true := by decide
  have same : path.map Char.toLower = path.map id := List.map_congr_left fun c member =>
    of_decide_eq_true (List.all_eq_true.mp lower c (loadable c member))
  exact same.trans (List.map_id _)

/-! ## `LoadAllNumber` -/

def numbered (path : Text) (reached : List Text × Node) : Text × Node :=
  (reached.1.foldl memberPath path, reached.2)

def numbers (path : Text) (reached : List (List Text × Node)) : List (Text × Node) :=
  (reached.map (numbered path)).filter fun i => decide (Loadable i.1)

theorem numbers_append (path : Text) (left right : List (List Text × Node)) :
    numbers path (left ++ right) = numbers path left ++ numbers path right := by
  simp [numbers]

theorem numbers_map_cons (path key : Text) (reached : List (List Text × Node)) :
    numbers path (reached.map fun reached => (key :: reached.1, reached.2)) =
      numbers (memberPath path key) reached := by
  rw [numbers, List.map_map]
  rfl

theorem numbers_cons {path : Text} (loadable : Loadable path) (node : Node)
    (reached : List (List Text × Node)) :
    numbers path (([], node) :: reached) = (path, node) :: numbers path reached := by
  simp [numbers, numbered, loadable]

theorem numbers_eq_nil {path : Text} (invalid : ¬Loadable path)
    (reached : List (List Text × Node)) : numbers path reached = [] := by
  refine List.filter_eq_nil_iff.mpr ?_
  intro i member
  rcases List.mem_map.mp member with ⟨node, -, rfl⟩
  exact fun loadable => invalid (Loadable.of_foldl (of_decide_eq_true loadable))

mutual

theorem loadAllNumber_eq (path : Text) (node : Node) (output : List (Text × Node)) :
    loadAllNumber path node output = output ++ numbers path node.walk := by
  unfold loadAllNumber
  by_cases loadable : Loadable path
  · have noInvalid := findFirstNotOf_eq_none_iff.mpr loadable
    rw [if_neg (not_not.mpr noInvalid)]
    cases node with
    | map entries =>
        change loadEntries path entries (output ++ [(path, .map entries)]) = _
        rw [loadEntries_eq path entries, Node.walk, numbers_cons loadable,
          List.append_assoc]
        rfl
    | null | scalar | sequence =>
        rw [Node.walk, numbers_cons loadable]
        · rfl
        · intro entries isMap
          cases isMap
  · have invalid : findFirstNotOf path loaderChars ≠ none :=
      fun noInvalid => loadable (findFirstNotOf_eq_none_iff.mp noInvalid)
    rw [if_pos invalid, numbers_eq_nil loadable, List.append_nil]

theorem loadEntries_eq (path : Text) (entries : List (Text × Node))
    (output : List (Text × Node)) :
    loadEntries path entries output = output ++ numbers path (Node.walkEntries entries) := by
  match entries with
  | [] => simp [loadEntries, Node.walkEntries, numbers]
  | (key, child) :: rest =>
      rw [loadEntries, loadEntries_eq path rest,
        loadAllNumber_eq (memberPath path key) child, Node.walkEntries, numbers_append,
        numbers_map_cons, List.append_assoc]

end

/-- The invalid key takes its own subtree away. -/
example :
    (loadAllNumber [] (.map [(['a'], .map [(['B'], .map [(['c'], .null)]), (['d'], .null)])])
      []).map Prod.fst = [[], ['a'], "a.d".toList] := by
  decide

/-! ## Dotted paths -/

def KeysNonempty (root : Node) : Prop :=
  ∀ reached ∈ root.walk, ∀ key ∈ reached.1, key ≠ []

theorem intercalate_cons_cons (key next : Text) (rest : List Text) :
    ['.'].intercalate (key :: next :: rest) = key ++ '.' :: ['.'].intercalate (next :: rest) := by
  simp [List.intercalate]

theorem foldl_memberPath {keys : List Text} (nonempty : ∀ key ∈ keys, key ≠ []) :
    keys.foldl memberPath [] = ['.'].intercalate keys := by
  have from_ : ∀ (rest : List Text) {path : Text}, path ≠ [] →
      rest.foldl memberPath path = ['.'].intercalate (path :: rest) := by
    intro rest
    induction rest with
    | nil =>
        intro path _
        simp [List.intercalate]
    | cons key rest induction =>
        intro path notRoot
        have extended : path ++ '.' :: key ≠ [] := by simp
        rw [List.foldl_cons, memberPath, if_neg notRoot, induction extended,
          intercalate_cons_cons]
        cases rest with
        | nil => simp [List.intercalate]
        | cons next rest =>
            rw [intercalate_cons_cons, intercalate_cons_cons, List.append_assoc]
            rfl
  cases keys with
  | nil => rfl
  | cons key rest => exact from_ rest (nonempty key List.mem_cons_self)

theorem loadable_intercalate_iff {keys : List Text} :
    Loadable (['.'].intercalate keys) ↔ ∀ key ∈ keys, Loadable key := by
  have dot : '.' ∈ loaderChars := by decide
  induction keys with
  | nil => simp [List.intercalate, Loadable]
  | cons key rest induction =>
      cases rest with
      | nil => simp [List.intercalate]
      | cons next rest =>
          have later : Loadable ('.' :: ['.'].intercalate (next :: rest)) ↔
              ∀ key ∈ next :: rest, Loadable key :=
            (List.forall_mem_cons.trans (and_iff_right dot)).trans induction
          rw [intercalate_cons_cons, Loadable.append_iff, List.forall_mem_cons, later]

/-! ## `LoadFromYaml` -/

variable {Kind : Type} {Val : Kind → Type}

def callFor (yaml : Yaml) (config : Config Val) (i : Text × Node) : Option (VarId × Text) :=
  if i.1 = [] then none
  else (config.lookUpBase (toLower i.1)).map fun val => (val, textOf yaml i.2)

theorem loadWith_eq {State : Type} (yaml : Yaml) (config : Config Val)
    (fromString : State → VarId → Text → State) (root : Node) (state : State) :
    loadWith yaml config fromString root state =
      ((loadAllNumber [] root []).filterMap (callFor yaml config)).foldl
        (fun state call => fromString state call.1 call.2) state := by
  rw [loadWith, List.foldl_filterMap]
  congr
  funext state i
  rw [loadNumber, callFor]
  split
  · rfl
  · cases config.lookUpBase (toLower i.1) <;> rfl

/-- For each node whose path is the name of a variable, that variable with the text of the
node. -/
def calls (yaml : Yaml) (config : Config Val) (root : Node) : List (VarId × Text) :=
  root.walk.filterMap fun reached =>
    let path := ['.'].intercalate reached.1
    if Loadable path then
      (config.lookUpBase path).map fun val => (val, textOf yaml reached.2)
    else none

theorem lookUpBase_nil (config : Config Val) : config.lookUpBase [] = none := by
  rw [lookUpBase, Option.map_eq_none_iff, Ordered.find?_eq_none_iff]
  exact config.named

theorem filterMap_callFor (yaml : Yaml) (config : Config Val) {root : Node}
    (nonempty : KeysNonempty root) :
    (loadAllNumber [] root []).filterMap (callFor yaml config) = config.calls yaml root := by
  rw [loadAllNumber_eq, List.nil_append, numbers, List.filterMap_filter, List.filterMap_map,
    calls]
  refine List.filterMap_congr ?_
  intro reached member
  have path : numbered [] reached = (['.'].intercalate reached.1, reached.2) :=
    congrArg (·, reached.2) (foldl_memberPath (nonempty reached member))
  rw [Function.comp_apply, path]
  by_cases loadable : Loadable (['.'].intercalate reached.1)
  · rw [if_pos (decide_eq_true loadable), if_pos loadable, callFor, loadable.toLower_eq]
    by_cases isRoot : ['.'].intercalate reached.1 = []
    · rw [if_pos isRoot, isRoot, lookUpBase_nil]
      rfl
    · rw [if_neg isRoot]
  · rw [if_neg (fun isTrue => loadable (of_decide_eq_true isTrue)), if_neg loadable]

def textsFor (v : VarId) (calls : List (VarId × Text)) : List Text :=
  calls.filterMap fun call => if call.1 = v then some call.2 else none

variable (casts : (kind : Kind) → LexicalCast (Val kind))

theorem objects_foldl (config : Config Val) (calls : List (VarId × Text)) (v : VarId) :
    (calls.foldl (fun config call => fromString casts config call.1 call.2)
        config).objects[v]? =
      config.objects[v]?.map fun object =>
        (textsFor v calls).foldl (fun object text => (object.fromString casts text).1)
          object := by
  induction calls generalizing config with
  | nil => simp [textsFor]
  | cons call rest induction =>
      rw [List.foldl_cons, induction, fromString]
      by_cases isCalled : call.1 = v
      · simp only [textsFor, List.filterMap_cons, isCalled, if_true, List.foldl_cons,
          List.getElem?_modify_eq]
        exact Option.map_map _ _ _
      · simp only [textsFor, List.filterMap_cons, isCalled, if_false,
          List.getElem?_modify_ne _ _ isCalled]

theorem datas_foldl (config : Config Val) (calls : List (VarId × Text)) :
    (calls.foldl (fun config call => fromString casts config call.1 call.2)
      config).datas = config.datas := by
  induction calls generalizing config with
  | nil => rfl
  | cons call rest induction => exact induction (fromString casts config call.1 call.2)

end Config

/-! ### What becomes of the values -/

namespace ConfigVar

variable {T : Type}

def Quiet (var : ConfigVar T) : Prop :=
  ∀ callback ∈ var.callbacks.toList, ∀ oldVal newVal, callback.2 oldVal newVal = .ok ()

theorem fromString_eq (cast : LexicalCast T) {var : ConfigVar T} (quiet : var.Quiet)
    (text : Text) :
    (var.fromString cast text).1 =
      { var with val := (cast.ofText text).toOption.getD var.val } := by
  cases converted : cast.ofText text with
  | error exception =>
      have fails : (cast.ofText text >>= var.setVal) = .error exception := by
        rw [converted]
        rfl
      rw [fromString, fails]
      rfl
  | ok val =>
      have called : callAll var.val val var.callbacks.toList = .ok () :=
        callAll_eq_ok_iff.mpr fun callback member => quiet callback member var.val val
      have sets : (cast.ofText text >>= var.setVal) = .ok { var with val := val } := by
        rw [converted]
        change var.setVal val = _
        rw [setVal, called]
        rfl
      rw [fromString, sets]
      rfl

theorem foldl_fromString {Kind : Type} {Val : Kind → Type}
    (casts : (kind : Kind) → LexicalCast (Val kind)) {kind : Kind} {var : ConfigVar (Val kind)}
    (quiet : var.Quiet) (texts : List Text) :
    texts.foldl (fun object text => (ConfigVarBase.fromString casts object text).1)
        (⟨kind, var⟩ : ConfigVarBase Val) =
      ⟨kind, { var with
        val := texts.foldl
          (fun val text => ((casts kind).ofText text).toOption.getD val) var.val }⟩ := by
  induction texts generalizing var with
  | nil => rfl
  | cons text rest induction =>
      have next := fromString_eq (casts kind) quiet text
      rw [List.foldl_cons, ConfigVarBase.fromString, next]
      exact induction quiet

end ConfigVar

namespace Config

variable {Kind : Type} {Val : Kind → Type}

structure LoadsAs (yaml : Yaml) (casts : (kind : Kind) → LexicalCast (Val kind))
    (config : Config Val) (root : Node) : Prop where
  /-- The numbers are the nodes with valid paths, in the order of the document. -/
  numbers : ∀ output, loadAllNumber [] root output =
    output ++ (root.walk.map fun reached => (['.'].intercalate reached.1, reached.2)).filter
      fun i => decide (Loadable i.1)
  /-- A path is valid if the keys on it are. -/
  valid : ∀ reached ∈ root.walk,
    Loadable (['.'].intercalate reached.1) ↔ ∀ key ∈ reached.1, Loadable key
  /-- Whatever `fromString` does, it is called for these variables with these texts. -/
  called : ∀ {State : Type} (fromString : State → VarId → Text → State) (state : State),
    loadWith yaml config fromString root state =
      (config.calls yaml root).foldl (fun state call => fromString state call.1 call.2) state
  /-- The names stay. -/
  datas : (config.loadFromYaml yaml casts root).datas = config.datas
  /-- A variable gets its own texts, whatever becomes of the others. -/
  objects : ∀ v : VarId, (config.loadFromYaml yaml casts root).objects[v]? =
    config.objects[v]?.map fun object =>
      (textsFor v (config.calls yaml root)).foldl
        (fun object text => (object.fromString casts text).1) object
  /-- A variable that is not named stays as it is. -/
  unnamed : ∀ v : VarId, (∀ call ∈ config.calls yaml root, call.1 ≠ v) →
    (config.loadFromYaml yaml casts root).objects[v]? = config.objects[v]?
  /-- If no callback throws, the last text that converts is the value. -/
  values : ∀ (v : VarId) (kind : Kind) (var : ConfigVar (Val kind)), var.Quiet →
    config.objects[v]? = some ⟨kind, var⟩ →
      (config.loadFromYaml yaml casts root).objects[v]? =
        some ⟨kind, { var with
          val := (textsFor v (config.calls yaml root)).foldl
            (fun val text => ((casts kind).ofText text).toOption.getD val) var.val }⟩

theorem loadsAs (yaml : Yaml) (casts : (kind : Kind) → LexicalCast (Val kind))
    (config : Config Val) {root : Node} (nonempty : KeysNonempty root) :
    LoadsAs yaml casts config root := by
  have called : ∀ {State : Type} (fromString : State → VarId → Text → State) (state : State),
      loadWith yaml config fromString root state = (config.calls yaml root).foldl
        (fun state call => fromString state call.1 call.2) state := by
    intro State fromString state
    rw [loadWith_eq, filterMap_callFor yaml config nonempty]
  have objects : ∀ v : VarId, (config.loadFromYaml yaml casts root).objects[v]? =
      config.objects[v]?.map fun object =>
        (textsFor v (config.calls yaml root)).foldl
          (fun object text => (object.fromString casts text).1) object := by
    intro v
    rw [loadFromYaml, called, objects_foldl]
  have paths : root.walk.map (numbered []) =
      root.walk.map fun reached => (['.'].intercalate reached.1, reached.2) :=
    List.map_congr_left fun reached member =>
      congrArg (·, reached.2) (foldl_memberPath (nonempty reached member))
  exact
    { numbers := by
        intro output
        rw [loadAllNumber_eq, Config.numbers, paths]
      valid := fun _ _ => loadable_intercalate_iff
      called := called
      datas := by
        rw [loadFromYaml, called, datas_foldl]
      objects := objects
      unnamed := by
        intro v others
        have noTexts : textsFor v (config.calls yaml root) = [] := by
          refine List.filterMap_eq_nil_iff.mpr ?_
          intro call member
          exact if_neg (others call member)
        rw [objects, noTexts]
        exact Option.map_id'
      values := by
        intro v kind var quiet isVar
        rw [objects, isVar, Option.map_some, ConfigVar.foldl_fromString casts quiet] }

theorem loadsAs_nested :
    let casts : Unit → LexicalCast Text := fun _ => { toText := .ok, ofText := .ok }
    let yaml : Yaml :=
      { load := fun text => .ok (.scalar text)
        dump := fun _ => "a:\n  b: x".toList
        index := fun text => (String.ofList text).toNat?
        nullText := .ok "null".toList }
    let config : Config fun _ : Unit => Text :=
      Config.empty.enter "a.b".toList (by decide) ⟨(), .new "a.b".toList [] []⟩
    LoadsAs yaml casts config
      (.map [("a".toList, .map [("b".toList, .scalar "x".toList)])]) := by
  intro casts yaml config
  refine loadsAs yaml casts config ?_
  unfold KeysNonempty
  decide

end Config

end Sylar.Settings
