import Sylar.Settings.LogDefiners

/-! # Malformed loggers in a configuration

Every entry of the sequence is read on its own, and so is every item of its appenders. An
entry without a name and an item without a known type leave nothing behind, and of the
entries with one name the first is kept.
-/

namespace Sylar.Settings

open Foundation Logging

/-! ## The members of a map -/

namespace Node

def value? (key : Text) : Node → Option Node
  | .map entries => (entries.find? fun entry => entry.1 = key).map Prod.snd
  | .null | .scalar _ | .sequence _ => none

def scalar? : Node → Option Text
  | .scalar text => some text
  | .null | .sequence _ | .map _ => none

def field (key : Text) (node : Node) : Option Text :=
  (node.value? key).bind scalar?

structure HasScalars (keys : List Text) (node : Node) : Prop where
  isMap : ∃ entries, node = .map entries
  scalars : ∀ key ∈ keys, ∀ value, node.value? key = some value → ∃ text, value = .scalar text

theorem mem_of_value? {key : Text} {value : Node} {entries : List (Text × Node)}
    (isValue : (Node.map entries).value? key = some value) : (key, value) ∈ entries := by
  rcases Option.map_eq_some_iff.mp isValue with ⟨entry, found, rfl⟩
  have isKey : entry.1 = key := by simpa using List.find?_some found
  exact isKey ▸ List.mem_of_find?_eq_some found

theorem HasScalars.of_entries {keys : List Text} {entries : List (Text × Node)}
    (scalars : ∀ entry ∈ entries, entry.1 ∈ keys → ∃ text, entry.2 = .scalar text) :
    (Node.map entries).HasScalars keys where
  isMap := ⟨entries, rfl⟩
  scalars := by
    intro key isKey value isValue
    exact scalars (key, value) (mem_of_value? isValue) isKey

theorem HasScalars.member {keys : List Text} {node : Node} (scalars : node.HasScalars keys)
    (key : Text) : Node.member key (some node) = .ok (node.value? key) := by
  rcases scalars.isMap with ⟨entries, rfl⟩
  rfl

theorem HasScalars.text? {keys : List Text} {node : Node} (scalars : node.HasScalars keys)
    (yaml : Yaml) (key : Text) (isKey : key ∈ keys) :
    Node.text? yaml key (some node) = .ok (node.field key) := by
  rw [Node.text?, scalars.member, field]
  cases value : node.value? key with
  | none => rfl
  | some member =>
      rcases scalars.scalars key isKey member value with ⟨text, rfl⟩
      rfl

end Node

/-! ## One appender -/

def appenderKeys : List Text :=
  ["type".toList, "formattor".toList, "file".toList, "level".toList]

def knownType (type : Text) : Option Int :=
  if type = "FileLogAppender".toList then some 2
  else if type = "StdoutLogAppender".toList then some 1
  else none

def appenderOf (item : Node) : Option LogAppenderDefiner :=
  ((item.field "type".toList).bind knownType).map fun type =>
    { type := type
      formattor := (item.field "formattor".toList).getD []
      file := (item.field "file".toList).getD []
      level := (item.field "level".toList).elim .UNKNOW Level.fromString }

theorem readAppender_eq (yaml : Yaml) {item : Node} (scalars : item.HasScalars appenderKeys) :
    readAppender yaml (some item) = .ok (appenderOf item) := by
  have type := scalars.text? yaml "type".toList (by simp [appenderKeys])
  have formattor := scalars.text? yaml "formattor".toList (by simp [appenderKeys])
  have file := scalars.text? yaml "file".toList (by simp [appenderKeys])
  have level := scalars.text? yaml "level".toList (by simp [appenderKeys])
  rw [readAppender, type, formattor, file, level, appenderOf]
  cases item.field "type".toList with
  | none => rfl
  | some type =>
      dsimp only [bind, Except.bind, pure, Except.pure]
      rw [Option.bind_some, knownType]
      by_cases isFile : type = "FileLogAppender".toList
      · rw [if_pos isFile, if_pos isFile]
        rfl
      · rw [if_neg isFile, if_neg isFile]
        by_cases isStdout : type = "StdoutLogAppender".toList
        · rw [if_pos isStdout, if_pos isStdout]
          rfl
        · rw [if_neg isStdout, if_neg isStdout]
          rfl

theorem readAppenders_eq (yaml : Yaml) {items : List Node}
    (scalars : ∀ item ∈ items, item.HasScalars appenderKeys) :
    readAppenders yaml (items.map some) = .ok (items.filterMap appenderOf) := by
  induction items with
  | nil => rfl
  | cons item rest induction =>
      rcases List.forall_mem_cons.mp scalars with ⟨first, others⟩
      rw [List.map_cons, readAppenders, readAppender_eq yaml first, induction others,
        List.filterMap_cons]
      cases appenderOf item <;> rfl

/-! ## One entry -/

def entryKeys : List Text :=
  ["name".toList, "level".toList, "formatter_".toList]

def appenderItems (node : Node) : List Node :=
  match node.value? "appenders".toList with
  | some (.sequence items) => items
  | _ => []

/-- A map of scalars with a sequence of maps of scalars as its appenders, where it has any. -/
structure LoggerEntry (node : Node) : Prop extends node.HasScalars entryKeys where
  appenders : ∀ value, node.value? "appenders".toList = some value →
    ∃ items, value = .sequence items ∧ ∀ item ∈ items, item.HasScalars appenderKeys

theorem LoggerEntry.of_entries {entries : List (Text × Node)}
    (scalars : ∀ entry ∈ entries, entry.1 ∈ entryKeys → ∃ text, entry.2 = .scalar text)
    (appenders : ∀ entry ∈ entries, entry.1 = "appenders".toList →
      ∃ items, entry.2 = .sequence items ∧ ∀ item ∈ items, item.HasScalars appenderKeys) :
    LoggerEntry (.map entries) where
  toHasScalars := Node.HasScalars.of_entries scalars
  appenders := by
    intro value isValue
    exact appenders _ (Node.mem_of_value? isValue) rfl

def definerOf (node : Node) : Option LogDefiner :=
  (node.field "name".toList).map fun name =>
    { name := name
      level := (node.field "level".toList).elim .UNKNOW Level.fromString
      appenders := (appenderItems node).filterMap appenderOf
      formatter := (node.field "formatter_".toList).getD [] }

theorem readDefiner_eq (yaml : Yaml) {node : Node} (entry : LoggerEntry node) :
    readDefiner yaml (some node) = .ok (definerOf node) := by
  have scalars := entry.toHasScalars
  have name := scalars.text? yaml "name".toList (by simp [entryKeys])
  have level := scalars.text? yaml "level".toList (by simp [entryKeys])
  have formatter := scalars.text? yaml "formatter_".toList (by simp [entryKeys])
  rw [readDefiner, name, level, formatter, scalars.member, definerOf, appenderItems]
  cases node.field "name".toList with
  | none => rfl
  | some name =>
      cases value : node.value? "appenders".toList with
      | none => rfl
      | some list =>
          rcases entry.appenders list value with ⟨items, rfl, itemScalars⟩
          have read := readAppenders_eq yaml itemScalars
          change (readAppenders yaml (items.map some) >>= _) = _
          rw [read]
          rfl

theorem readDefiners_eq (yaml : Yaml) {nodes : List Node}
    (entries : ∀ node ∈ nodes, LoggerEntry node) (logDefiners : LogDefiners) :
    readDefiners yaml (nodes.map some) logDefiners =
      .ok ((nodes.filterMap definerOf).foldl (fun set i => set.insert i) logDefiners) := by
  induction nodes generalizing logDefiners with
  | nil => rfl
  | cons node rest induction =>
      rcases List.forall_mem_cons.mp entries with ⟨first, others⟩
      rw [List.map_cons, readDefiners, readDefiner_eq yaml first, List.filterMap_cons]
      cases definerOf node with
      | none => exact induction others logDefiners
      | some logDefiner => exact induction others (logDefiners.insert logDefiner)

/-! ## The whole sequence -/

theorem name_definerOf {node : Node} {definer : LogDefiner}
    (isDefiner : definerOf node = some definer) :
    node.field "name".toList = some definer.name := by
  rcases Option.map_eq_some_iff.mp isDefiner with ⟨name, isName, rfl⟩
  exact isName

theorem find?_definerOf (nodes : List Node) (name : Text) :
    ((nodes.filterMap definerOf).find? fun definer => decide (definer.name = name)) =
      (nodes.find? fun node => decide (node.field "name".toList = some name)).bind
        definerOf := by
  induction nodes with
  | nil => rfl
  | cons node rest induction =>
      rw [List.filterMap_cons, List.find?_cons]
      cases isDefiner : definerOf node with
      | none =>
          have nameless : node.field "name".toList = none := Option.map_eq_none_iff.mp isDefiner
          rw [nameless]
          exact induction
      | some definer =>
          rw [List.find?_cons, name_definerOf isDefiner]
          by_cases isName : definer.name = name
          · simp [isName, isDefiner]
          · simpa [isName] using induction

def Named (node : Node) : Bool :=
  (node.field "name".toList).isSome

def HasKnownType (item : Node) : Bool :=
  ((item.field "type".toList).bind knownType).isSome

/-- The entries agree in their scalars and in the items of a known type. -/
structure SameEntry (node other : Node) : Prop where
  scalars : ∀ key ∈ entryKeys, node.field key = other.field key
  items : (appenderItems node).filter HasKnownType = (appenderItems other).filter HasKnownType

theorem filterMap_appenderOf (items : List Node) :
    (items.filter HasKnownType).filterMap appenderOf = items.filterMap appenderOf := by
  rw [List.filterMap_filter]
  apply List.filterMap_congr
  intro item _
  by_cases known : HasKnownType item
  · rw [if_pos known]
  · rw [if_neg known, appenderOf, Option.not_isSome_iff_eq_none.mp known]
    rfl

theorem SameEntry.definerOf_eq {node other : Node} (same : SameEntry node other) :
    definerOf node = definerOf other := by
  have name := same.scalars "name".toList (by simp [entryKeys])
  have level := same.scalars "level".toList (by simp [entryKeys])
  have formatter := same.scalars "formatter_".toList (by simp [entryKeys])
  have appenders := congrArg (List.filterMap appenderOf) same.items
  rw [filterMap_appenderOf, filterMap_appenderOf] at appenders
  rw [definerOf, definerOf, name, level, formatter, appenders]

theorem filterMap_definerOf_named (nodes : List Node) :
    (nodes.filter Named).filterMap definerOf = nodes.filterMap definerOf := by
  rw [List.filterMap_filter]
  apply List.filterMap_congr
  intro node _
  by_cases named : Named node
  · rw [if_pos named]
  · rw [if_neg named, definerOf, Option.not_isSome_iff_eq_none.mp named]
    rfl

theorem filterMap_definerOf_congr {nodes others : List Node}
    (same : List.Forall₂ SameEntry (nodes.filter Named) (others.filter Named)) :
    nodes.filterMap definerOf = others.filterMap definerOf := by
  rw [← filterMap_definerOf_named nodes, ← filterMap_definerOf_named others]
  generalize nodes.filter Named = named at same ⊢
  generalize others.filter Named = otherNamed at same ⊢
  induction same with
  | nil => rfl
  | cons first _ induction =>
      rw [List.filterMap_cons, List.filterMap_cons, first.definerOf_eq, induction]

theorem logDefiners_ofText {yaml : Yaml} {text : Text} {nodes : List Node}
    (loads : yaml.load text = .ok (.sequence nodes)) (entries : ∀ node ∈ nodes, LoggerEntry node) :
    (LexicalCast.logDefiners yaml).ofText text =
      .ok (Ordered.ofList LogDefiner.name (nodes.filterMap definerOf)) := by
  change (yaml.load text >>= fun node => readDefiners yaml (node.items yaml) ∅) = _
  rw [loads]
  exact readDefiners_eq yaml entries ∅

/-- For every name there is the definer of the first entry with that name, and what is
malformed may be there or not. -/
theorem logDefiners_ofText_isolated {yaml : Yaml} {text : Text} {nodes : List Node}
    (loads : yaml.load text = .ok (.sequence nodes)) (entries : ∀ node ∈ nodes, LoggerEntry node) :
    ∃ definers, (LexicalCast.logDefiners yaml).ofText text = .ok definers ∧
      (∀ name, definers.find? name =
        (nodes.find? fun node => decide (node.field "name".toList = some name)).bind
          definerOf) ∧
      ∀ other others, yaml.load other = .ok (.sequence others) →
        (∀ node ∈ others, LoggerEntry node) →
        List.Forall₂ SameEntry (nodes.filter Named) (others.filter Named) →
        (LexicalCast.logDefiners yaml).ofText other = .ok definers := by
  refine ⟨_, logDefiners_ofText loads entries, ?_, ?_⟩
  · intro name
    rw [Ordered.find?_ofList]
    convert find?_definerOf nodes name
  · intro other others otherLoads otherEntries same
    rw [logDefiners_ofText otherLoads otherEntries, filterMap_definerOf_congr same]

theorem logDefiners_ofText_isolated_mixed :
    let scalar (key value : String) : Text × Node := (key.toList, .scalar value.toList)
    let items : List Node :=
      [.map [scalar "type" "Console"], .map [scalar "type" "StdoutLogAppender"]]
    let nodes : List Node :=
      [.map [scalar "level" "INFO"],
        .map [scalar "name" "a", ("appenders".toList, .sequence items)],
        .map [scalar "name" "a", scalar "level" "INFO"]]
    let text := ("- level: INFO\n- name: a\n  appenders:\n    - type: Console\n" ++
      "    - type: StdoutLogAppender\n- name: a\n  level: INFO").toList
    let yaml := oneLogger (.sequence nodes) text
    ∃ definers, (LexicalCast.logDefiners yaml).ofText text = .ok definers ∧
      definers.find? ['a'] = some { name := ['a'], appenders := [{ type := 1 }] } := by
  intro scalar items nodes text yaml
  have loads : yaml.load text = .ok (.sequence nodes) := oneLogger_returns _ (.sequence nodes) text
  have itemScalars : ∀ item ∈ items, item.HasScalars appenderKeys := by
    intro item member
    rcases List.mem_pair.mp member with rfl | rfl
    all_goals
      apply Node.HasScalars.of_entries
      intro entry isEntry _
      exact ⟨_, congrArg Prod.snd (List.mem_singleton.mp isEntry)⟩
  have bare (key value : String) (other : key.toList ≠ "appenders".toList) :
      ∀ entry ∈ [scalar key value], entry.1 = "appenders".toList →
        ∃ items, entry.2 = .sequence items ∧ ∀ item ∈ items, item.HasScalars appenderKeys := by
    intro entry isEntry isAppenders
    rw [List.mem_singleton.mp isEntry] at isAppenders
    exact absurd isAppenders other
  have entries : ∀ node ∈ nodes, LoggerEntry node := by
    intro node member
    rcases List.mem_cons.mp member with rfl | member
    · apply LoggerEntry.of_entries
      · intro entry isEntry _
        exact ⟨_, congrArg Prod.snd (List.mem_singleton.mp isEntry)⟩
      · exact bare "level" "INFO" (by decide)
    rcases List.mem_pair.mp member with rfl | rfl
    · apply LoggerEntry.of_entries
      · intro entry isEntry isKey
        rcases List.mem_pair.mp isEntry with rfl | rfl
        · exact ⟨_, rfl⟩
        · exact absurd isKey (by decide)
      · intro entry isEntry isAppenders
        rcases List.mem_pair.mp isEntry with rfl | rfl
        · exact absurd isAppenders (by decide)
        · exact ⟨items, rfl, itemScalars⟩
    · apply LoggerEntry.of_entries
      · intro entry isEntry _
        rcases List.mem_pair.mp isEntry with rfl | rfl <;> exact ⟨_, rfl⟩
      · intro entry isEntry isAppenders
        rcases List.mem_pair.mp isEntry with rfl | rfl <;>
          exact absurd isAppenders (by decide)
  rcases logDefiners_ofText_isolated loads entries with ⟨definers, read, first, -⟩
  exact ⟨definers, read, (first ['a']).trans (by decide)⟩

end Sylar.Settings
