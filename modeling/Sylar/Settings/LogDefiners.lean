import Sylar.Logging.Loginit
import Sylar.Settings.LexicalCast

/-! # The casts of the logger configuration

A `std::set<LogDefiner>` is written as a sequence of maps and read from one. The two
casts are written by hand and name the members of the maps on their own.
-/

namespace Sylar.Settings

open Foundation Logging

/-! ## Casting to text -/

def apnode (ap : LogAppenderDefiner) : Node :=
  .map <|
    (if ap.formattor = [] then [] else [("formattor".toList, .scalar ap.formattor)]) ++
    (if ap.file = [] then [] else [("file".toList, .scalar ap.file)]) ++
    [("level".toList, .scalar ap.level.toText)] ++
    if ap.type = 1 then [("type".toList, .scalar "StdoutLogAppender".toList)]
    else if ap.type = 2 then [("type".toList, .scalar "FileLogAppender".toList)]
    else []

def definerNode (i : LogDefiner) : Node :=
  .map <|
    [("name".toList, .scalar i.name), ("level".toList, .scalar i.level.toText)] ++
    (if i.formatter = [] then [] else [("formatter_".toList, .scalar i.formatter)]) ++
    if i.appenders = [] then []
    else [("appenders_".toList, .sequence (i.appenders.map apnode))]

def definersRoot (val : LogDefiners) : Node :=
  .ofItems (val.toList.map definerNode)

/-! ## Casting from text -/

def Node.text? (yaml : Yaml) (key : Text) (node : Option Node) :
    Except Exception (Option Text) := do
  match ← Node.member key node with
  | none => pure none
  | some value => do
      let text ← value.asString yaml
      pure (some text)

def readAppender (yaml : Yaml) (value : Option Node) :
    Except Exception (Option LogAppenderDefiner) := do
  let fill (type : Int) : Except Exception (Option LogAppenderDefiner) := do
    let formattor ← Node.text? yaml "formattor".toList value
    let file ← Node.text? yaml "file".toList value
    let level ← Node.text? yaml "level".toList value
    pure <| some
      { type := type
        formattor := formattor.getD []
        file := file.getD []
        level := level.elim .UNKNOW Level.fromString }
  match ← Node.text? yaml "type".toList value with
  | none => pure none
  | some type =>
      if type = "FileLogAppender".toList then fill 2
      else if type = "StdoutLogAppender".toList then fill 1
      else pure none

def readAppenders (yaml : Yaml) :
    List (Option Node) → Except Exception (List LogAppenderDefiner)
  | [] => .ok []
  | value :: rest => do
      let appender ← readAppender yaml value
      let appenders ← readAppenders yaml rest
      pure (appender.toList ++ appenders)

def readDefiner (yaml : Yaml) (node : Option Node) : Except Exception (Option LogDefiner) := do
  match ← Node.text? yaml "name".toList node with
  | none => pure none
  | some name => do
      let level ← Node.text? yaml "level".toList node
      let formatter ← Node.text? yaml "formatter_".toList node
      let appenders ← match ← Node.member "appenders".toList node with
        | none => pure []
        | some list => readAppenders yaml (list.items yaml)
      pure <| some
        { name := name
          level := level.elim .UNKNOW Level.fromString
          appenders := appenders
          formatter := formatter.getD [] }

def readDefiners (yaml : Yaml) : List (Option Node) → LogDefiners → Except Exception LogDefiners
  | [], logDefiners => .ok logDefiners
  | node :: rest, logDefiners => do
      match ← readDefiner yaml node with
      | none => readDefiners yaml rest logDefiners
      | some logDefiner => readDefiners yaml rest (logDefiners.insert logDefiner)

def LexicalCast.logDefiners (yaml : Yaml) : LexicalCast LogDefiners where
  toText val := .ok (yaml.dump (definersRoot val))
  ofText val := do
    let node ← yaml.load val
    readDefiners yaml (node.items yaml) ∅

/-! ## Casting to text and back -/

def withoutAppenders (i : LogDefiner) : LogDefiner :=
  { i with appenders := [] }

theorem fromString_toText {level : Level} (supported : level ≠ .delFlag) :
    Level.fromString level.toText = level := by
  cases level with
  | delFlag => exact absurd rfl supported
  | _ => decide

theorem readDefiner_definerNode (yaml : Yaml) {i : LogDefiner}
    (supported : i.level ≠ .delFlag) :
    readDefiner yaml (some (definerNode i)) = .ok (some (withoutAppenders i)) := by
  have name : Node.text? yaml "name".toList (some (definerNode i)) = .ok (some i.name) := rfl
  have level : Node.text? yaml "level".toList (some (definerNode i)) =
      .ok (some i.level.toText) := rfl
  have formatter : Node.text? yaml "formatter_".toList (some (definerNode i)) =
      .ok (if i.formatter = [] then none else some i.formatter) := by
    by_cases noFormatter : i.formatter = [] <;> by_cases noAppenders : i.appenders = [] <;>
      simp only [definerNode, noFormatter, noAppenders, if_true, if_false] <;> rfl
  have appenders : Node.member "appenders".toList (some (definerNode i)) = .ok none := by
    by_cases noFormatter : i.formatter = [] <;> by_cases noAppenders : i.appenders = [] <;>
      simp only [definerNode, noFormatter, noAppenders, if_true, if_false] <;> rfl
  have kept : (if i.formatter = [] then none else some i.formatter).getD [] = i.formatter := by
    by_cases noFormatter : i.formatter = [] <;> simp [noFormatter]
  simp only [readDefiner, name, level, formatter, appenders]
  change Except.ok (some { i with
    level := Level.fromString i.level.toText, appenders := [], formatter := _ }) = _
  rw [fromString_toText supported, kept]
  rfl

theorem readDefiners_definerNode (yaml : Yaml) {is : List LogDefiner}
    (supported : ∀ i ∈ is, i.level ≠ .delFlag) (logDefiners : LogDefiners) :
    readDefiners yaml ((is.map definerNode).map some) logDefiners =
      .ok ((is.map withoutAppenders).foldl (fun set i => set.insert i) logDefiners) := by
  induction is generalizing logDefiners with
  | nil => rfl
  | cons i rest induction =>
      rw [List.map_cons, List.map_cons, readDefiners,
        readDefiner_definerNode yaml (supported i List.mem_cons_self)]
      exact induction (fun i member => supported i (List.mem_cons_of_mem _ member)) _

theorem ascending_withoutAppenders (val : LogDefiners) :
    (val.toList.map withoutAppenders).Pairwise fun left right => left.name < right.name :=
  List.pairwise_map.mpr val.ascending

theorem logDefiners_ofText_toText {yaml : Yaml} {val : LogDefiners}
    (supported : ∀ i ∈ val, i.level ≠ .delFlag)
    (returns : yaml.load (yaml.dump (definersRoot val)) = .ok (definersRoot val)) :
    ((LexicalCast.logDefiners yaml).toText val >>= (LexicalCast.logDefiners yaml).ofText) =
      .ok ⟨val.toList.map withoutAppenders, ascending_withoutAppenders val⟩ := by
  change (yaml.load (yaml.dump (definersRoot val)) >>= _) = _
  rw [returns]
  change readDefiners yaml ((Node.ofItems _).items yaml) ∅ = _
  rw [Node.items_ofItems, readDefiners_definerNode yaml supported]
  exact congrArg Except.ok
    (Ordered.ofList_toList ⟨val.toList.map withoutAppenders, ascending_withoutAppenders val⟩)

/-- A set of definers comes back exactly if no definer has an appender. -/
theorem logDefiners_returned_iff {yaml : Yaml} {val : LogDefiners}
    (supported : ∀ i ∈ val, i.level ≠ .delFlag)
    (returns : yaml.load (yaml.dump (definersRoot val)) = .ok (definersRoot val)) :
    ((LexicalCast.logDefiners yaml).toText val >>= (LexicalCast.logDefiners yaml).ofText) =
        .ok val ↔
      ∀ i ∈ val, i.appenders = [] := by
  rw [logDefiners_ofText_toText supported returns]
  constructor
  · intro same i member
    have lists : val.toList.map withoutAppenders = val.toList :=
      congrArg Ordered.toList (Except.ok.inj same)
    rw [← Ordered.mem_toList, ← lists] at member
    rcases List.mem_map.mp member with ⟨written, -, rfl⟩
    rfl
  · intro none
    have kept : ∀ i ∈ val.toList, withoutAppenders i = id i := by
      intro i member
      rw [withoutAppenders, ← none i member]
      rfl
    refine congrArg Except.ok (Ordered.ext ?_)
    exact (List.map_congr_left kept).trans (List.map_id _)

def oneLogger (root : Node) (text : Text) : Yaml where
  load val := if val = text then .ok root else .error .parserException
  dump _ := text
  index val := (String.ofList val).toNat?
  nullText := .ok "null".toList

theorem oneLogger_returns (root node : Node) (text : Text) :
    (oneLogger root text).load ((oneLogger root text).dump node) = .ok root := by
  simp [oneLogger]

theorem logDefiners_returned_iff_bare :
    let val : LogDefiners := Ordered.ofList _ [{ name := ['a'], level := .INFO }]
    let yaml := oneLogger (definersRoot val) "- name: a\n  level: INFO".toList
    ((LexicalCast.logDefiners yaml).toText val >>= (LexicalCast.logDefiners yaml).ofText) =
      .ok val := by
  intro val yaml
  have supported : ∀ i ∈ val, i.level ≠ .delFlag := by
    intro i member
    rw [List.mem_singleton.mp member]
    decide
  refine (logDefiners_returned_iff supported (oneLogger_returns _ _ _)).mpr ?_
  intro i member
  rw [List.mem_singleton.mp member]

/-- A logger that writes to the standard output. -/
theorem logDefiners_returned_iff_fails :
    let appender : LogAppenderDefiner := { type := 1, level := .DEBUG }
    let val : LogDefiners :=
      Ordered.ofList _ [{ name := ['a'], level := .INFO, appenders := [appender] }]
    let yaml := oneLogger (definersRoot val)
      ("- name: a\n  level: INFO\n  appenders_:\n" ++
        "    - level: DEBUG\n      type: StdoutLogAppender").toList
    yaml.load (yaml.dump (definersRoot val)) = .ok (definersRoot val) ∧
      ((LexicalCast.logDefiners yaml).toText val >>= (LexicalCast.logDefiners yaml).ofText) ≠
        .ok val := by
  intro appender val yaml
  have returns := oneLogger_returns (definersRoot val) (definersRoot val)
    ("- name: a\n  level: INFO\n  appenders_:\n" ++
      "    - level: DEBUG\n      type: StdoutLogAppender").toList
  have supported : ∀ i ∈ val, i.level ≠ .delFlag := by
    intro i member
    rw [List.mem_singleton.mp member]
    decide
  refine ⟨returns, fun same => ?_⟩
  rw [logDefiners_ofText_toText supported returns] at same
  have lists := congrArg Ordered.toList (Except.ok.inj same)
  exact absurd lists (by decide)

end Sylar.Settings
