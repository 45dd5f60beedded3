import Sylar.Foundation.Simulation
import Sylar.Settings.Locking
import Sylar.Settings.Names

/-! # The registry while a program runs

A program keeps the pointers that `Lookup` has given it. Whatever is looked up, set and
loaded later, each of them stays the one variable of its name. Documents may be loaded
again, and documents about different variables in any order.
-/

namespace Sylar.Settings

open Foundation

variable {Kind : Type} {Val : Kind → Type}

/-! ## Variables that keep their place -/

namespace Config

def identity (object : ConfigVarBase Val) : Kind × Text × Text :=
  (object.1, object.2.name, object.2.description)

/-- The names are those of the registry before, and so are the variables but for their
values and callbacks. -/
structure SameRegistry (config next : Config Val) : Prop where
  datas : next.datas = config.datas
  objects : next.objects.map identity = config.objects.map identity

theorem SameRegistry.refl (config : Config Val) : config.SameRegistry config :=
  ⟨rfl, rfl⟩

theorem SameRegistry.trans {config middle next : Config Val}
    (first : config.SameRegistry middle) (second : middle.SameRegistry next) :
    config.SameRegistry next :=
  ⟨second.datas.trans first.datas, second.objects.trans first.objects⟩

theorem SameRegistry.lookUpBase {config next : Config Val} (same : config.SameRegistry next)
    (name : Text) : next.lookUpBase name = config.lookUpBase name := by
  rw [Config.lookUpBase, same.datas]
  rfl

theorem SameRegistry.identity {config next : Config Val} (same : config.SameRegistry next)
    (v : VarId) : next.objects[v]?.map Config.identity = config.objects[v]?.map Config.identity := by
  rw [← List.getElem?_map, same.objects, List.getElem?_map]

end Config

namespace ConfigVar

variable {T : Type}

theorem setVal_identity {var next : ConfigVar T} {val : T} (sets : var.setVal val = .ok next) :
    next.name = var.name ∧ next.description = var.description := by
  rw [setVal] at sets
  cases called : callAll var.val val var.callbacks.toList with
  | error exception =>
      rw [called] at sets
      cases sets
  | ok result =>
      rw [called] at sets
      cases sets
      exact ⟨rfl, rfl⟩

theorem fromString_identity (cast : LexicalCast T) (var : ConfigVar T) (text : Text) :
    (var.fromString cast text).1.name = var.name ∧
      (var.fromString cast text).1.description = var.description := by
  rw [fromString]
  split
  · rename_i next converted
    cases read : cast.ofText text with
    | error exception =>
        rw [read] at converted
        cases converted
    | ok val =>
        rw [read] at converted
        exact setVal_identity converted
  · exact ⟨rfl, rfl⟩

theorem addValChangeCB_identity (key : Nat) (var : ConfigVar T) (callback : Callback T) :
    (var.addValChangeCB key callback).1.name = var.name ∧
      (var.addValChangeCB key callback).1.description = var.description := by
  rw [addValChangeCB]
  split <;> exact ⟨rfl, rfl⟩

end ConfigVar

/-! ## Calls -/

/-- What a program does with the registry and with its pointers. A document sets one
variable after the other, and other threads may come in between, but for `Lookup`. -/
inductive Act (Val : Kind → Type)
  | use (v : VarId) (call : Use Val)
  | setVal (v : VarId) (kind : Kind) (val : Val kind)
  | fromString (v : VarId) (text : Text)
  | loadFromYaml (root : Node)

structure Handle (Kind : Type) where
  kind : Kind
  name : Text
  v : VarId

structure Handle.Valid (config : Config Val) (handle : Handle Kind) : Prop where
  found : config.lookUpBase handle.name = some handle.v
  typed : config.objects[handle.v]?.map Sigma.fst = some handle.kind

variable [DecidableEq Kind]

namespace Protected

/-- `setVal` of a pointer, which is one to a variable of its type. An exception leaves the
variable. -/
def setVal (data : Protected Val) (v : VarId) (kind : Kind) (val : Val kind) :
    Option (Protected Val) :=
  match data.config.objects[v]? with
  | some ⟨own, var⟩ =>
      if same : kind = own then
        match var.setVal (same ▸ val) with
        | .ok next => some (data.modify v fun _ => ⟨own, next⟩)
        | .error _ => some data
      else none
  | none => none

def step (yaml : Yaml) (casts : (kind : Kind) → LexicalCast (Val kind))
    (data : Protected Val) : Act Val → Option (Protected Val)
  | .use v call => some (data.use v call)
  | .setVal v kind val => data.setVal v kind val
  | .fromString v text => some { data with config := data.config.fromString casts v text }
  | .loadFromYaml root => some { data with config := data.config.loadFromYaml yaml casts root }

def returned (data : Protected Val) : Act Val → List (Handle Kind)
  | .use _ (.lookup kind name defaultVar description) =>
      match data.config.lookup kind name defaultVar description with
      | .ok (some v, _) => [{ kind := kind, name := name, v := v }]
      | .ok (none, _) | .error _ => []
  | .use .. | .setVal .. | .fromString .. | .loadFromYaml _ => []

/-- The calls of a program, with the pointers it has been given. -/
def program (yaml : Yaml) (casts : (kind : Kind) → LexicalCast (Val kind)) :
    Machine (Protected Val × List (Handle Kind)) (Act Val) :=
  Machine.observe { step := step yaml casts } returned

def new : Protected Val where
  config := Config.empty
  keys _ := 0

/-! ## What a call changes -/

variable {data next : Protected Val}

omit [DecidableEq Kind] in
theorem same_modify {v : VarId} {change : ConfigVarBase Val → ConfigVarBase Val}
    (keeps : ∀ object, data.config.objects[v]? = some object →
      Config.identity (change object) = Config.identity object) :
    data.config.SameRegistry (data.modify v change).config where
  datas := rfl
  objects := by
    apply List.ext_getElem?
    intro other
    rw [List.getElem?_map, List.getElem?_map, modify, List.getElem?_modify]
    cases isObject : data.config.objects[other]? with
    | none => rfl
    | some object =>
        by_cases here : v = other
        · subst here
          simpa using keeps object isObject
        · simp [here]

omit [DecidableEq Kind] in
theorem same_fromString (casts : (kind : Kind) → LexicalCast (Val kind)) (config : Config Val)
    (v : VarId) (text : Text) : config.SameRegistry (config.fromString casts v text) := by
  refine @same_modify _ _ ⟨config, fun _ => 0⟩ v _ fun object _ => ?_
  rcases object with ⟨kind, var⟩
  rcases ConfigVar.fromString_identity (casts kind) var text with ⟨name, description⟩
  exact congrArg₂ (fun name description => (kind, name, description)) name description

omit [DecidableEq Kind] in
theorem same_loadFromYaml (yaml : Yaml) (casts : (kind : Kind) → LexicalCast (Val kind))
    (config : Config Val) (root : Node) :
    config.SameRegistry (config.loadFromYaml yaml casts root) := by
  rw [Config.loadFromYaml, Config.loadWith_eq]
  generalize (Config.loadAllNumber [] root []).filterMap (Config.callFor yaml config) = calls
  suffices ∀ state, config.SameRegistry state → config.SameRegistry
      (calls.foldl (fun state call => Config.fromString casts state call.1 call.2) state) from
    this config (.refl config)
  induction calls with
  | nil => exact fun _ same => same
  | cons call calls induction =>
      exact fun state same => induction _ (same.trans (same_fromString casts state _ _))

theorem same_use {v : VarId} {call : Use Val}
    (notLookup : ∀ kind name defaultVar description,
      call ≠ .lookup kind name defaultVar description) :
    data.config.SameRegistry (data.use v call).config := by
  cases call with
  | getVal | toString => exact .refl _
  | addValChangeCB callback =>
      simp only [use]
      split
      · rename_i kind var isVar
        refine same_modify fun object isObject => ?_
        cases isVar.symm.trans isObject
        rcases var.addValChangeCB_identity (data.keys kind) (callback kind) with
          ⟨name, description⟩
        exact congrArg₂ (fun name description => (kind, name, description)) name description
      · exact .refl _
  | delValChangeCB key => exact same_modify fun object _ => rfl
  | clearValChangeCB => exact same_modify fun object _ => rfl
  | lookup kind name defaultVar description =>
      exact absurd rfl (notLookup kind name defaultVar description)

theorem same_setVal {v : VarId} {kind : Kind} {val : Val kind}
    (sets : data.setVal v kind val = some next) : data.config.SameRegistry next.config := by
  rw [setVal] at sets
  split at sets
  · rename_i own var isVar
    split at sets
    · rename_i same
      subst same
      split at sets
      · rename_i assigned isSet
        cases sets
        refine same_modify fun object isObject => ?_
        cases isVar.symm.trans isObject
        rcases ConfigVar.setVal_identity isSet with ⟨name, description⟩
        exact congrArg₂ (fun name description => (kind, name, description)) name description
      · cases sets
        exact .refl _
    · cases sets
  · cases sets

/-- A call keeps the variables, and a pointer that it returns was there, or it registers a
new variable and returns it. -/
theorem step_cases {yaml : Yaml} {casts : (kind : Kind) → LexicalCast (Val kind)}
    {act : Act Val} (stepped : data.step yaml casts act = some next) :
    (data.config.SameRegistry next.config ∧
      ∀ handle ∈ data.returned act, handle.Valid data.config) ∨
    ∃ kind name defaultVar description accepted,
      data.config.lookUpBase name = none ∧
      next.config =
        data.config.enter name accepted ⟨kind, .new name defaultVar description⟩ ∧
      data.returned act = [⟨kind, name, data.config.objects.length⟩] := by
  cases act with
  | setVal v kind val => exact Or.inl ⟨same_setVal stepped, by intro handle member; cases member⟩
  | fromString v text =>
      cases stepped
      exact Or.inl ⟨same_fromString casts _ v text, by intro handle member; cases member⟩
  | loadFromYaml root =>
      cases stepped
      exact Or.inl ⟨same_loadFromYaml yaml casts _ root, by intro handle member; cases member⟩
  | use v call =>
      cases stepped
      cases call with
      | getVal | toString | addValChangeCB | delValChangeCB | clearValChangeCB =>
          exact Or.inl ⟨same_use (by simp), by intro handle member; cases member⟩
      | lookup kind name defaultVar description =>
          rcases data.config.lookup_cases kind name defaultVar description with
            ⟨v, found, result⟩ | ⟨unregistered, accepted, result⟩ | ⟨-, -, result⟩
          · refine Or.inl ⟨by simp only [use, result]; exact .refl _, ?_⟩
            simp only [returned, result]
            intro handle member
            by_cases typed : data.config.objects[v]?.map Sigma.fst = some kind
            · simp only [Config.pointerCast, if_pos typed, List.mem_singleton] at member
              subst member
              exact ⟨found, typed⟩
            · simp [Config.pointerCast, if_neg typed] at member
          · refine Or.inr ⟨kind, name, defaultVar, description, accepted, unregistered, ?_, ?_⟩
            · simp only [use, result]
            · simp only [returned, result]
          · refine Or.inl ⟨by simp only [use, result]; exact .refl _, ?_⟩
            simp only [returned, result]
            intro handle member
            cases member

end Protected

/-! ## Names and variables -/

namespace Config

omit [DecidableEq Kind]

structure Registered (config : Config Val) : Prop where
  named : ∀ v, v < config.objects.length → ∃ name, config.lookUpBase name = some v
  unique : ∀ name other v, config.lookUpBase name = some v →
    config.lookUpBase other = some v → name = other
  own : ∀ name v object, config.lookUpBase name = some v → config.objects[v]? = some object →
    object.2.name = toLower name

theorem Registered.empty : (Config.empty : Config Val).Registered where
  named v below := absurd below (Nat.not_lt_zero v)
  unique name other v found := by cases found
  own name v object found := by cases found

variable {config next : Config Val}

theorem Registered.same (registered : config.Registered) (same : config.SameRegistry next) :
    next.Registered where
  named v below := by
    have length : next.objects.length = config.objects.length := by
      simpa using congrArg List.length same.objects
    rw [length] at below
    rcases registered.named v below with ⟨name, found⟩
    exact ⟨name, (same.lookUpBase name).trans found⟩
  unique name other v found foundToo := by
    rw [same.lookUpBase] at found foundToo
    exact registered.unique name other v found foundToo
  own name v object found isObject := by
    rw [same.lookUpBase] at found
    have kept := same.identity v
    rw [isObject] at kept
    rcases Option.map_eq_some_iff.mp kept.symm with ⟨before, isBefore, identical⟩
    rw [← registered.own name v before found isBefore]
    exact (congrArg (fun identity => identity.2.1) identical).symm

theorem lookUpBase_enter_cases {name sought : Text} {v : VarId} {object : ConfigVarBase Val}
    (accepted : findFirstOf name lookupChars ≠ none)
    (found : (config.enter name accepted object).lookUpBase sought = some v) :
    name = sought ∧ v = config.objects.length ∨
      config.lookUpBase sought = some v ∧ v < config.objects.length := by
  rw [lookUpBase_enter] at found
  split at found
  · exact Or.inl ⟨‹_›, (Option.some.inj found).symm⟩
  · exact Or.inr ⟨found, config.points _ (lookUpBase_eq_some_iff.mp found)⟩

theorem lookUpBase_enter_of_some {name sought : Text} {v : VarId} {object : ConfigVarBase Val}
    (accepted : findFirstOf name lookupChars ≠ none)
    (unregistered : config.lookUpBase name = none) (found : config.lookUpBase sought = some v) :
    (config.enter name accepted object).lookUpBase sought = some v := by
  rw [lookUpBase_enter, if_neg ?_, found]
  intro same
  rw [← same, unregistered] at found
  cases found

theorem Registered.enter (registered : config.Registered) {name : Text}
    (accepted : findFirstOf name lookupChars ≠ none)
    (unregistered : config.lookUpBase name = none) (kind : Kind) (defaultVar : Val kind)
    (description : Text) :
    (config.enter name accepted ⟨kind, .new name defaultVar description⟩).Registered where
  named v below := by
    have below : v < config.objects.length + 1 := by
      simpa [Config.enter] using below
    rcases Nat.lt_succ_iff_lt_or_eq.mp below with old | isNew
    · rcases registered.named v old with ⟨other, found⟩
      exact ⟨other, lookUpBase_enter_of_some accepted unregistered found⟩
    · exact ⟨name, by rw [lookUpBase_enter, if_pos rfl, isNew]⟩
  unique first second v found foundToo := by
    rcases lookUpBase_enter_cases accepted found with ⟨isName, isNew⟩ | ⟨old, below⟩
    · rcases lookUpBase_enter_cases accepted foundToo with ⟨isNameToo, -⟩ | ⟨-, below⟩
      · exact isName.symm.trans isNameToo
      · exact absurd isNew (Nat.ne_of_lt below)
    · rcases lookUpBase_enter_cases accepted foundToo with ⟨-, isNew⟩ | ⟨oldToo, -⟩
      · exact absurd isNew (Nat.ne_of_lt below)
      · exact registered.unique first second v old oldToo
  own sought v object found isObject := by
    rcases lookUpBase_enter_cases accepted found with ⟨isName, isNew⟩ | ⟨old, below⟩
    · subst isNew
      simp only [Config.enter, List.getElem?_concat_length, Option.some.injEq] at isObject
      rw [← isObject, ← isName]
      rfl
    · simp only [Config.enter, List.getElem?_append_left below] at isObject
      exact registered.own sought v object old isObject

end Config

/-! ## Pointers -/

namespace Handle.Valid

omit [DecidableEq Kind]

variable {config next : Config Val} {handle : Handle Kind}

theorem same (valid : handle.Valid config) (same : config.SameRegistry next) :
    handle.Valid next where
  found := (same.lookUpBase handle.name).trans valid.found
  typed := by
    have kept := congrArg (Option.map Prod.fst) (same.identity handle.v)
    rw [Option.map_map, Option.map_map] at kept
    exact kept.trans valid.typed

theorem enter (valid : handle.Valid config) {name : Text} {object : ConfigVarBase Val}
    (accepted : findFirstOf name Config.lookupChars ≠ none)
    (unregistered : config.lookUpBase name = none) :
    handle.Valid (config.enter name accepted object) where
  found := Config.lookUpBase_enter_of_some accepted unregistered valid.found
  typed := by
    have below := config.points _ (Config.lookUpBase_eq_some_iff.mp valid.found)
    simp only [Config.enter, List.getElem?_append_left below]
    exact valid.typed

end Handle.Valid

/-- What a program may rely on about the pointers that it has been given. -/
structure Reliable (config : Config Val) (handles : List (Handle Kind)) : Prop where
  /-- The same `Lookup`, with whatever default, returns the same pointer and changes
  nothing. -/
  again : ∀ handle ∈ handles, ∀ defaultVar description,
    config.lookup handle.kind handle.name defaultVar description = .ok (some handle.v, config)
  /-- A `Lookup` of the name for another type returns null and changes nothing. -/
  otherType : ∀ handle ∈ handles, ∀ kind, kind ≠ handle.kind → ∀ defaultVar description,
    config.lookup kind handle.name defaultVar description = .ok (none, config)
  /-- Two pointers are the same exactly if they are for the same name. -/
  same : ∀ handle ∈ handles, ∀ other ∈ handles, handle.v = other.v ↔ handle.name = other.name
  /-- The variable behind a pointer has the type of the pointer and calls itself by the
  name in lower case. -/
  behind : ∀ handle ∈ handles, ∃ var : ConfigVar (Val handle.kind),
    config.objects[handle.v]? = some ⟨handle.kind, var⟩ ∧ var.name = toLower handle.name
  /-- No variable is lost. -/
  reached : ∀ v, v < config.objects.length → ∃ name, config.lookUpBase name = some v

theorem Config.Registered.reliable {config : Config Val} (registered : config.Registered)
    {handles : List (Handle Kind)} (valid : ∀ handle ∈ handles, handle.Valid config) :
    Reliable config handles where
  again handle member defaultVar description := by
    simp only [Config.lookup, (valid handle member).found, Config.pointerCast,
      (valid handle member).typed, if_true]
  otherType handle member kind different defaultVar description := by
    have notTyped : ¬some handle.kind = some kind :=
      fun same => different (Option.some.inj same).symm
    simp only [Config.lookup, (valid handle member).found, Config.pointerCast,
      (valid handle member).typed, if_neg notTyped]
  same handle member other memberToo := by
    constructor
    · intro same
      refine registered.unique _ _ handle.v (valid handle member).found ?_
      rw [same]
      exact (valid other memberToo).found
    · intro same
      have found := (valid handle member).found
      rw [same] at found
      exact Option.some.inj (found.symm.trans (valid other memberToo).found)
  behind handle member := by
    rcases Option.map_eq_some_iff.mp (valid handle member).typed with
      ⟨⟨kind, var⟩, isObject, isKind⟩
    cases handle
    cases isKind
    exact ⟨var, isObject, registered.own _ _ _ (valid _ member).found isObject⟩
  reached := registered.named

/-- Whatever a program looks up, sets and loads, all pointers that it has been given stay
the ones of their names and types. -/
theorem reliable_always (yaml : Yaml) (casts : (kind : Kind) → LexicalCast (Val kind))
    (acts : List (Act Val)) :
    (Protected.program yaml casts).Always (fun seen => Reliable seen.1.config seen.2)
      (.new, []) acts := by
  apply Machine.always_of_invariant fun seen : Protected Val × List (Handle Kind) =>
    seen.1.config.Registered ∧ ∀ handle ∈ seen.2, handle.Valid seen.1.config
  · rintro ⟨data, handles⟩ act ⟨after, handlesAfter⟩ ⟨registered, valid⟩ stepped
    rcases Option.map_eq_some_iff.mp stepped with ⟨next, moved, isNext⟩
    cases isNext
    rcases Protected.step_cases moved with ⟨same, returns⟩ |
      ⟨kind, name, defaultVar, description, accepted, unregistered, entered, returns⟩
    · refine ⟨registered.same same, fun handle member => ?_⟩
      rcases List.mem_append.mp member with old | isNew
      · exact (valid handle old).same same
      · exact (returns handle isNew).same same
    · rw [entered]
      refine ⟨registered.enter accepted unregistered kind defaultVar description,
        fun handle member => ?_⟩
      rcases List.mem_append.mp member with old | isNew
      · exact (valid handle old).enter accepted unregistered
      · rw [returns, List.mem_singleton] at isNew
        subst isNew
        constructor
        · rw [Config.lookUpBase_enter, if_pos rfl]
        · simp [Config.enter]
  · rintro ⟨data, handles⟩ ⟨registered, valid⟩
    exact registered.reliable valid
  · exact ⟨.empty, fun handle member => absurd member List.not_mem_nil⟩

end Sylar.Settings
