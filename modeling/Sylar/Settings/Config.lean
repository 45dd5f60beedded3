import Sylar.Foundation.Machine
import Sylar.Settings.LexicalCast

/-! # Configuration variables and their registry

`Config` maps names to variables of different types. `Lookup` finds a variable or
registers a new one, and `LoadFromYaml` sets the variables that a document names.
-/

namespace Sylar.Settings

open Foundation

/-! ## Texts -/

def findFirstOf (text chars : Text) : Option Nat :=
  text.findIdx? fun c => decide (c ∈ chars)

def findFirstNotOf (text chars : Text) : Option Nat :=
  text.findIdx? fun c => decide (c ∉ chars)

def toLower (text : Text) : Text :=
  text.map Char.toLower

/-! ## Variables -/

abbrev Callback (T : Type) := T → T → Except Exception Unit

structure ConfigVar (T : Type) where
  name : Text
  description : Text
  val : T
  callbacks : Ordered (Prod.fst : Nat × Callback T → Nat) := ∅

namespace ConfigVar

variable {T : Type}

def new (name : Text) (defaultVal : T) (description : Text) : ConfigVar T where
  name := toLower name
  description := description
  val := defaultVal

/-- The loop of `setVal` over the copied callbacks. -/
def callAll (oldVal newVal : T) : List (Nat × Callback T) → Except Exception Unit
  | [] => .ok ()
  | callback :: rest => do
      callback.2 oldVal newVal
      callAll oldVal newVal rest

theorem callAll_eq_ok_iff {oldVal newVal : T} {callbacks : List (Nat × Callback T)} :
    callAll oldVal newVal callbacks = .ok () ↔
      ∀ callback ∈ callbacks, callback.2 oldVal newVal = .ok () := by
  induction callbacks with
  | nil => exact ⟨fun _ _ member => absurd member List.not_mem_nil, fun _ => rfl⟩
  | cons callback rest induction =>
      rw [List.forall_mem_cons, ← induction, callAll]
      cases ended : callback.2 oldVal newVal with
      | error exception =>
          constructor
          · intro quiet
            cases quiet
          · intro quiet
            cases quiet.1
      | ok result => exact (and_iff_right rfl).symm

def setVal (var : ConfigVar T) (val : T) : Except Exception (ConfigVar T) := do
  callAll var.val val var.callbacks.toList
  pure { var with val := val }

def fromString (cast : LexicalCast T) (var : ConfigVar T) (text : Text) : ConfigVar T × Bool :=
  match cast.ofText text >>= var.setVal with
  | .ok next => (next, true)
  | .error _ => (var, false)

end ConfigVar

/-! ## The registry -/

abbrev VarId := Nat

variable {Kind : Type}

abbrev ConfigVarBase (Val : Kind → Type) := (kind : Kind) × ConfigVar (Val kind)

def ConfigVarBase.fromString {Val : Kind → Type} (casts : (kind : Kind) → LexicalCast (Val kind))
    (v : ConfigVarBase Val) (text : Text) : ConfigVarBase Val × Bool :=
  let result := v.2.fromString (casts v.1) text
  (⟨v.1, result.1⟩, result.2)

structure Config (Val : Kind → Type) where
  objects : List (ConfigVarBase Val)
  datas : Ordered (Prod.fst : Text × VarId → Text)
  points : ∀ entry ∈ datas, entry.2 < objects.length
  named : ∀ entry ∈ datas, entry.1 ≠ []

namespace Config

variable {Val : Kind → Type}

def empty : Config Val where
  objects := []
  datas := ∅
  points _ member := absurd member (Ordered.notMem_empty _)
  named _ member := absurd member (Ordered.notMem_empty _)

def lookUpBase (config : Config Val) (name : Text) : Option VarId :=
  (config.datas.find? name).map Prod.snd

def lookupChars : Text :=
  "abcdefghigklmnopqistuvwxyzABCDEFGHIGKLMNOPQISTUVWXYZ._0123456789".toList

theorem ne_nil_of_findFirstOf {name chars : Text} (found : findFirstOf name chars ≠ none) :
    name ≠ [] := by
  intro isNil
  rw [isNil] at found
  exact found rfl

def enter (config : Config Val) (name : Text) (accepted : findFirstOf name lookupChars ≠ none)
    (v : ConfigVarBase Val) : Config Val where
  objects := config.objects ++ [v]
  datas := config.datas.assign (name, config.objects.length)
  points := by
    intro entry member
    rw [List.length_append, List.length_singleton]
    rcases Ordered.mem_assign.mp member with rfl | ⟨old, -⟩
    · exact Nat.lt_succ_self _
    · exact Nat.lt_succ_of_lt (config.points entry old)
  named := by
    intro entry member
    rcases Ordered.mem_assign.mp member with rfl | ⟨old, -⟩
    · exact ne_nil_of_findFirstOf accepted
    · exact config.named entry old

def pointerCast [DecidableEq Kind] (config : Config Val) (kind : Kind) (v : VarId) :
    Option VarId :=
  if config.objects[v]?.map Sigma.fst = some kind then some v else none

/-- The pointer that `Lookup` returns, which may be null, and the registry after it. -/
def lookup [DecidableEq Kind] (config : Config Val) (kind : Kind) (name : Text)
    (defaultVar : Val kind) (description : Text) :
    Except Exception (Option VarId × Config Val) :=
  match config.lookUpBase name with
  | some temp => .ok (config.pointerCast kind temp, config)
  | none =>
      if accepted : findFirstOf name lookupChars ≠ none then
        .ok (some config.objects.length,
          config.enter name accepted ⟨kind, .new name defaultVar description⟩)
      else .error (.invalidArgument name)

def fromString (casts : (kind : Kind) → LexicalCast (Val kind)) (config : Config Val)
    (v : VarId) (text : Text) : Config Val :=
  { config with
    objects := config.objects.modify v fun object =>
      (ConfigVarBase.fromString casts object text).1
    points := by simpa using config.points }

/-! ## Loading -/

def loaderChars : Text :=
  "abcdefghigklmnopqrstuvwxyz._0123456789".toList

def memberPath (path key : Text) : Text :=
  if path = [] then key else path ++ '.' :: key

mutual

def loadAllNumber (path : Text) (node : Node) (output : List (Text × Node)) :
    List (Text × Node) :=
  if findFirstNotOf path loaderChars ≠ none then output
  else
    match node with
    | .map entries => loadEntries path entries (output ++ [(path, node)])
    | _ => output ++ [(path, node)]

def loadEntries (path : Text) (entries : List (Text × Node)) (output : List (Text × Node)) :
    List (Text × Node) :=
  match entries with
  | [] => output
  | (key, child) :: rest =>
      loadEntries path rest (loadAllNumber (memberPath path key) child output)

end

def textOf (yaml : Yaml) : Node → Text
  | .scalar text => text
  | node => yaml.dump node

/-- The body of the loop of `LoadFromYaml`, where `fromString` is the virtual function of
the variables and changes some state. -/
def loadNumber {State : Type} (yaml : Yaml) (config : Config Val)
    (fromString : State → VarId → Text → State) (state : State) (i : Text × Node) : State :=
  if i.1 = [] then state
  else
    match config.lookUpBase (toLower i.1) with
    | some val => fromString state val (textOf yaml i.2)
    | none => state

/-- `LoadFromYaml`. It holds the lock of the registry, so no name is registered meanwhile. -/
def loadWith {State : Type} (yaml : Yaml) (config : Config Val)
    (fromString : State → VarId → Text → State) (root : Node) (state : State) : State :=
  (loadAllNumber [] root []).foldl (loadNumber yaml config fromString) state

def loadFromYaml (yaml : Yaml) (casts : (kind : Kind) → LexicalCast (Val kind))
    (config : Config Val) (root : Node) : Config Val :=
  loadWith yaml config (fromString casts) root config

end Config

end Sylar.Settings
