import Mathlib.Logic.Function.Basic
import Sylar.Settings.Config

/-! # The change callbacks of the variables of one type

Every variable keeps its callbacks under keys of its own, but the variables of one type take
the keys from one counter. A ledger of the callbacks that were added says what a
notification has to tell, without keys that wrap around and without maps.
-/

namespace Sylar.Settings

open Foundation

variable {T : Type}

def uint64 (number : Nat) : Nat :=
  number % 18446744073709551616

/-! ## The functions -/

structure Told (T : Type) where
  callback : Callback T
  oldVal : T
  newVal : T

namespace ConfigVar

def getValChangeCB (var : ConfigVar T) (key : Nat) : Option (Callback T) :=
  (var.callbacks.find? key).map Prod.snd

/-- The variable, and the counter of its type. The key that is looked up is not the one that
is written. -/
def addValChangeCB (key : Nat) (var : ConfigVar T) (callback : Callback T) :
    ConfigVar T × Nat :=
  if (var.getValChangeCB (uint64 (key + 1))).isNone then
    ({ var with callbacks := var.callbacks.assign (key, callback) }, uint64 (key + 1))
  else (var, key)

def delValChangeCB (var : ConfigVar T) (key : Nat) : ConfigVar T :=
  { var with callbacks := var.callbacks.erase key }

def clearValChangeCB (var : ConfigVar T) : ConfigVar T :=
  { var with callbacks := ∅ }

/-- The calls that the loop of `setVal` makes, up to one that throws. -/
def tell (oldVal newVal : T) : List (Nat × Callback T) → List (Told T)
  | [] => []
  | callback :: rest =>
      ⟨callback.2, oldVal, newVal⟩ ::
        match callback.2 oldVal newVal with
        | .ok () => tell oldVal newVal rest
        | .error _ => []

/-- These are the calls of `callAll`: all, if none throws, or those up to the one whose
exception it passes on. -/
theorem callAll_tell (oldVal newVal : T) (callbacks : List (Nat × Callback T)) :
    (callAll oldVal newVal callbacks = .ok () ∧
      tell oldVal newVal callbacks =
        callbacks.map fun callback => ⟨callback.2, oldVal, newVal⟩) ∨
    ∃ before callback after exception, callbacks = before ++ callback :: after ∧
      callback.2 oldVal newVal = .error exception ∧
      callAll oldVal newVal callbacks = .error exception ∧
      tell oldVal newVal callbacks =
        (before ++ [callback]).map fun callback => ⟨callback.2, oldVal, newVal⟩ := by
  induction callbacks with
  | nil => exact Or.inl ⟨rfl, rfl⟩
  | cons first rest induction =>
      cases ended : first.2 oldVal newVal with
      | error exception =>
          refine Or.inr ⟨[], first, rest, exception, rfl, ended, ?_, ?_⟩
          · rw [callAll, ended]
            rfl
          · rw [tell, ended]
            rfl
      | ok result =>
          have called : callAll oldVal newVal (first :: rest) = callAll oldVal newVal rest := by
            rw [callAll, ended]
            rfl
          have told : tell oldVal newVal (first :: rest) =
              ⟨first.2, oldVal, newVal⟩ :: tell oldVal newVal rest := by
            rw [tell, ended]
          rw [called, told]
          rcases induction with ⟨quiet, tells⟩ |
            ⟨before, callback, after, exception, restIs, throws, passed, tells⟩
          · exact Or.inl ⟨quiet, by rw [tells, List.map_cons]⟩
          · refine Or.inr ⟨first :: before, callback, after, exception, ?_, throws, passed, ?_⟩
            · rw [restIs, List.cons_append]
            · rw [tells, List.cons_append, List.map_cons]

theorem tell_eq {oldVal newVal : T} {callbacks : List (Nat × Callback T)}
    (quiet : ∀ callback ∈ callbacks, callback.2 oldVal newVal = .ok ()) :
    tell oldVal newVal callbacks =
      callbacks.map fun callback => ⟨callback.2, oldVal, newVal⟩ := by
  rcases callAll_tell oldVal newVal callbacks with ⟨-, tells⟩ | ⟨_, _, _, _, -, -, throws, -⟩
  · exact tells
  · rw [callAll_eq_ok_iff.mpr quiet] at throws
    cases throws

end ConfigVar

/-! ## Calls on the variables of a type -/

/-- The variables of a type, by their addresses, and the static counter in
`addValChangeCB`. -/
structure Variables (T : Type) where
  key : Nat
  objects : Nat → ConfigVar T

inductive Call (T : Type)
  | addValChangeCB (object : Nat) (callback : Callback T)
  | delValChangeCB (object key : Nat)
  | clearValChangeCB (object : Nat)
  | setVal (object : Nat) (val : T)

namespace Variables

def new (name : Nat → Text) (defaultVal : Nat → T) (description : Nat → Text) :
    Variables T where
  key := 0
  objects object := .new (name object) (defaultVal object) (description object)

def modify (vars : Variables T) (object : Nat) (change : ConfigVar T → ConfigVar T) :
    Variables T :=
  { vars with
    objects := Function.update vars.objects object (change (vars.objects object)) }

@[simp] theorem modify_self (vars : Variables T) (object : Nat)
    (change : ConfigVar T → ConfigVar T) :
    (vars.modify object change).objects object = change (vars.objects object) :=
  Function.update_self ..

theorem modify_of_ne {vars : Variables T} {object other : Nat} (different : other ≠ object)
    (change : ConfigVar T → ConfigVar T) :
    (vars.modify object change).objects other = vars.objects other :=
  Function.update_of_ne different ..

/-- The variables after a call. An exception of `setVal` leaves them as they are. -/
def execute (vars : Variables T) : Call T → Variables T
  | .addValChangeCB object callback =>
      let added := (vars.objects object).addValChangeCB vars.key callback
      { vars.modify object fun _ => added.1 with key := added.2 }
  | .delValChangeCB object key => vars.modify object (·.delValChangeCB key)
  | .clearValChangeCB object => vars.modify object (·.clearValChangeCB)
  | .setVal object val =>
      match (vars.objects object).setVal val with
      | .ok next => vars.modify object fun _ => next
      | .error _ => vars

def told (vars : Variables T) : Call T → List (Told T)
  | .setVal object val =>
      let var := vars.objects object
      ConfigVar.tell var.val val var.callbacks.toList
  | _ => []

def run (vars : Variables T) (calls : List (Call T)) : Variables T :=
  calls.foldl execute vars

end Variables

/-! ## The ledger -/

/-- A callback that was added to a variable, with the number of those added before. -/
structure Registration (T : Type) where
  object : Nat
  number : Nat
  callback : Callback T

/-- The callbacks that were added and not removed since, in order of registration. -/
structure Ledger (T : Type) where
  added : Nat
  registered : List (Registration T)
  val : Nat → T

namespace Ledger

def new (defaultVal : Nat → T) : Ledger T where
  added := 0
  registered := []
  val := defaultVal

def of (ledger : Ledger T) (object : Nat) : List (Registration T) :=
  ledger.registered.filter fun registration => decide (registration.object = object)

def Quiet (ledger : Ledger T) (object : Nat) (val : T) : Prop :=
  ∀ registration ∈ ledger.of object, registration.callback (ledger.val object) val = .ok ()

open Classical in
noncomputable def execute (ledger : Ledger T) : Call T → Ledger T
  | .addValChangeCB object callback =>
      { ledger with
        added := ledger.added + 1
        registered := ledger.registered ++ [⟨object, ledger.added, callback⟩] }
  | .delValChangeCB object key =>
      { ledger with
        registered := ledger.registered.filter fun registration =>
          ¬(registration.object = object ∧ registration.number = key) }
  | .clearValChangeCB object =>
      { ledger with
        registered := ledger.registered.filter fun registration =>
          ¬registration.object = object }
  | .setVal object val =>
      if ledger.Quiet object val then
        { ledger with val := Function.update ledger.val object val }
      else ledger

noncomputable def run (ledger : Ledger T) (calls : List (Call T)) : Ledger T :=
  calls.foldl execute ledger

end Ledger

def additions (calls : List (Call T)) : Nat :=
  calls.countP fun
    | .addValChangeCB _ _ => true
    | _ => false

/-! ## The variables keep the ledger -/

/-- The maps hold what is registered, each callback under its number. -/
structure Keeps (ledger : Ledger T) (vars : Variables T) : Prop where
  key : vars.key = ledger.added
  callbacks : ∀ object, (vars.objects object).callbacks.toList =
    (ledger.of object).map fun registration => (registration.number, registration.callback)
  val : ∀ object, (vars.objects object).val = ledger.val object
  numbers : ∀ registration ∈ ledger.registered, registration.number < ledger.added

namespace Keeps

theorem new (name : Nat → Text) (defaultVal : Nat → T) (description : Nat → Text) :
    Keeps (Ledger.new defaultVal) (Variables.new name defaultVal description) where
  key := rfl
  callbacks _ := rfl
  val _ := rfl
  numbers _ member := absurd member List.not_mem_nil

variable {ledger : Ledger T} {vars : Variables T}

theorem find?_eq_none_iff (keeps : Keeps ledger vars) {object key : Nat} :
    (vars.objects object).callbacks.find? key = none ↔
      ∀ registration ∈ ledger.of object, registration.number ≠ key := by
  rw [Ordered.find?_eq_none_iff]
  change (∀ entry ∈ (vars.objects object).callbacks.toList, entry.1 ≠ key) ↔ _
  rw [keeps.callbacks, List.forall_mem_map]

theorem find?_eq_none (keeps : Keeps ledger vars) {object key : Nat}
    (unused : ledger.added ≤ key) : (vars.objects object).callbacks.find? key = none := by
  apply keeps.find?_eq_none_iff.mpr
  intro registration member
  have below := keeps.numbers registration (List.mem_of_mem_filter member)
  exact ne_of_lt (lt_of_lt_of_le below unused)

theorem quiet_iff (keeps : Keeps ledger vars) (object : Nat) (val : T) :
    ledger.Quiet object val ↔
      ∀ callback ∈ (vars.objects object).callbacks.toList,
        callback.2 (vars.objects object).val val = .ok () := by
  rw [keeps.callbacks, keeps.val, List.forall_mem_map]
  rfl

theorem execute_add (keeps : Keeps ledger vars) (object : Nat) (callback : Callback T)
    (few : ledger.added + 1 < 18446744073709551616) :
    vars.execute (.addValChangeCB object callback) =
      { vars.modify object fun var =>
          { var with callbacks := var.callbacks.assign (ledger.added, callback) } with
        key := ledger.added + 1 } := by
  have next : uint64 (ledger.added + 1) = ledger.added + 1 := Nat.mod_eq_of_lt few
  have free : (vars.objects object).callbacks.find? (ledger.added + 1) = none :=
    keeps.find?_eq_none (Nat.le_succ _)
  rw [Variables.execute, ConfigVar.addValChangeCB, keeps.key, next, ConfigVar.getValChangeCB,
    free]
  rfl

theorem add (keeps : Keeps ledger vars) (object : Nat) (callback : Callback T)
    (few : ledger.added + 1 < 18446744073709551616) :
    Keeps (ledger.execute (.addValChangeCB object callback))
      (vars.execute (.addValChangeCB object callback)) := by
  have below : ∀ entry ∈ (vars.objects object).callbacks.toList, entry.1 < ledger.added := by
    intro entry member
    rw [keeps.callbacks] at member
    rcases List.mem_map.mp member with ⟨registration, registered, rfl⟩
    exact keeps.numbers registration (List.mem_of_mem_filter registered)
  have placed : ((vars.objects object).callbacks.assign (ledger.added, callback)).toList =
      (vars.objects object).callbacks.toList ++ [(ledger.added, callback)] :=
    Ordered.place_eq_append below
  let store (var : ConfigVar T) : ConfigVar T :=
    { var with callbacks := var.callbacks.assign (ledger.added, callback) }
  rw [keeps.execute_add object callback few]
  constructor
  · rfl
  · intro other
    change ((vars.modify object store).objects other).callbacks.toList = _
    rw [Ledger.of, Ledger.execute, List.filter_append, List.map_append]
    by_cases same : other = object
    · rw [same, Variables.modify_self, placed, keeps.callbacks, Ledger.of]
      simp
    · rw [Variables.modify_of_ne same, keeps.callbacks, Ledger.of]
      simp [Ne.symm same]
  · intro other
    change ((vars.modify object store).objects other).val = _
    by_cases same : other = object
    · rw [same, Variables.modify_self]
      exact keeps.val object
    · rw [Variables.modify_of_ne same]
      exact keeps.val other
  · intro registration member
    rcases List.mem_append.mp member with old | isNew
    · exact Nat.lt_succ_of_lt (keeps.numbers registration old)
    · rw [List.mem_singleton.mp isNew]
      exact Nat.lt_succ_self _

theorem remove (keeps : Keeps ledger vars) (object : Nat) (dropped : Nat → Prop)
    [DecidablePred dropped] (change : ConfigVar T → ConfigVar T)
    (callbacks : ∀ var, (change var).callbacks.toList =
      var.callbacks.toList.filter fun callback => ¬dropped callback.1)
    (val : ∀ var, (change var).val = var.val) :
    Keeps { ledger with
      registered := ledger.registered.filter fun registration =>
        ¬(registration.object = object ∧ dropped registration.number) }
      (vars.modify object change) where
  key := keeps.key
  callbacks other := by
    rw [Ledger.of, List.filter_filter]
    by_cases same : other = object
    · rw [same, Variables.modify_self, callbacks, keeps.callbacks, List.filter_map, Ledger.of,
        List.filter_filter]
      congr 1
      apply List.filter_congr
      intro registration _
      simp only [Function.comp_apply]
      grind
    · rw [Variables.modify_of_ne same, keeps.callbacks, Ledger.of]
      congr 1
      apply List.filter_congr
      intro registration _
      grind
  val other := by
    by_cases same : other = object
    · rw [same, Variables.modify_self, val, keeps.val]
    · rw [Variables.modify_of_ne same, keeps.val]
  numbers registration member := keeps.numbers registration (List.mem_of_mem_filter member)

theorem setVal (keeps : Keeps ledger vars) (object : Nat) (val : T) :
    Keeps (ledger.execute (.setVal object val)) (vars.execute (.setVal object val)) := by
  rw [Ledger.execute, Variables.execute, ConfigVar.setVal]
  cases called : ConfigVar.callAll (vars.objects object).val val
      (vars.objects object).callbacks.toList with
  | error exception =>
      have loud : ¬ledger.Quiet object val := by
        rw [keeps.quiet_iff, ← ConfigVar.callAll_eq_ok_iff, called]
        exact fun isOk => by cases isOk
      rw [if_neg loud]
      exact keeps
  | ok result =>
      have quiet : ledger.Quiet object val := by
        rw [keeps.quiet_iff, ← ConfigVar.callAll_eq_ok_iff, called]
      rw [if_pos quiet]
      constructor
      · exact keeps.key
      · intro other
        change ((vars.modify object _).objects other).callbacks.toList = _
        by_cases same : other = object
        · rw [same, Variables.modify_self]
          exact keeps.callbacks object
        · rw [Variables.modify_of_ne same]
          exact keeps.callbacks other
      · intro other
        change ((vars.modify object _).objects other).val =
          Function.update ledger.val object val other
        by_cases same : other = object
        · rw [same, Variables.modify_self, Function.update_self]
        · rw [Variables.modify_of_ne same, Function.update_of_ne same]
          exact keeps.val other
      · exact keeps.numbers

theorem execute (keeps : Keeps ledger vars) (call : Call T)
    (few : ledger.added + additions [call] < 18446744073709551616) :
    Keeps (ledger.execute call) (vars.execute call) := by
  cases call with
  | addValChangeCB object callback => exact keeps.add object callback few
  | delValChangeCB object key =>
      exact keeps.remove object (· = key) (·.delValChangeCB key)
        (fun _ => by simp [ConfigVar.delValChangeCB, Ordered.erase]) (fun _ => rfl)
  | clearValChangeCB object =>
      have removed := keeps.remove object (fun _ => True) (·.clearValChangeCB)
        (fun _ => (List.filter_eq_nil_iff.mpr (by simp)).symm) (fun _ => rfl)
      simpa [Ledger.execute, Variables.execute] using removed
  | setVal object val => exact keeps.setVal object val

end Keeps

theorem Ledger.added_execute (ledger : Ledger T) (call : Call T) :
    (ledger.execute call).added = ledger.added + additions [call] := by
  cases call with
  | setVal object val =>
      rw [Ledger.execute]
      split <;> rfl
  | addValChangeCB | delValChangeCB | clearValChangeCB => rfl

theorem additions_append (before after : List (Call T)) :
    additions (before ++ after) = additions before + additions after :=
  List.countP_append

theorem additions_cons (call : Call T) (calls : List (Call T)) :
    additions (call :: calls) = additions [call] + additions calls :=
  additions_append [call] calls

theorem Ledger.added_run (ledger : Ledger T) (calls : List (Call T)) :
    (ledger.run calls).added = ledger.added + additions calls := by
  induction calls generalizing ledger with
  | nil => rfl
  | cons call rest induction =>
      change ((ledger.execute call).run rest).added = _
      rw [induction, Ledger.added_execute, additions_cons call rest, Nat.add_assoc]

theorem Keeps.run {ledger : Ledger T} {vars : Variables T} (keeps : Keeps ledger vars)
    {calls : List (Call T)} (few : ledger.added + additions calls < 18446744073709551616) :
    Keeps (ledger.run calls) (vars.run calls) := by
  induction calls generalizing ledger vars with
  | nil => exact keeps
  | cons call rest induction =>
      rw [additions_cons] at few
      apply induction (keeps.execute call (by omega))
      rw [Ledger.added_execute]
      omega

theorem Keeps.fromStart (name : Nat → Text) (defaultVal : Nat → T) (description : Nat → Text)
    {calls : List (Call T)} (few : additions calls < 18446744073709551616) :
    Keeps ((Ledger.new defaultVal).run calls)
      ((Variables.new name defaultVal description).run calls) :=
  (Keeps.new name defaultVal description).run ((Nat.zero_add _).symm ▸ few)

theorem Ledger.added_fromStart (defaultVal : Nat → T) (calls : List (Call T)) :
    ((Ledger.new defaultVal).run calls).added = additions calls :=
  (Ledger.added_run _ calls).trans (Nat.zero_add _)

/-! ## Notifications -/

/-- What a call comes to, where the ledger says which callbacks there are. -/
structure Honours (ledger : Ledger T) (vars : Variables T) (call : Call T) : Prop where
  /-- A callback goes under a key that its variable does not use, in the place of none. -/
  stored : ∀ object callback, call = .addValChangeCB object callback →
    (vars.objects object).getValChangeCB vars.key = none ∧
      ∀ other key, ((vars.execute call).objects other).getValChangeCB key =
        if other = object ∧ key = vars.key then some callback
        else (vars.objects other).getValChangeCB key
  /-- The callbacks are told the two values, and the second becomes the current one. -/
  told : ∀ object val, call = .setVal object val → ledger.Quiet object val →
    vars.told call = (ledger.of object).map (fun registration =>
        ⟨registration.callback, (vars.objects object).val, val⟩) ∧
      ((vars.execute call).objects object).val = val
  /-- No registration occurs twice, and they stand in their order. -/
  ordered : ∀ object,
    (ledger.of object).Pairwise fun left right => left.number < right.number
  val : ∀ object, (vars.objects object).val = ledger.val object

namespace Keeps

variable {ledger : Ledger T} {vars : Variables T}

theorem stored (keeps : Keeps ledger vars) (object : Nat) (callback : Callback T)
    (few : ledger.added + 1 < 18446744073709551616) (other key : Nat) :
    ((vars.execute (.addValChangeCB object callback)).objects other).getValChangeCB key =
      if other = object ∧ key = vars.key then some callback
      else (vars.objects other).getValChangeCB key := by
  let store (var : ConfigVar T) : ConfigVar T :=
    { var with callbacks := var.callbacks.assign (ledger.added, callback) }
  rw [keeps.execute_add object callback few, keeps.key]
  change ((vars.modify object store).objects other).getValChangeCB key = _
  by_cases same : other = object
  · rw [same, Variables.modify_self, ConfigVar.getValChangeCB, Ordered.find?_assign]
    by_cases isKey : key = ledger.added
    · rw [if_pos isKey.symm, if_pos ⟨rfl, isKey⟩]
      rfl
    · rw [if_neg (Ne.symm isKey), if_neg (fun both => isKey both.2)]
      rfl
  · rw [Variables.modify_of_ne same, if_neg (fun both => same both.1)]

theorem told (keeps : Keeps ledger vars) {object : Nat} {val : T}
    (quiet : ledger.Quiet object val) :
    vars.told (.setVal object val) = (ledger.of object).map fun registration =>
      ⟨registration.callback, (vars.objects object).val, val⟩ := by
  rw [Variables.told, ConfigVar.tell_eq ((keeps.quiet_iff object val).mp quiet),
    keeps.callbacks, List.map_map]
  rfl

end Keeps

/-- None of the callbacks of a type is lost, and none is called twice. -/
theorem callbacks_honoured (name : Nat → Text) (defaultVal : Nat → T)
    (description : Nat → Text) (calls : List (Call T)) (call : Call T)
    (few : additions (calls ++ [call]) < 18446744073709551616) :
    Honours ((Ledger.new defaultVal).run calls)
      ((Variables.new name defaultVal description).run calls) call := by
  rw [additions_append] at few
  have keeps := Keeps.fromStart name defaultVal description (Nat.lt_of_add_right_lt few)
  rw [← Ledger.added_fromStart defaultVal calls] at few
  generalize (Ledger.new defaultVal).run calls = ledger at few keeps
  generalize (Variables.new name defaultVal description).run calls = vars at keeps
  constructor
  · intro object callback isAdd
    subst isAdd
    constructor
    · rw [ConfigVar.getValChangeCB, keeps.key, keeps.find?_eq_none (Nat.le_refl _)]
      rfl
    · exact keeps.stored object callback few
  · intro object val isSet quiet
    subst isSet
    have next := keeps.setVal object val
    constructor
    · exact keeps.told quiet
    · rw [next.val, Ledger.execute, if_pos quiet]
      exact Function.update_self ..
  · intro object
    have ascending := (vars.objects object).callbacks.ascending
    rw [keeps.callbacks, List.pairwise_map] at ascending
    exact ascending
  · exact keeps.val

theorem callbacks_honoured_two :
    Honours ((Ledger.new fun _ => 0).run
        [.addValChangeCB 0 fun _ _ => .ok (), .addValChangeCB 1 fun _ _ => .ok (),
          .addValChangeCB 0 fun _ _ => .ok (), .delValChangeCB 0 0])
      ((Variables.new (fun _ => ['v']) (fun _ => 0) fun _ => []).run
        [.addValChangeCB 0 fun _ _ => .ok (), .addValChangeCB 1 fun _ _ => .ok (),
          .addValChangeCB 0 fun _ _ => .ok (), .delValChangeCB 0 0])
      (.setVal 0 7) :=
  callbacks_honoured _ _ _ _ _ (by decide)

/-- The addition that brings the counter round is lost exactly if its variable still has the
callback under the first key of all. -/
theorem lost_at_wrap (name : Nat → Text) (defaultVal : Nat → T) (description : Nat → Text)
    {calls : List (Call T)} (last : additions calls + 1 = 18446744073709551616) (object : Nat)
    (callback : Callback T) :
    let vars := (Variables.new name defaultVal description).run calls
    vars.execute (.addValChangeCB object callback) = vars ↔
      ∃ registration ∈ ((Ledger.new defaultVal).run calls).of object,
        registration.number = 0 := by
  intro vars
  have keeps : Keeps ((Ledger.new defaultVal).run calls) vars :=
    Keeps.fromStart name defaultVal description (by omega)
  have key : vars.key + 1 = 18446744073709551616 := by
    rw [keeps.key, Ledger.added_fromStart, last]
  have wraps : uint64 (vars.key + 1) = 0 := by
    rw [key]
    rfl
  have used : (∃ registration ∈ ((Ledger.new defaultVal).run calls).of object,
      registration.number = 0) ↔ (vars.objects object).callbacks.find? 0 ≠ none := by
    rw [ne_eq, keeps.find?_eq_none_iff]
    simp
  rw [used, Variables.execute, ConfigVar.addValChangeCB, wraps, ConfigVar.getValChangeCB]
  cases (vars.objects object).callbacks.find? 0 with
  | none =>
      constructor
      · intro unchanged
        have isZero : vars.key = 0 := (congrArg Variables.key unchanged).symm
        rw [isZero] at key
        exact absurd key (by decide)
      · intro isUsed
        exact absurd rfl isUsed
  | some entry =>
      constructor
      · intro _ isNone
        cases isNone
      · intro _
        exact congrArg (Variables.mk vars.key) (Function.update_eq_self object vars.objects)

/-! ## Assignments from text -/

namespace ConfigVar

def toldFromString (cast : LexicalCast T) (var : ConfigVar T) (text : Text) : List (Told T) :=
  match cast.ofText text with
  | .ok val => tell var.val val var.callbacks.toList
  | .error _ => []

/-- What `fromString` returns says what has happened to the variable and to its callbacks. -/
structure Reports (cast : LexicalCast T) (var : ConfigVar T) (text : Text) : Prop where
  failed : (var.fromString cast text).2 = false →
    (var.fromString cast text).1.val = var.val ∧ var.toldFromString cast text = []
  assigned : (var.fromString cast text).2 = true → ∃ val, cast.ofText text = .ok val ∧
    (var.fromString cast text).1.val = val ∧
    var.toldFromString cast text =
      var.callbacks.toList.map fun callback => ⟨callback.2, var.val, val⟩

def QuietAt (var : ConfigVar T) (val : T) : Prop :=
  ∀ callback ∈ var.callbacks, callback.2 var.val val = .ok ()

variable {cast : LexicalCast T} {var : ConfigVar T} {text : Text}

theorem fromString_of_error {exception : Exception} (fails : cast.ofText text = .error exception) :
    var.fromString cast text = (var, false) := by
  rw [fromString, fails]
  rfl

theorem fromString_of_quiet {val : T} (converts : cast.ofText text = .ok val)
    (quiet : var.QuietAt val) :
    var.fromString cast text = ({ var with val := val }, true) := by
  have ended : callAll var.val val var.callbacks.toList = .ok () :=
    callAll_eq_ok_iff.mpr quiet
  have set : var.setVal val = .ok { var with val := val } := by
    rw [setVal, ended]
    rfl
  rw [fromString, converts]
  change (match var.setVal val with | .ok next => (next, true) | .error _ => (var, false)) = _
  rw [set]

theorem fromString_of_throws {val : T} (converts : cast.ofText text = .ok val)
    (throws : ¬var.QuietAt val) : var.fromString cast text = (var, false) := by
  rw [fromString, converts]
  change (match var.setVal val with | .ok next => (next, true) | .error _ => (var, false)) = _
  rw [setVal]
  cases ended : callAll var.val val var.callbacks.toList with
  | ok => exact absurd (callAll_eq_ok_iff.mp ended) throws
  | error exception => rfl

theorem tell_ne_nil {oldVal newVal : T} {callbacks : List (Nat × Callback T)}
    (called : callbacks ≠ []) : tell oldVal newVal callbacks ≠ [] := by
  cases callbacks with
  | nil => exact absurd rfl called
  | cons callback rest => exact List.cons_ne_nil _ _

/-- A failed assignment leaves no trace exactly if the conversion is what has failed. -/
theorem reports_iff (cast : LexicalCast T) (var : ConfigVar T) (text : Text) :
    Reports cast var text ↔ ∀ val, cast.ofText text = .ok val → var.QuietAt val := by
  cases converts : cast.ofText text with
  | error exception =>
      have ended : var.fromString cast text = (var, false) := fromString_of_error converts
      constructor
      · intro _ val isOk
        cases isOk
      · intro _
        constructor
        · intro _
          rw [ended, toldFromString, converts]
          exact ⟨rfl, rfl⟩
        · intro isTrue
          rw [ended] at isTrue
          cases isTrue
  | ok val =>
      constructor
      · rintro reports _ ⟨⟩
        by_contra throws
        have ended := fromString_of_throws converts throws
        have silent := (reports.failed (by rw [ended])).2
        rw [toldFromString, converts] at silent
        apply throws
        intro callback member
        refine absurd silent (tell_ne_nil ?_)
        exact List.ne_nil_of_mem member
      · intro quiet
        have quiet := quiet val rfl
        have ended := fromString_of_quiet converts quiet
        constructor
        · intro isFalse
          rw [ended] at isFalse
          cases isFalse
        · intro _
          refine ⟨val, converts, by rw [ended], ?_⟩
          rw [toldFromString, converts]
          exact tell_eq quiet

/-- Two callbacks, of which the second throws once the first has been told. -/
theorem reports_fails :
    let cast : LexicalCast Nat := ⟨fun val => .ok (Nat.repr val).toList, fun _ => .ok 5⟩
    let var : ConfigVar Nat :=
      { ConfigVar.new "v".toList 0 [] with
        callbacks := Ordered.ofList _
          [(0, fun _ _ => .ok ()), (1, fun _ _ => .error (.thrown "refused".toList))] }
    (var.fromString cast "5".toList).2 = false ∧
      (var.toldFromString cast "5".toList).length = 2 ∧
      ¬Reports cast var "5".toList := by
  intro cast var
  have failed : (var.fromString cast "5".toList).2 = false := by rfl
  have told : (var.toldFromString cast "5".toList).length = 2 := by rfl
  refine ⟨failed, told, fun reports => ?_⟩
  rw [(reports.failed failed).2] at told
  cases told

end ConfigVar

end Sylar.Settings
