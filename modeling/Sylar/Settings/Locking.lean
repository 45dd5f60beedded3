import Sylar.Foundation.Machine
import Sylar.Settings.Callbacks
import Sylar.Settings.Loading

/-! # Mutexes and notifications

A thread sets variables, directly or by loading a document. Change callbacks run in the
middle of this and may use the configuration themselves; which calls they make, and how
they end, is up to the run. No mutex may be locked twice.
-/

namespace Sylar.Settings

open Foundation

inductive Mutex
  | valMutex (v : VarId)
  | mutex (v : VarId)
  | config
deriving DecidableEq, Repr

variable {Kind : Type} {Val : Kind → Type}

/-- What a callback may call: functions of the variable that is set, and `Lookup`. A
callback to add is given for a variable of any type. -/
inductive Use (Val : Kind → Type)
  | getVal
  | toString
  | addValChangeCB (callback : (kind : Kind) → Callback (Val kind))
  | delValChangeCB (key : Nat)
  | clearValChangeCB
  | lookup (kind : Kind) (name : Text) (defaultVar : Val kind) (description : Text)

/-- Where a thread is in the loop of `setVal`: the value to set, the copied callbacks that
were not called yet, and whether a callback is running. -/
structure Notification (Val : Kind → Type) where
  v : VarId
  kind : Kind
  val : Val kind
  rest : List (Nat × Callback (Val kind))
  inside : Bool

/-- The data that the mutexes protect: the variables, and the counter of each type. -/
structure Protected (Val : Kind → Type) where
  config : Config Val
  keys : Kind → Nat

namespace Protected

def modify (data : Protected Val) (v : VarId)
    (change : ConfigVarBase Val → ConfigVarBase Val) : Protected Val :=
  { data with
    config :=
      { data.config with
        objects := data.config.objects.modify v change
        points := by simpa using data.config.points } }

def use [DecidableEq Kind] (data : Protected Val) (v : VarId) : Use Val → Protected Val
  | .getVal | .toString => data
  | .addValChangeCB callback =>
      match data.config.objects[v]? with
      | some ⟨kind, var⟩ =>
          let added := var.addValChangeCB (data.keys kind) (callback kind)
          { data.modify v fun _ => ⟨kind, added.1⟩ with
            keys := Function.update data.keys kind added.2 }
      | none => data
  | .delValChangeCB key => data.modify v fun var => ⟨var.1, var.2.delValChangeCB key⟩
  | .clearValChangeCB => data.modify v fun var => ⟨var.1, var.2.clearValChangeCB⟩
  | .lookup kind name defaultVar description =>
      match data.config.lookup kind name defaultVar description with
      | .ok found => { data with config := found.2 }
      | .error _ => data

/-- The assignment at the end of `setVal`. -/
def assign [DecidableEq Kind] (data : Protected Val) (v : VarId) {kind : Kind}
    (val : Val kind) : Protected Val :=
  data.modify v fun var =>
    if same : kind = var.1 then ⟨var.1, { var.2 with val := same ▸ val }⟩ else var

theorem assign_eq [DecidableEq Kind] {data : Protected Val} {v : VarId} {kind : Kind}
    {var : ConfigVar (Val kind)} (isVar : data.config.objects[v]? = some ⟨kind, var⟩)
    (val : Val kind) :
    data.assign v val = data.modify v fun _ => ⟨kind, { var with val := val }⟩ := by
  have objects : data.config.objects.modify v (fun object =>
        if same : kind = object.1 then ⟨object.1, { object.2 with val := same ▸ val }⟩
        else object) =
      data.config.objects.modify v fun _ => ⟨kind, { var with val := val }⟩ := by
    apply List.ext_getElem?
    intro other
    rw [List.getElem?_modify, List.getElem?_modify]
    by_cases here : v = other
    · rw [← here, isVar]
      simp
    · simp [here]
  simp only [assign, modify, objects]

end Protected

structure Thread (Val : Kind → Type) where
  data : Protected Val
  held : List Mutex
  waits : Option Mutex
  /-- The nodes that `LoadFromYaml` still has to visit. -/
  loading : Option (List (Text × Node))
  notifying : Option (Notification Val)

namespace Thread

def new (data : Protected Val) : Thread Val where
  data := data
  held := []
  waits := none
  loading := none
  notifying := none

def lock (mutex : Mutex) (thread : Thread Val) (next : Thread Val → Thread Val) :
    Thread Val :=
  if mutex ∈ thread.held then { thread with waits := some mutex }
  else next { thread with held := mutex :: thread.held }

def unlock (mutex : Mutex) (thread : Thread Val) : Thread Val :=
  { thread with held := thread.held.erase mutex }

def setVal (thread : Thread Val) (v : VarId) {kind : Kind} (var : ConfigVar (Val kind))
    (val : Val kind) : Thread Val :=
  thread.lock (.valMutex v) fun thread =>
    thread.lock (.mutex v) fun thread =>
      { thread with notifying := some ⟨v, kind, val, var.callbacks.toList, false⟩ }.unlock
        (.mutex v)

/-- The start of `fromString`, which calls `setVal` unless the text does not convert. -/
def fromString (casts : (kind : Kind) → LexicalCast (Val kind)) (thread : Thread Val)
    (v : VarId) (text : Text) : Thread Val :=
  match thread.data.config.objects[v]? with
  | some ⟨kind, var⟩ =>
      match (casts kind).ofText text with
      | .ok val => thread.setVal v var val
      | .error _ => thread
  | none => thread

def mutexOf (v : VarId) : Use Val → Option Mutex
  | .getVal => some (.valMutex v)
  | .toString => none
  | .addValChangeCB _ | .delValChangeCB _ | .clearValChangeCB => some (.mutex v)
  | .lookup .. => some .config

inductive Label (Val : Kind → Type)
  | setVal (v : VarId) (kind : Kind) (val : Val kind)
  | fromString (v : VarId) (text : Text)
  | loadFromYaml (root : Node)
  /-- The loops of `setVal` and `LoadFromYaml` go on. -/
  | proceed
  /-- The callback that is running calls a function. -/
  | use (call : Use Val)
  /-- It ends. -/
  | leave (result : Except Exception Unit)

section Steps

variable [DecidableEq Kind]

def use (thread : Thread Val) (v : VarId) (call : Use Val) : Thread Val :=
  match mutexOf v call with
  | none => { thread with data := thread.data.use v call }
  | some mutex =>
      thread.lock mutex fun thread =>
        { thread with data := thread.data.use v call }.unlock mutex

/-- The end of `setVal`. An exception leaves the value. -/
def finish (thread : Thread Val) (notification : Notification Val)
    (result : Except Exception Unit) : Thread Val :=
  let data :=
    match result with
    | .ok () => thread.data.assign notification.v notification.val
    | .error _ => thread.data
  { thread with data := data, notifying := none }.unlock (.valMutex notification.v)

def proceedLoading (yaml : Yaml) (casts : (kind : Kind) → LexicalCast (Val kind))
    (thread : Thread Val) : List (Text × Node) → Thread Val
  | [] => { thread with loading := none }.unlock .config
  | i :: rest =>
      let visited := { thread with loading := some rest }
      match Config.callFor yaml thread.data.config i with
      | some call => visited.fromString casts call.1 call.2
      | none => visited

def proceedNotifying (thread : Thread Val) (notification : Notification Val) : Thread Val :=
  match notification.rest with
  | [] => thread.finish notification (.ok ())
  | _ :: rest =>
      { thread with notifying := some { notification with rest := rest, inside := true } }

/-- The callback that is running ends, and with an exception `setVal` does too. -/
def leave (thread : Thread Val) (notification : Notification Val) :
    Except Exception Unit → Thread Val
  | .ok () => { thread with notifying := some { notification with inside := false } }
  | .error exception => thread.finish notification (.error exception)

def callSetVal (thread : Thread Val) (v : VarId) {kind : Kind} (val : Val kind) :
    Option (Thread Val) :=
  match thread.data.config.objects[v]? with
  | some ⟨kindOf, var⟩ =>
      if same : kind = kindOf then some (thread.setVal v var (same ▸ val)) else none
  | none => none

def isOutside (thread : Thread Val) : Bool :=
  thread.loading.isNone && thread.notifying.isNone

def running (thread : Thread Val) : Option (Notification Val) :=
  thread.notifying.filter (·.inside)

def step (yaml : Yaml) (casts : (kind : Kind) → LexicalCast (Val kind))
    (thread : Thread Val) (label : Label Val) : Option (Thread Val) :=
  if thread.waits.isSome then none
  else
    match label with
    | .setVal v _ val => if thread.isOutside then thread.callSetVal v val else none
    | .fromString v text =>
        if thread.isOutside then some (thread.fromString casts v text) else none
    | .loadFromYaml root =>
        if thread.isOutside then
          some (thread.lock .config fun thread =>
            { thread with loading := some (Config.loadAllNumber [] root []) })
        else none
    | .proceed =>
        match thread.notifying with
        | some notification =>
            if notification.inside then none else some (thread.proceedNotifying notification)
        | none => thread.loading.map (thread.proceedLoading yaml casts)
    | .use call =>
        thread.running.map fun notification => thread.use notification.v call
    | .leave result =>
        thread.running.map fun notification => thread.leave notification result

def machine (yaml : Yaml) (casts : (kind : Kind) → LexicalCast (Val kind)) :
    Machine (Thread Val) (Label Val) where
  step := step yaml casts

end Steps

/-! ## The mutexes that are held -/

/-- The guards in the functions that a thread is in, the innermost first. -/
def guards (thread : Thread Val) : List Mutex :=
  (thread.notifying.map fun notification => .valMutex notification.v).toList ++
    (thread.loading.map fun _ => .config).toList

structure Sound (thread : Thread Val) : Prop where
  waits : thread.waits = none
  held : thread.held = thread.guards

theorem lock_eq {mutex : Mutex} {thread : Thread Val} (free : mutex ∉ thread.held)
    (next : Thread Val → Thread Val) :
    thread.lock mutex next = next { thread with held := mutex :: thread.held } :=
  if_neg free

theorem waits_lock {mutex : Mutex} {thread : Thread Val} (held : mutex ∈ thread.held)
    (next : Thread Val → Thread Val) : (thread.lock mutex next).waits = some mutex := by
  rw [lock, if_pos held]

theorem unlock_cons (mutex : Mutex) (thread : Thread Val) {rest : List Mutex}
    (first : thread.held = mutex :: rest) : (thread.unlock mutex).held = rest := by
  rw [unlock, first, List.erase_cons_head]

theorem Sound.held_subset {thread : Thread Val} (sound : thread.Sound)
    (outside : thread.notifying = none) {mutex : Mutex} (member : mutex ∈ thread.held) :
    mutex = .config := by
  rw [sound.held, guards, outside] at member
  cases loading : thread.loading with
  | none => simp [loading] at member
  | some rest => simpa [loading] using member

theorem Sound.setVal {thread : Thread Val} (sound : thread.Sound)
    (outside : thread.notifying = none) (v : VarId) {kind : Kind}
    (var : ConfigVar (Val kind)) (val : Val kind) : (thread.setVal v var val).Sound := by
  have valFree : Mutex.valMutex v ∉ thread.held := fun member => by
    cases sound.held_subset outside member
  have mutexFree : Mutex.mutex v ∉ Mutex.valMutex v :: thread.held := fun member => by
    rcases List.mem_cons.mp member with same | member
    · cases same
    · cases sound.held_subset outside member
  rw [Thread.setVal, lock_eq valFree, lock_eq mutexFree]
  constructor
  · exact sound.waits
  · rw [unlock_cons (.mutex v) _ rfl]
    simp [guards, sound.held, outside, unlock]

theorem Sound.fromString (casts : (kind : Kind) → LexicalCast (Val kind))
    {thread : Thread Val} (sound : thread.Sound) (outside : thread.notifying = none)
    (v : VarId) (text : Text) : (thread.fromString casts v text).Sound := by
  rw [Thread.fromString]
  split
  · next kind var _ =>
      split
      · next val _ => exact sound.setVal outside v var val
      · exact sound
  · exact sound

/-- A callback that is running does not call `getVal`, and while a document is loaded not
`Lookup` either. -/
def Harmless (thread : Thread Val) : Label Val → Prop
  | .use .getVal => False
  | .use (.lookup ..) => thread.loading = none
  | _ => True

section Inside

variable {thread : Thread Val} {notification : Notification Val}

theorem Sound.held_eq (sound : thread.Sound)
    (notifying : thread.notifying = some notification) :
    thread.held =
      .valMutex notification.v :: (thread.loading.map fun _ => .config).toList := by
  rw [sound.held, guards, notifying]
  rfl

theorem Sound.mem_held_iff (sound : thread.Sound)
    (notifying : thread.notifying = some notification) {call : Use Val} {mutex : Mutex}
    (locks : mutexOf notification.v call = some mutex) :
    mutex ∈ thread.held ↔ ¬thread.Harmless (.use call) := by
  rw [sound.held_eq notifying]
  cases call with
  | toString => cases locks
  | getVal =>
      cases locks
      simp [Harmless]
  | lookup kind name defaultVar description =>
      cases locks
      cases loading : thread.loading <;> simp [Harmless, loading]
  | addValChangeCB | delValChangeCB | clearValChangeCB =>
      cases locks
      cases thread.loading <;> simp [Harmless]

theorem harmless_of_mutexOf_eq_none {call : Use Val}
    (locksNone : mutexOf notification.v call = none) : thread.Harmless (.use call) := by
  cases call with
  | toString => trivial
  | getVal | addValChangeCB | delValChangeCB | clearValChangeCB | lookup => cases locksNone

theorem Sound.stay (sound : thread.Sound) (notifying : thread.notifying = some notification)
    {next : Notification Val} (same : next.v = notification.v) :
    Sound { thread with notifying := some next } := by
  constructor
  · exact sound.waits
  · change thread.held = _
    rw [sound.held_eq notifying, ← same]
    rfl

theorem Sound.proceedLoading (yaml : Yaml) (casts : (kind : Kind) → LexicalCast (Val kind))
    (sound : thread.Sound) (outside : thread.notifying = none) {left : List (Text × Node)}
    (loading : thread.loading = some left) :
    (thread.proceedLoading yaml casts left).Sound := by
  have held : thread.held = [.config] := by
    rw [sound.held, guards, outside, loading]
    rfl
  cases left with
  | nil =>
      constructor
      · exact sound.waits
      · refine (unlock_cons .config _ held).trans ?_
        simp [Thread.proceedLoading, guards, outside, unlock]
  | cons i rest =>
      have visited : Sound { thread with loading := some rest } :=
        ⟨sound.waits, by simp [guards, held, outside]⟩
      rw [Thread.proceedLoading]
      split
      · next call _ => exact visited.fromString casts outside call.1 call.2
      · exact visited

variable [DecidableEq Kind]

theorem Sound.finish (sound : thread.Sound) (notifying : thread.notifying = some notification)
    (result : Except Exception Unit) : (thread.finish notification result).Sound := by
  constructor
  · exact sound.waits
  · exact unlock_cons (.valMutex notification.v) _ (sound.held_eq notifying)

theorem Sound.proceedNotifying (sound : thread.Sound)
    (notifying : thread.notifying = some notification) :
    (thread.proceedNotifying notification).Sound := by
  rw [Thread.proceedNotifying]
  split
  · exact sound.finish notifying (.ok ())
  · exact sound.stay notifying rfl

theorem Sound.use (sound : thread.Sound) (notifying : thread.notifying = some notification)
    {call : Use Val} (harmless : thread.Harmless (.use call)) :
    (thread.use notification.v call).Sound := by
  rw [Thread.use]
  split
  · exact ⟨sound.waits, sound.held⟩
  · next mutex locks =>
      have free : mutex ∉ thread.held := fun held =>
        (sound.mem_held_iff notifying locks).mp held harmless
      rw [lock_eq free]
      exact ⟨sound.waits, (unlock_cons mutex _ rfl).trans sound.held⟩

theorem Sound.waits_use (sound : thread.Sound)
    (notifying : thread.notifying = some notification) {call : Use Val}
    (harms : ¬thread.Harmless (.use call)) :
    (thread.use notification.v call).waits ≠ none := by
  rw [Thread.use]
  split
  · next locksNone => exact absurd (harmless_of_mutexOf_eq_none locksNone) harms
  · next mutex locks =>
      rw [waits_lock ((sound.mem_held_iff notifying locks).mpr harms)]
      exact Option.some_ne_none mutex

end Inside

/-! ## Runs -/

theorem new_sound (data : Protected Val) : (Thread.new data).Sound :=
  ⟨rfl, rfl⟩

theorem isOutside_iff {thread : Thread Val} :
    thread.isOutside = true ↔ thread.loading = none ∧ thread.notifying = none := by
  simp [isOutside]

theorem notifying_of_running {thread : Thread Val} {notification : Notification Val}
    (running : thread.running = some notification) : thread.notifying = some notification :=
  (Option.filter_eq_some_iff.mp running).1

variable [DecidableEq Kind] {yaml : Yaml} {casts : (kind : Kind) → LexicalCast (Val kind)}

theorem step_use {thread next : Thread Val} {call : Use Val}
    (stepped : step yaml casts thread (.use call) = some next) :
    ∃ notification, thread.notifying = some notification ∧
      next = thread.use notification.v call := by
  simp only [step, Option.ite_none_left_eq_some, Option.map_eq_some_iff] at stepped
  rcases stepped with ⟨-, notification, running, rfl⟩
  exact ⟨notification, notifying_of_running running, rfl⟩

theorem Sound.step {thread next : Thread Val} {label : Label Val} (sound : thread.Sound)
    (harmless : thread.Harmless label)
    (stepped : Thread.step yaml casts thread label = some next) : next.Sound := by
  cases label with
  | use call =>
      rcases step_use stepped with ⟨notification, notifying, rfl⟩
      exact sound.use notifying harmless
  | setVal v kind val =>
      simp only [Thread.step, Option.ite_none_left_eq_some,
        Option.ite_none_right_eq_some, isOutside_iff, callSetVal] at stepped
      rcases stepped with ⟨-, ⟨-, outside⟩, called⟩
      split at called
      · next kindOf var _ =>
          split at called
          · cases called
            exact sound.setVal outside v var _
          · cases called
      · cases called
  | fromString v text =>
      simp only [Thread.step, Option.ite_none_left_eq_some, Option.ite_none_right_eq_some,
        isOutside_iff, Option.some.injEq] at stepped
      rcases stepped with ⟨-, ⟨-, outside⟩, rfl⟩
      exact sound.fromString casts outside v text
  | loadFromYaml root =>
      simp only [Thread.step, Option.ite_none_left_eq_some, Option.ite_none_right_eq_some,
        isOutside_iff, Option.some.injEq] at stepped
      rcases stepped with ⟨-, ⟨notLoading, outside⟩, rfl⟩
      have held : thread.held = [] := by
        rw [sound.held, guards, outside, notLoading]
        rfl
      rw [lock_eq (by simp [held])]
      exact ⟨sound.waits, by simp [guards, held, outside]⟩
  | proceed =>
      simp only [Thread.step, Option.ite_none_left_eq_some] at stepped
      rcases stepped with ⟨-, proceeded⟩
      split at proceeded
      · next notification notifying =>
          rcases Option.ite_none_left_eq_some.mp proceeded with ⟨-, isNext⟩
          cases isNext
          exact sound.proceedNotifying notifying
      · next outside =>
          rcases Option.map_eq_some_iff.mp proceeded with ⟨left, loading, rfl⟩
          exact sound.proceedLoading yaml casts outside loading
  | leave result =>
      simp only [Thread.step, Option.ite_none_left_eq_some, Option.map_eq_some_iff] at stepped
      rcases stepped with ⟨-, notification, running, rfl⟩
      have notifying := notifying_of_running running
      cases result with
      | ok value => exact sound.stay notifying rfl
      | error exception => exact sound.finish notifying (.error exception)

theorem Sound.waits_step {thread next : Thread Val} {label : Label Val} (sound : thread.Sound)
    (harms : ¬thread.Harmless label)
    (stepped : Thread.step yaml casts thread label = some next) : next.waits ≠ none := by
  cases label with
  | use call =>
      rcases step_use stepped with ⟨notification, notifying, rfl⟩
      exact sound.waits_use notifying harms
  | setVal | fromString | loadFromYaml | proceed | leave => exact absurd trivial harms

/-- No mutex is locked twice exactly as long as the callbacks call nothing that harms. -/
theorem never_waits_iff (yaml : Yaml) (casts : (kind : Kind) → LexicalCast (Val kind))
    (data : Protected Val) (labels : List (Label Val)) :
    (machine yaml casts).Always (fun thread => thread.waits = none) (.new data) labels ↔
      (machine yaml casts).StepsMeet Harmless (.new data) labels := by
  apply Machine.always_iff_stepsMeet Sound
  · intro thread label next sound _ harmless stepped
    exact sound.step harmless stepped
  · intro thread label next sound _ stepped
    constructor
    · intro waitsNot
      by_contra harms
      exact sound.waits_step harms stepped waitsNot
    · intro harmless
      exact (sound.step harmless stepped).waits
  · exact new_sound data
  · rfl

/-! ## Callbacks that use nothing -/

def loopLabels {kind : Kind} (oldVal newVal : Val kind) :
    List (Nat × Callback (Val kind)) → List (Label Val)
  | [] => [.proceed]
  | callback :: rest =>
      .proceed :: .leave (callback.2 oldVal newVal) ::
        match callback.2 oldVal newVal with
        | .ok () => loopLabels oldVal newVal rest
        | .error _ => []

theorem run_of_step {thread next : Thread Val} {label : Label Val}
    (stepped : step yaml casts thread label = some next) (labels : List (Label Val)) :
    (machine yaml casts).run thread (label :: labels) =
      (machine yaml casts).run next labels := by
  rw [Machine.run_cons]
  change (step yaml casts thread label).bind _ = _
  rw [stepped, Option.bind_some]

theorem run_loop {kind : Kind} {oldVal newVal : Val kind} {v : VarId}
    {callbacks : List (Nat × Callback (Val kind))} {thread : Thread Val}
    (waits : thread.waits = none)
    (notifying : thread.notifying = some ⟨v, kind, newVal, callbacks, false⟩) :
    (machine yaml casts).run thread (loopLabels oldVal newVal callbacks) =
      some (thread.finish ⟨v, kind, newVal, [], false⟩
        (ConfigVar.callAll oldVal newVal callbacks)) := by
  induction callbacks generalizing thread with
  | nil =>
      have ended : step yaml casts thread .proceed =
          some (thread.finish ⟨v, kind, newVal, [], false⟩ (.ok ())) := by
        simp [step, waits, notifying, proceedNotifying]
      exact run_of_step ended []
  | cons callback rest induction =>
      let inside : Thread Val :=
        { thread with notifying := some ⟨v, kind, newVal, rest, true⟩ }
      have called : step yaml casts thread .proceed = some inside := by
        simp [step, waits, notifying, proceedNotifying, inside]
      have left (result : Except Exception Unit) :
          step yaml casts inside (.leave result) =
            some (inside.leave ⟨v, kind, newVal, rest, true⟩ result) := by
        simp [step, waits, running, inside]
      rw [loopLabels, run_of_step called, run_of_step (left _), ConfigVar.callAll]
      cases callback.2 oldVal newVal with
      | ok value => exact induction waits rfl
      | error exception => rfl

/-- Where the callbacks use nothing, the steps of `setVal` come to the function. -/
theorem run_setVal {kind : Kind} {var : ConfigVar (Val kind)} {data : Protected Val} {v : VarId}
    (isVar : data.config.objects[v]? = some ⟨kind, var⟩) (val : Val kind) :
    (machine yaml casts).run (.new data)
        (.setVal v kind val :: loopLabels var.val val var.callbacks.toList) =
      some (.new
        (match var.setVal val with
        | .ok next => data.modify v fun _ => ⟨kind, next⟩
        | .error _ => data)) := by
  have called : step yaml casts (.new data) (.setVal v kind val) =
      some ((Thread.new data).setVal v var val) := by
    simp [step, Thread.new, isOutside, callSetVal, isVar]
  have started : (Thread.new data).setVal v var val =
      { Thread.new data with
        held := [.valMutex v]
        notifying := some ⟨v, kind, val, var.callbacks.toList, false⟩ } := by
    simp [Thread.setVal, Thread.new, lock, unlock]
  rw [run_of_step called, started, run_loop rfl rfl, ConfigVar.setVal]
  cases ConfigVar.callAll var.val val var.callbacks.toList with
  | ok value =>
      have assigned := Protected.assign_eq isVar val
      simp [finish, Thread.new, unlock, assigned, pure, Except.pure, bind, Except.bind]
  | error exception => simp [finish, Thread.new, unlock, bind, Except.bind]

def watched : Protected fun _ : Unit => Text where
  config := Config.empty.enter ['v'] (by decide)
    ⟨(), { name := ['v']
           description := []
           val := ['1']
           callbacks := (∅ : Ordered _).assign (0, fun _ _ => .ok ()) }⟩
  keys _ := 1

/-- Callbacks that call `getVal`, and one that calls `Lookup` while a document is loaded. -/
theorem callback_waits :
    let yaml : Yaml :=
      { load := fun text => .ok (.scalar text)
        dump := fun _ => []
        index := fun text => (String.ofList text).toNat?
        nullText := .ok "null".toList }
    let casts : Unit → LexicalCast Text := fun _ => { toText := .ok, ofText := .ok }
    (¬(machine yaml casts).Always (fun thread => thread.waits = none) (.new watched)
      [.setVal 0 () ['5'], .proceed, .use .getVal]) ∧
    ¬(machine yaml casts).Always (fun thread => thread.waits = none) (.new watched)
      [.loadFromYaml (.map [(['v'], .scalar ['5'])]), .proceed, .proceed, .proceed,
        .use (.lookup () ['v'] ['1'] [])] := by
  constructor
  · intro always
    cases Machine.Always.last always rfl
  · intro always
    cases Machine.Always.last always rfl

end Thread

end Sylar.Settings
