import Mathlib.Logic.Function.Basic
import Sylar.Foundation.Machine
import Sylar.Foundation.Ordered

/-! # Threads and their names

A `Thread` object starts a thread of the operating system in its constructor, which waits
until `run` has started on the new thread. Both write variables of the thread they run on.
-/

namespace Sylar.Threads

open Foundation

abbrev ObjectId := Nat

abbrev ThreadId := Nat

structure Thread where
  name : Text
  semaphore : Nat
  /-- The thread that constructed it. -/
  creator : ThreadId

/-- What a thread is doing: it has not reached the callback in `run`, or it waits in the
constructor of an object. -/
inductive Activity
  | starting
  | free
  | waiting (object : ObjectId)
deriving DecidableEq, Repr

structure Locals where
  currentThread : Option ObjectId
  currentThreadName : Text
  activity : Activity
  /-- The object whose `run` it executes. -/
  startedBy : Option ObjectId
  /-- The name it was constructed with, or the last that it set itself. -/
  given : Text

namespace Locals

def new (startedBy : Option ObjectId) (activity : Activity) (given : Text) : Locals where
  currentThread := none
  currentThreadName := "UNKNOW".toList
  activity := activity
  startedBy := startedBy
  given := given

def foreign : Locals :=
  new none .free "UNKNOW".toList

end Locals

structure System where
  threadCount : Nat
  threads : ThreadId → Locals
  objectCount : Nat
  objects : ObjectId → Thread

namespace System

def new (foreign : Nat) : System where
  threadCount := foreign
  threads _ := .foreign
  objectCount := 0
  objects _ := ⟨[], 0, 0⟩

def modifyThread (system : System) (t : ThreadId) (change : Locals → Locals) : System :=
  { system with threads := Function.update system.threads t (change (system.threads t)) }

def modifyObject (system : System) (object : ObjectId) (change : Thread → Thread) : System :=
  { system with
    objects := Function.update system.objects object (change (system.objects object)) }

@[simp] theorem threads_modifyThread (system : System) (t u : ThreadId)
    (change : Locals → Locals) :
    (system.modifyThread t change).threads u =
      if u = t then change (system.threads t) else system.threads u :=
  Function.update_apply ..

@[simp] theorem objects_modifyThread (system : System) (t : ThreadId)
    (change : Locals → Locals) : (system.modifyThread t change).objects = system.objects := rfl

@[simp] theorem objects_modifyObject (system : System) (object other : ObjectId)
    (change : Thread → Thread) :
    (system.modifyObject object change).objects other =
      if other = object then change (system.objects object) else system.objects other :=
  Function.update_apply ..

@[simp] theorem threads_modifyObject (system : System) (object : ObjectId)
    (change : Thread → Thread) :
    (system.modifyObject object change).threads = system.threads := rfl

/-! ## The functions -/

def getCurrentTherad (system : System) (t : ThreadId) : Option ObjectId :=
  (system.threads t).currentThread

def geCurrentName (system : System) (t : ThreadId) : Text :=
  (system.threads t).currentThreadName

def setCurrentName (system : System) (t : ThreadId) (name : Text) : System :=
  let renamed :=
    match (system.threads t).currentThread with
    | some object => system.modifyObject object fun thread => { thread with name := name }
    | none => system
  renamed.modifyThread t fun locals => { locals with currentThreadName := name }

@[simp] theorem threads_setCurrentName (system : System) (t u : ThreadId) (name : Text) :
    (system.setCurrentName t name).threads u =
      if u = t then { system.threads t with currentThreadName := name }
      else system.threads u := by
  rw [setCurrentName]
  cases (system.threads t).currentThread <;> simp

/-- `SetCurrentName` renames the object that `CurrentThread` points to. -/
@[simp] theorem objects_setCurrentName (system : System) (t : ThreadId) (name : Text)
    (object : ObjectId) :
    (system.setCurrentName t name).objects object =
      if (system.threads t).currentThread = some object then
        { system.objects object with name := name }
      else system.objects object := by
  rw [setCurrentName]
  cases current : (system.threads t).currentThread with
  | none => simp
  | some renamed => by_cases same : object = renamed <;> simp [same, eq_comm]

@[simp] theorem counts_setCurrentName (system : System) (t : ThreadId) (name : Text) :
    (system.setCurrentName t name).threadCount = system.threadCount ∧
      (system.setCurrentName t name).objectCount = system.objectCount := by
  rw [setCurrentName]
  cases (system.threads t).currentThread <;> exact ⟨rfl, rfl⟩

def construct (system : System) (t : ThreadId) (name : Text) (created : Bool) : System :=
  let object := system.objectCount
  -- An empty name leaves `name_` empty, too.
  let entered :=
    { system with
      objectCount := object + 1
      objects := Function.update system.objects object ⟨name, 0, t⟩ }.modifyThread t
      fun locals =>
        { locals with
          currentThread := some object
          currentThreadName := if name = [] then locals.currentThreadName else name
          activity := .waiting object }
  -- Where `pthread_create` fails, the constructor waits all the same.
  if created then
    { entered with
      threadCount := system.threadCount + 1
      threads := Function.update entered.threads system.threadCount
        (.new (some object) .starting name) }
  else entered

@[simp] theorem threads_construct (system : System) (t u : ThreadId) (name : Text)
    (created : Bool) :
    (system.construct t name created).threads u =
      if created = true ∧ u = system.threadCount then
        .new (some system.objectCount) .starting name
      else if u = t then
        { system.threads t with
          currentThread := some system.objectCount
          currentThreadName := if name = [] then (system.threads t).currentThreadName else name
          activity := .waiting system.objectCount }
      else system.threads u := by
  rw [construct]
  cases created <;> simp [Function.update_apply]

@[simp] theorem objects_construct (system : System) (t : ThreadId) (name : Text)
    (created : Bool) (object : ObjectId) :
    (system.construct t name created).objects object =
      if object = system.objectCount then ⟨name, 0, t⟩ else system.objects object := by
  rw [construct]
  cases created <;> simp [Function.update_apply]

@[simp] theorem objectCount_construct (system : System) (t : ThreadId) (name : Text)
    (created : Bool) :
    (system.construct t name created).objectCount = system.objectCount + 1 := by
  cases created <;> rfl

@[simp] theorem threadCount_construct (system : System) (t : ThreadId) (name : Text)
    (created : Bool) :
    (system.construct t name created).threadCount = system.threadCount + created.toNat := by
  cases created <;> rfl

def run (system : System) (t : ThreadId) (object : ObjectId) : System :=
  ((system.setCurrentName t (system.objects object).name).modifyObject object fun thread =>
    { thread with semaphore := thread.semaphore + 1 }).modifyThread t fun locals =>
      { locals with activity := .free }

/-- `semaphore_.wait()` returns, and with it the constructor. -/
def constructed (system : System) (t : ThreadId) (object : ObjectId) : System :=
  (system.modifyObject object fun thread =>
    { thread with semaphore := thread.semaphore - 1 }).modifyThread t fun locals =>
      { locals with activity := .free }

/-! ## Steps -/

inductive Label
  | construct (t : ThreadId) (name : Text) (created : Bool)
  | run (t : ThreadId)
  | constructed (t : ThreadId)
  | setCurrentName (t : ThreadId) (name : Text)
deriving DecidableEq, Repr

namespace Label

def thread : Label → ThreadId
  | .construct t _ _ | .run t | .constructed t | .setCurrentName t _ => t

def constructs : Label → Bool
  | .construct .. | .constructed _ => true
  | .run _ | .setCurrentName .. => false

end Label

def IsFree (system : System) (t : ThreadId) : Prop :=
  t < system.threadCount ∧ (system.threads t).activity = .free

instance (system : System) (t : ThreadId) : Decidable (system.IsFree t) :=
  inferInstanceAs (Decidable (_ ∧ _))

def step (system : System) : Label → Option System
  | .construct t name created =>
      if system.IsFree t then some (system.construct t name created) else none
  | .run t =>
      match (system.threads t).activity, (system.threads t).startedBy with
      | .starting, some object => some (system.run t object)
      | _, _ => none
  | .constructed t =>
      match (system.threads t).activity with
      | .waiting object =>
          if 0 < (system.objects object).semaphore then some (system.constructed t object)
          else none
      | _ => none
  | .setCurrentName t name =>
      if system.IsFree t then
        some ((system.setCurrentName t name).modifyThread t fun locals =>
          { locals with given := name })
      else none

def machine : Machine System Label where
  step := step

inductive Steps (system : System) : Label → System → Prop
  | construct {t : ThreadId} {name : Text} {created : Bool} (free : system.IsFree t) :
      Steps system (.construct t name created) (system.construct t name created)
  | run {t : ThreadId} {object : ObjectId}
      (isStarting : (system.threads t).activity = .starting)
      (startedBy : (system.threads t).startedBy = some object) :
      Steps system (.run t) (system.run t object)
  | constructed {t : ThreadId} {object : ObjectId}
      (waiting : (system.threads t).activity = .waiting object)
      (notified : 0 < (system.objects object).semaphore) :
      Steps system (.constructed t) (system.constructed t object)
  | setCurrentName {t : ThreadId} {name : Text} (free : system.IsFree t) :
      Steps system (.setCurrentName t name)
        ((system.setCurrentName t name).modifyThread t fun locals =>
          { locals with given := name })

theorem step_eq_some {system next : System} {label : Label}
    (stepped : system.step label = some next) : Steps system label next := by
  cases label with
  | construct t name created =>
      rcases Option.ite_none_right_eq_some.mp stepped with ⟨free, isNext⟩
      cases isNext
      exact .construct free
  | run t =>
      rw [step] at stepped
      split at stepped
      · next object isStarting startedBy =>
          cases stepped
          exact .run isStarting startedBy
      · cases stepped
  | constructed t =>
      rw [step] at stepped
      split at stepped
      · next object waiting =>
          rcases Option.ite_none_right_eq_some.mp stepped with ⟨notified, isNext⟩
          cases isNext
          exact .constructed waiting notified
      · cases stepped
  | setCurrentName t name =>
      rcases Option.ite_none_right_eq_some.mp stepped with ⟨free, isNext⟩
      cases isNext
      exact .setCurrentName free

end System

end Sylar.Threads
