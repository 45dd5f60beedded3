import Sylar.Threads.Thread

/-! # A `Thread` object and its thread

The constructor waits until `run` has taken the callback out of the object, so whoever
owns the object may destroy it while its thread goes on. `join` tests `threadId_`, waits,
and sets it to zero; each of these is an operation of its own here.
-/

namespace Sylar.Threads.Lifetime

/-! ## Objects -/

/-- A thread of the operating system: one that no `Thread` object started, or the thread
of an object. -/
inductive Caller
  | foreign (number : Nat)
  | of (object : ObjectId)
deriving DecidableEq, Repr

/-- Where the thread of an object is in `run`. It is absent if `pthread_create` failed. -/
inductive Progress (Callback : Type)
  | absent
  | entered
  /-- `SetCurrentName(thread_->name_)` has been called. -/
  | renamed
  /-- `pthread_setname_np` has read `threadId_`. -/
  | labelled
  /-- `cb.swap(thread_->cb_)` has been called. -/
  | swapped (cb : Option Callback)
  | notified (cb : Option Callback)
  | calling (cb : Callback)
  | ended

inductive Stage
  | constructing
  | constructed
  | destroyed
deriving DecidableEq, Repr

inductive Release
  | joined
  | detached
  /-- `pthread_join` failed, and `threadId_` is set to zero all the same. -/
  | lost
  /-- `pthread_join` for the thread number zero, or for a thread joined or detached before. -/
  | misused
deriving DecidableEq, Repr

/-- Where a thread is in `join`. -/
inductive Join
  /-- It has found `threadId_` not to be zero. -/
  | tested
  /-- It is in `pthread_join`. -/
  | blocked
  /-- It is about to set `threadId_` to zero. -/
  | returned
deriving DecidableEq, Repr

/-- An object and the thread it has started. What it was given, what has been called and
what became of the thread is kept to speak about runs. -/
structure Object (Callback : Type) where
  creator : Caller
  /-- `threadId_` is not zero. -/
  threadId : Bool
  cb : Option Callback
  semaphore : Nat := 0
  stage : Stage := .constructing
  progress : Progress Callback
  given : Callback
  called : List Callback := []
  releases : List Release := []

namespace Object

variable {Callback : Type}

def construct (creator : Caller) (cb : Callback) (created : Bool) : Object Callback where
  creator := creator
  threadId := created
  cb := some cb
  progress := if created then .entered else .absent
  given := cb

/-- `semaphore_.wait()` returns. -/
def wake (object : Object Callback) : Option (Object Callback) :=
  if 0 < object.semaphore then
    some { object with semaphore := object.semaphore - 1, stage := .constructed }
  else none

def run (object : Object Callback) : Option (Object Callback) :=
  match object.progress with
  | .entered => some { object with progress := .renamed }
  | .renamed => some { object with progress := .labelled }
  | .labelled => some { object with cb := none, progress := .swapped object.cb }
  | .swapped cb =>
      some { object with progress := .notified cb, semaphore := object.semaphore + 1 }
  | .notified (some cb) =>
      some { object with progress := .calling cb, called := object.called ++ [cb] }
  | .calling _ => some { object with progress := .ended }
  | .absent | .notified none | .ended => none

def inRun (object : Object Callback) : Bool :=
  match object.progress with
  | .entered | .renamed | .labelled | .swapped _ => true
  | .absent | .notified _ | .calling _ | .ended => false

/-- The test at the beginning of `join`. -/
def join (object : Object Callback) : Join :=
  if object.threadId then .tested else .returned

/-- The call of `pthread_join`, which reads `threadId_` again. -/
def pthreadJoin (object : Object Callback) : Object Callback × Join :=
  if object.threadId then (object, .blocked)
  else ({ object with releases := object.releases ++ [.misused] }, .returned)

/-- `pthread_join` returns: without an error only when the thread has ended, and never to
the thread itself. -/
def joined (own ok : Bool) (object : Object Callback) : Option (Object Callback) :=
  if .joined ∈ object.releases ∨ .detached ∈ object.releases then
    some { object with releases := object.releases ++ [.misused] }
  else if ok then
    if own then none
    else
      match object.progress with
      | .ended => some { object with releases := object.releases ++ [.joined] }
      | _ => none
  else some { object with releases := object.releases ++ [.lost] }

def clearId (object : Object Callback) : Object Callback :=
  { object with threadId := false }

def destroy (object : Object Callback) : Object Callback :=
  if object.threadId then
    { object with stage := .destroyed, releases := object.releases ++ [.detached] }
  else { object with stage := .destroyed }

/-! ### What an object and its thread agree on -/

inductive Past (object : Object Callback) : Prop
  | notified (progress : object.progress = .notified (some object.given))
      (called : object.called = [])
  | calling (progress : object.progress = .calling object.given)
      (called : object.called = [object.given])
  | ended (progress : object.progress = .ended) (called : object.called = [object.given])

structure Released (object : Object Callback) (how : Release) : Prop where
  releases : object.releases = [how]
  joined : how = .joined → object.progress = .ended
  notMisused : how ≠ .misused

inductive Sound (object : Object Callback) : Prop
  | failed (stage : object.stage = .constructing) (progress : object.progress = .absent)
      (semaphore : object.semaphore = 0) (called : object.called = [])
      (releases : object.releases = [])
  | starting (stage : object.stage = .constructing)
      (progress : object.progress = .entered ∨ object.progress = .renamed ∨
        object.progress = .labelled)
      (threadId : object.threadId = true) (cb : object.cb = some object.given)
      (semaphore : object.semaphore = 0) (called : object.called = [])
      (releases : object.releases = [])
  | swapped (stage : object.stage = .constructing)
      (progress : object.progress = .swapped (some object.given))
      (threadId : object.threadId = true) (cb : object.cb = none)
      (semaphore : object.semaphore = 0) (called : object.called = [])
      (releases : object.releases = [])
  | notified (stage : object.stage = .constructing) (past : object.Past)
      (threadId : object.threadId = true) (cb : object.cb = none)
      (semaphore : object.semaphore = 1) (releases : object.releases = [])
  | joinable (stage : object.stage = .constructed) (past : object.Past)
      (threadId : object.threadId = true) (cb : object.cb = none)
      (semaphore : object.semaphore = 0) (releases : object.releases = [])
  | released (how : Release) (notConstructing : object.stage ≠ .constructing)
      (past : object.Past) (cb : object.cb = none) (semaphore : object.semaphore = 0)
      (released : object.Released how)

variable {object next : Object Callback}

theorem Sound.construct (creator : Caller) (cb : Callback) (created : Bool) :
    (Object.construct creator cb created).Sound := by
  cases created with
  | false => exact .failed rfl rfl rfl rfl rfl
  | true => exact .starting rfl (Or.inl rfl) rfl rfl rfl rfl rfl

theorem Past.inRun (past : object.Past) : object.inRun = false := by
  cases past with
  | notified progress | calling progress | ended progress => rw [Object.inRun, progress]

theorem Past.keep (past : object.Past) (progress : next.progress = object.progress)
    (called : next.called = object.called) (given : next.given = object.given) : next.Past := by
  cases past with
  | notified isProgress isCalled =>
      rw [← given] at isProgress
      exact .notified (progress.trans isProgress) (called.trans isCalled)
  | calling isProgress isCalled =>
      rw [← given] at isProgress isCalled
      exact .calling (progress.trans isProgress) (called.trans isCalled)
  | ended isProgress isCalled =>
      rw [← given] at isCalled
      exact .ended (progress.trans isProgress) (called.trans isCalled)

theorem Past.run (past : object.Past) (ran : object.run = some next) :
    next.Past ∧ next.stage = object.stage ∧ next.threadId = object.threadId ∧
      next.cb = object.cb ∧ next.semaphore = object.semaphore ∧
      next.releases = object.releases ∧ (object.progress = .ended → next.progress = .ended) := by
  cases past with
  | notified progress called =>
      rw [Object.run, progress] at ran
      cases ran
      refine ⟨.calling rfl ?_, rfl, rfl, rfl, rfl, rfl, ?_⟩
      · rw [called]
        rfl
      · rw [progress]
        simp
  | calling progress called =>
      rw [Object.run, progress] at ran
      cases ran
      exact ⟨.ended rfl called, rfl, rfl, rfl, rfl, rfl, fun _ => rfl⟩
  | ended progress called =>
      rw [Object.run, progress] at ran
      cases ran

theorem Sound.run (sound : object.Sound) (ran : object.run = some next) : next.Sound := by
  cases sound with
  | failed stage progress semaphore called releases =>
      rw [Object.run, progress] at ran
      cases ran
  | starting stage progress threadId cb semaphore called releases =>
      rcases progress with progress | progress | progress
      · rw [Object.run, progress] at ran
        cases ran
        exact .starting stage (Or.inr (Or.inl rfl)) threadId cb semaphore called releases
      · rw [Object.run, progress] at ran
        cases ran
        exact .starting stage (Or.inr (Or.inr rfl)) threadId cb semaphore called releases
      · rw [Object.run, progress] at ran
        cases ran
        exact .swapped stage (congrArg Progress.swapped cb) threadId rfl semaphore called releases
  | swapped stage progress threadId cb semaphore called releases =>
      rw [Object.run, progress] at ran
      cases ran
      exact .notified stage (.notified rfl called) threadId cb
        (congrArg (· + 1) semaphore) releases
  | notified stage past threadId cb semaphore releases =>
      rcases past.run ran with ⟨pastAfter, sameStage, sameId, sameCb, sameCount, same, -⟩
      exact .notified (sameStage.trans stage) pastAfter (sameId.trans threadId)
        (sameCb.trans cb) (sameCount.trans semaphore) (same.trans releases)
  | joinable stage past threadId cb semaphore releases =>
      rcases past.run ran with ⟨pastAfter, sameStage, sameId, sameCb, sameCount, same, -⟩
      exact .joinable (sameStage.trans stage) pastAfter (sameId.trans threadId)
        (sameCb.trans cb) (sameCount.trans semaphore) (same.trans releases)
  | released how notConstructing past cb semaphore released =>
      rcases past.run ran with ⟨pastAfter, sameStage, sameId, sameCb, sameCount, same, ended⟩
      refine .released how (by rwa [sameStage]) pastAfter (sameCb.trans cb)
        (sameCount.trans semaphore) ⟨same.trans released.releases, ?_, released.notMisused⟩
      exact fun isJoined => ended (released.joined isJoined)

theorem Sound.wake (sound : object.Sound) (constructing : object.stage = .constructing)
    (woken : object.wake = some next) : next.Sound ∧ next.stage = .constructed := by
  rcases Option.ite_none_right_eq_some.mp woken with ⟨notified, isNext⟩
  cases isNext
  refine ⟨?_, rfl⟩
  cases sound with
  | failed _ _ semaphore | starting _ _ _ _ semaphore | swapped _ _ _ _ semaphore =>
      rw [semaphore] at notified
      cases notified
  | notified stage past threadId cb semaphore releases =>
      exact .joinable rfl (past.keep rfl rfl rfl) threadId cb (by simp [semaphore]) releases
  | joinable stage =>
      rw [constructing] at stage
      cases stage
  | released how notConstructing => exact absurd constructing notConstructing

theorem Sound.joined (sound : object.Sound) (constructed : object.stage = .constructed)
    (notReleased : object.releases = []) {own ok : Bool}
    (joins : object.joined own ok = some next) :
    next.Sound ∧ next.stage = object.stage ∧ next.progress = object.progress ∧
      next.creator = object.creator ∧ next.releases ≠ [] := by
  rw [Object.joined, if_neg (by simp [notReleased])] at joins
  cases sound with
  | failed stage | starting stage | swapped stage | notified stage =>
      rw [constructed] at stage
      cases stage
  | released how _ _ _ _ released =>
      rw [released.releases] at notReleased
      cases notReleased
  | joinable stage past threadId cb semaphore releases =>
      have notConstructing : object.stage ≠ .constructing := by simp [stage]
      split at joins
      · split at joins
        · cases joins
        · cases ended : object.progress with
          | ended =>
              simp only [ended] at joins
              cases joins
              refine ⟨.released .joined notConstructing (past.keep ended.symm rfl rfl) cb
                semaphore ?_, rfl, rfl, rfl, by simp⟩
              exact ⟨by simp [releases], fun _ => rfl, by simp⟩
          | absent | entered | renamed | labelled | swapped | notified | calling =>
              simp only [ended] at joins
              cases joins
      · cases joins
        refine ⟨.released .lost notConstructing (past.keep rfl rfl rfl) cb semaphore ?_, rfl, rfl,
          rfl, by simp⟩
        exact ⟨by simp [releases], by simp, by simp⟩

theorem Sound.clearId (sound : object.Sound) (constructed : object.stage = .constructed)
    (isReleased : object.releases ≠ []) : object.clearId.Sound := by
  cases sound with
  | failed stage | starting stage | swapped stage | notified stage =>
      rw [constructed] at stage
      cases stage
  | joinable _ _ _ _ _ releases => exact absurd releases isReleased
  | released how notConstructing past cb semaphore released =>
      exact .released how notConstructing (past.keep rfl rfl rfl) cb semaphore
        ⟨released.releases, released.joined, released.notMisused⟩

theorem Sound.destroy (sound : object.Sound) (constructed : object.stage = .constructed)
    (cleared : object.releases ≠ [] → object.threadId = false) :
    object.destroy.Sound ∧ object.destroy.progress = object.progress := by
  cases sound with
  | failed stage | starting stage | swapped stage | notified stage =>
      rw [constructed] at stage
      cases stage
  | joinable stage past threadId cb semaphore releases =>
      rw [Object.destroy, if_pos threadId]
      refine ⟨.released .detached (by simp) (past.keep rfl rfl rfl) cb semaphore ?_, rfl⟩
      exact ⟨by simp [releases], by simp, by simp⟩
  | released how notConstructing past cb semaphore released =>
      rw [Object.destroy, if_neg (by simp [cleared, released.releases])]
      refine ⟨.released how (by simp) (past.keep rfl rfl rfl) cb semaphore ?_, rfl⟩
      exact ⟨released.releases, released.joined, released.notMisused⟩

theorem Sound.releases_of_constructing (sound : object.Sound)
    (constructing : object.stage = .constructing) : object.releases = [] := by
  cases sound with
  | failed _ _ _ _ releases | starting _ _ _ _ _ _ releases | swapped _ _ _ _ _ _ releases
  | notified _ _ _ _ _ releases | joinable _ _ _ _ _ releases => exact releases
  | released how notConstructing => exact absurd constructing notConstructing

theorem Sound.threadId (sound : object.Sound) (constructed : object.stage = .constructed)
    (notReleased : object.releases = []) : object.threadId = true := by
  cases sound with
  | failed stage | starting stage | swapped stage | notified stage =>
      rw [constructed] at stage
      cases stage
  | joinable _ _ threadId => exact threadId
  | released how _ _ _ _ released =>
      rw [released.releases] at notReleased
      cases notReleased

theorem Sound.constructing_of_inRun (sound : object.Sound) (needed : object.inRun = true) :
    object.stage = .constructing := by
  cases sound with
  | failed stage | starting stage | swapped stage | notified stage => exact stage
  | joinable _ past | released _ _ past =>
      rw [past.inRun] at needed
      cases needed

structure GivenUp (object : Object Callback) : Prop where
  /-- It is not joined before it has ended. -/
  joined : .joined ∈ object.releases → object.progress = .ended
  /-- It is joined or detached at most once, and once the object is gone exactly once, unless
  a `pthread_join` has failed. -/
  once : object.releases.count .joined + object.releases.count .detached ≤ 1
  gone : object.stage = .destroyed →
    (object.releases.count .joined + object.releases.count .detached = 1 ↔
      .lost ∉ object.releases)
  notMisused : .misused ∉ object.releases

theorem GivenUp.of_nil (releases : object.releases = [])
    (notDestroyed : object.stage ≠ .destroyed) : object.GivenUp where
  joined := by simp [releases]
  once := by simp [releases]
  gone destroyed := absurd destroyed notDestroyed
  notMisused := by simp [releases]

theorem Released.givenUp {how : Release} (released : object.Released how) :
    object.GivenUp where
  joined isJoined := by
    rw [released.releases, List.mem_singleton] at isJoined
    exact released.joined isJoined.symm
  once := by
    rw [released.releases]
    cases how <;> decide
  gone _ := by
    rw [released.releases]
    have notMisused := released.notMisused
    cases how with
    | misused => exact absurd rfl notMisused
    | joined | detached | lost => decide
  notMisused := by
    rw [released.releases, List.mem_singleton]
    exact released.notMisused.symm

structure Kept (object : Object Callback) : Prop extends GivenUp object where
  /-- Once the constructor has returned, `run` has let go of the object, with the callback
  in its own hand. -/
  letGo : object.stage ≠ .constructing → object.inRun = false ∧ object.cb = none
  /-- The callback that was passed is called at most once, and no other is. -/
  called : object.called = [] ∨ object.called = [object.given]
  ended : object.progress = .ended → object.called = [object.given]
  /-- Where `pthread_create` has failed, the constructor never returns. -/
  failed : object.progress = .absent → object.stage = .constructing ∧ object.wake = none

theorem Past.kept (past : object.Past) (cb : object.cb = none) (givenUp : object.GivenUp) :
    object.Kept where
  letGo _ := ⟨past.inRun, cb⟩
  called := by
    cases past with
    | notified _ called => exact Or.inl called
    | calling _ called | ended _ called => exact Or.inr called
  ended isEnded := by
    cases past with
    | notified progress | calling progress =>
        rw [progress] at isEnded
        cases isEnded
    | ended _ called => exact called
  failed absent := by
    cases past with
    | notified progress | calling progress | ended progress =>
        rw [progress] at absent
        cases absent
  toGivenUp := givenUp

theorem Sound.kept (sound : object.Sound) : object.Kept := by
  cases sound with
  | failed stage progress semaphore called releases =>
      exact ⟨.of_nil releases (by simp [stage]), fun other => absurd stage other,
        Or.inl called, by simp [progress], fun _ => ⟨stage, by simp [Object.wake, semaphore]⟩⟩
  | starting stage progress threadId cb semaphore called releases =>
      refine ⟨.of_nil releases (by simp [stage]), fun other => absurd stage other,
        Or.inl called, ?_, ?_⟩
      · rcases progress with progress | progress | progress <;> simp [progress]
      · rcases progress with progress | progress | progress <;> simp [progress]
  | swapped stage progress threadId cb semaphore called releases =>
      exact ⟨.of_nil releases (by simp [stage]), fun other => absurd stage other,
        Or.inl called, by simp [progress], by simp [progress]⟩
  | notified stage past threadId cb semaphore releases =>
      exact past.kept cb (.of_nil releases (by simp [stage]))
  | joinable stage past threadId cb semaphore releases =>
      exact past.kept cb (.of_nil releases (by simp [stage]))
  | released how notConstructing past cb semaphore released =>
      exact past.kept cb released.givenUp

end Object

end Sylar.Threads.Lifetime
