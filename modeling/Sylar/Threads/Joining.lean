import Mathlib.Logic.Function.Basic
import Sylar.Threads.Lifetime

/-! # How long a `Thread` object is needed

Threads construct, join and destroy objects, and come in between one another; also between
the test in `join`, the call of `pthread_join` and the reset of `threadId_`.
`CurrentThread` of the thread that constructed an object is not told when it is destroyed.
-/

namespace Sylar.Threads.Lifetime

open Foundation

/-- All objects that there have been, and the threads: whose constructor or whose `join` a
thread is in, and its `CurrentThread`. -/
structure Pool (Callback : Type) where
  objects : ObjectId → Option (Object Callback) := fun _ => none
  waiting : Caller → Option ObjectId := fun _ => none
  joining : Caller → Option (ObjectId × Join) := fun _ => none
  currentThread : Caller → Option ObjectId := fun _ => none

inductive Label (Callback : Type)
  | construct (t : Caller) (object : ObjectId) (cb : Callback) (created : Bool)
  | wake (t : Caller)
  | run (object : ObjectId)
  | setCurrentName (t : Caller)
  | join (t : Caller) (object : ObjectId)
  | pthreadJoin (t : Caller)
  | joined (t : Caller) (ok : Bool)
  | clearId (t : Caller)
  | destroy (t : Caller) (object : ObjectId)

namespace Pool

variable {Callback : Type}

def setObject (pool : Pool Callback) (object : ObjectId) (next : Object Callback) :
    Pool Callback :=
  { pool with objects := Function.update pool.objects object (some next) }

/-- The thread runs code of its own: it is in no constructor and no `join`, and not in `run`
but inside the callback. -/
def isFree (pool : Pool Callback) (t : Caller) : Bool :=
  (pool.waiting t).isNone && (pool.joining t).isNone &&
    match t with
    | .foreign _ => true
    | .of object =>
        match (pool.objects object).map Object.progress with
        | some (.calling _) => true
        | _ => false

def constructed (pool : Pool Callback) (object : ObjectId) : Option (Object Callback) :=
  (pool.objects object).filter fun found => found.stage = .constructed

/-- Only objects that are constructed are joined and destroyed. -/
def step (pool : Pool Callback) : Label Callback → Option (Pool Callback)
  | .construct t object cb created =>
      if pool.isFree t = true ∧ (pool.objects object).isNone = true then
        some
          { (pool.setObject object (.construct t cb created)) with
            waiting := Function.update pool.waiting t (some object)
            currentThread := Function.update pool.currentThread t (some object) }
      else none
  | .wake t => do
      let object ← pool.waiting t
      let found ← pool.objects object
      let next ← found.wake
      pure
        { (pool.setObject object next) with
          waiting := Function.update pool.waiting t none }
  | .run object =>
      if (pool.waiting (.of object)).isNone ∧ (pool.joining (.of object)).isNone then do
        let found ← pool.objects object
        let next ← found.run
        pure (pool.setObject object next)
      else none
  | .setCurrentName t => if pool.isFree t then some pool else none
  | .join t object =>
      if pool.isFree t then do
        let found ← pool.constructed object
        pure { pool with joining := Function.update pool.joining t (some (object, found.join)) }
      else none
  | .pthreadJoin t =>
      match pool.joining t with
      | some (object, .tested) => do
          let found ← pool.objects object
          pure
            { (pool.setObject object found.pthreadJoin.1) with
              joining := Function.update pool.joining t (some (object, found.pthreadJoin.2)) }
      | _ => none
  | .joined t ok =>
      match pool.joining t with
      | some (object, .blocked) => do
          let found ← pool.objects object
          let next ← found.joined (t = .of object) ok
          pure
            { (pool.setObject object next) with
              joining := Function.update pool.joining t (some (object, .returned)) }
      | _ => none
  | .clearId t =>
      match pool.joining t with
      | some (object, .returned) => do
          let found ← pool.objects object
          pure
            { (pool.setObject object found.clearId) with
              joining := Function.update pool.joining t none }
      | _ => none
  | .destroy t object =>
      if pool.isFree t then do
        let found ← pool.constructed object
        pure (pool.setObject object found.destroy)
      else none

def machine : Machine (Pool Callback) (Label Callback) where
  step := step

/-- The objects that a step reads or writes, but for a new one. `SetCurrentName` renames
the object of `CurrentThread`, and `run` calls it, too. -/
def touched (pool : Pool Callback) : Label Callback → List ObjectId
  | .construct .. => []
  | .wake t => (pool.waiting t).toList
  | .run object =>
      match (pool.objects object).map Object.progress with
      | some .entered => object :: (pool.currentThread (.of object)).toList
      | some .renamed | some .labelled | some (.swapped _) => [object]
      | _ => []
  | .setCurrentName t => (pool.currentThread t).toList
  | .join _ object | .destroy _ object => [object]
  | .pthreadJoin t | .clearId t => ((pool.joining t).map Prod.fst).toList
  -- The message about the error names the object.
  | .joined t ok => if ok then [] else ((pool.joining t).map Prod.fst).toList

def Alive (pool : Pool Callback) (object : ObjectId) : Prop :=
  ∃ found, pool.objects object = some found ∧ found.stage ≠ .destroyed

/-! ## Steps -/

def Started (found : Object Callback) : Prop :=
  (∃ cb, found.progress = .calling cb) ∨ found.progress = .ended

def Pending (found : Object Callback) : Join → Prop
  | .tested | .blocked => found.releases = []
  | .returned => found.releases ≠ []

structure Joins (pool : Pool Callback) : Prop where
  joining : ∀ t object stage, pool.joining t = some (object, stage) →
    ∃ found, pool.objects object = some found ∧ found.stage = .constructed ∧
      Pending found stage
  alone : ∀ t u object stage other, pool.joining t = some (object, stage) →
    pool.joining u = some (object, other) → t = u
  /-- Where the thread has been given up, its number is cleared before `join` is left. -/
  cleared : ∀ object found, pool.objects object = some found → found.stage = .constructed →
    found.releases ≠ [] → found.threadId = false ∨ ∃ t, pool.joining t = some (object, .returned)

structure Sound (pool : Pool Callback) : Prop where
  objects : ∀ object found, pool.objects object = some found → found.Sound
  /-- A thread waits in the constructor of an object of its own. -/
  waiting : ∀ t object, pool.waiting t = some object →
    ∃ found, pool.objects object = some found ∧ found.stage = .constructing ∧ found.creator = t
  /-- Until it is inside the callback, a thread constructs nothing. -/
  fresh : ∀ object, pool.waiting (.of object) ≠ none ∨ pool.currentThread (.of object) ≠ none →
    ∃ found, pool.objects object = some found ∧ Started found

variable {pool next : Pool Callback}

theorem Sound.begin : ({} : Pool Callback).Sound where
  objects object found isFound := by cases isFound
  waiting t object isWaiting := by cases isWaiting
  fresh object busy := by simp at busy

theorem started_of_isFree {object : ObjectId} (free : pool.isFree (.of object) = true) :
    ∃ found, pool.objects object = some found ∧ Started found := by
  rw [isFree, Bool.and_eq_true] at free
  cases isFound : pool.objects object with
  | none =>
      rw [isFound] at free
      cases free.2
  | some found =>
      rw [isFound] at free
      refine ⟨found, rfl, Or.inl ?_⟩
      cases progress : found.progress with
      | calling cb => exact ⟨cb, rfl⟩
      | absent | entered | renamed | labelled | swapped | notified | ended =>
          simp [progress] at free

theorem started_run {found after : Object Callback} (started : Started found)
    (ran : found.run = some after) : Started after := by
  rcases started with ⟨cb, progress⟩ | progress
  · rw [Object.run, progress] at ran
    cases ran
    exact Or.inr rfl
  · rw [Object.run, progress] at ran
    cases ran

theorem run_kept {found after : Object Callback} (ran : found.run = some after) :
    after.stage = found.stage ∧ after.creator = found.creator ∧
      after.releases = found.releases ∧ after.threadId = found.threadId := by
  rw [Object.run] at ran
  split at ran <;> cases ran <;> exact ⟨rfl, rfl, rfl, rfl⟩

theorem objects_setObject (pool : Pool Callback) (object other : ObjectId)
    (found : Object Callback) : (pool.setObject object found).objects other =
      if other = object then some found else pool.objects other :=
  Function.update_apply ..

theorem Sound.setObject (sound : pool.Sound) {object : ObjectId}
    {found after : Object Callback} (isFound : pool.objects object = some found)
    (afterSound : after.Sound) (waited : ∀ t, pool.waiting t = some object →
      after.stage = .constructing ∧ after.creator = t)
    (started : Started found → Started after) : (pool.setObject object after).Sound where
  objects other otherFound isOther := by
    rw [objects_setObject] at isOther
    split at isOther
    · cases isOther
      exact afterSound
    · exact sound.objects other otherFound isOther
  waiting t other isWaiting := by
    rw [objects_setObject]
    split
    · next same =>
        subst same
        exact ⟨after, rfl, waited t isWaiting⟩
    · exact sound.waiting t other isWaiting
  fresh other busy := by
    rcases sound.fresh other busy with ⟨otherFound, isOther, isStarted⟩
    rw [objects_setObject]
    split
    · next same =>
        subst same
        cases isFound.symm.trans isOther
        exact ⟨after, rfl, started isStarted⟩
    · exact ⟨otherFound, isOther, isStarted⟩

theorem Sound.not_waited (sound : pool.Sound) {object : ObjectId} {found : Object Callback}
    (isFound : pool.objects object = some found) (constructed : found.stage = .constructed)
    (t : Caller) : pool.waiting t ≠ some object := by
  intro isWaiting
  rcases sound.waiting t object isWaiting with ⟨other, isOther, constructing, -⟩
  cases isFound.symm.trans isOther
  rw [constructed] at constructing
  cases constructing

theorem Sound.construct (sound : pool.Sound) {t : Caller} {object : ObjectId}
    (free : pool.isFree t = true) (isNew : pool.objects object = none) (cb : Callback)
    (created : Bool) :
    Sound { (pool.setObject object (.construct t cb created)) with
      waiting := Function.update pool.waiting t (some object)
      currentThread := Function.update pool.currentThread t (some object) } where
  objects other found isOther := by
    rw [objects_setObject] at isOther
    split at isOther
    · cases isOther
      exact .construct t cb created
    · exact sound.objects other found isOther
  waiting u other isWaiting := by
    rw [objects_setObject]
    by_cases isCreator : u = t
    · subst isCreator
      cases (Function.update_self ..).symm.trans isWaiting
      exact ⟨_, if_pos rfl, rfl, rfl⟩
    · dsimp only at isWaiting
      rw [Function.update_of_ne isCreator] at isWaiting
      rcases sound.waiting u other isWaiting with ⟨found, isOther, kept⟩
      refine ⟨found, ?_, kept⟩
      rw [if_neg, isOther]
      rintro rfl
      rw [isNew] at isOther
      cases isOther
  fresh other busy := by
    have before : ∃ found, pool.objects other = some found ∧ Started found := by
      by_cases isCreator : .of other = t
      · subst isCreator
        exact started_of_isFree free
      · dsimp only at busy
        rw [Function.update_of_ne isCreator, Function.update_of_ne isCreator] at busy
        exact sound.fresh other busy
    rcases before with ⟨found, isOther, started⟩
    refine ⟨found, ?_, started⟩
    rw [objects_setObject, if_neg, isOther]
    rintro rfl
    rw [isNew] at isOther
    cases isOther

theorem Sound.wake (sound : pool.Sound) {t : Caller} {object : ObjectId}
    {found after : Object Callback} (isWaiting : pool.waiting t = some object)
    (isFound : pool.objects object = some found) (woken : found.wake = some after) :
    Sound { (pool.setObject object after) with
      waiting := Function.update pool.waiting t none } := by
  rcases sound.waiting t object isWaiting with ⟨other, isOther, constructing, creator⟩
  cases isFound.symm.trans isOther
  have awake := (sound.objects object found isFound).wake constructing woken
  have progress : after.progress = found.progress := by
    rcases Option.ite_none_right_eq_some.mp woken with ⟨-, isAfter⟩
    cases isAfter
    rfl
  constructor
  · intro other otherFound isOther
    rw [objects_setObject] at isOther
    split at isOther
    · cases isOther
      exact awake.1
    · exact sound.objects other otherFound isOther
  · intro u other isWaitingToo
    dsimp only at isWaitingToo
    have different : u ≠ t := by
      rintro rfl
      rw [Function.update_self] at isWaitingToo
      cases isWaitingToo
    rw [Function.update_of_ne different] at isWaitingToo
    rcases sound.waiting u other isWaitingToo with ⟨otherFound, isOtherFound, stage, creatorToo⟩
    refine ⟨otherFound, ?_, stage, creatorToo⟩
    rw [objects_setObject, if_neg, isOtherFound]
    rintro rfl
    cases isFound.symm.trans isOtherFound
    exact different (creatorToo.symm.trans creator)
  · intro other busy
    have before : pool.waiting (.of other) ≠ none ∨ pool.currentThread (.of other) ≠ none := by
      refine busy.imp_left fun waits isNone => waits ?_
      dsimp only
      by_cases isCaller : .of other = t
      · rw [isCaller, Function.update_self]
      · rw [Function.update_of_ne isCaller, isNone]
    rcases sound.fresh other before with ⟨otherFound, isOtherFound, started⟩
    rw [objects_setObject]
    split
    · next same =>
        subst same
        cases isFound.symm.trans isOtherFound
        refine ⟨after, rfl, ?_⟩
        rw [Started, progress]
        exact started
    · exact ⟨otherFound, isOtherFound, started⟩

theorem constructed_eq_some {object : ObjectId} {found : Object Callback}
    (isConstructed : pool.constructed object = some found) :
    pool.objects object = some found ∧ found.stage = .constructed := by
  rcases Option.filter_eq_some_iff.mp isConstructed with ⟨isFound, stage⟩
  exact ⟨isFound, of_decide_eq_true stage⟩

/-! ### Joining -/

/-- `join` and the destructor are left to one thread at a time. -/
def Careful (pool : Pool Callback) : Label Callback → Prop
  | .join _ object | .destroy _ object => ∀ t stage, pool.joining t ≠ some (object, stage)
  | .construct .. | .wake _ | .run _ | .setCurrentName _ | .pthreadJoin _ | .joined ..
  | .clearId _ => True

theorem Joins.begin : ({} : Pool Callback).Joins where
  joining t object stage isJoining := by cases isJoining
  alone t u object stage other isJoining := by cases isJoining
  cleared object found isFound := by cases isFound

theorem Joins.change (joins : pool.Joins) (sameJoining : next.joining = pool.joining)
    (forward : ∀ t object stage found, pool.joining t = some (object, stage) →
      pool.objects object = some found → found.stage = .constructed →
      ∃ after, next.objects object = some after ∧ after.stage = .constructed ∧
        after.releases = found.releases)
    (back : ∀ object after, next.objects object = some after → after.stage = .constructed →
      after.releases ≠ [] → ∃ found, pool.objects object = some found ∧
        found.stage = .constructed ∧ found.releases = after.releases ∧
        found.threadId = after.threadId) : next.Joins where
  joining t object stage isJoining := by
    rw [sameJoining] at isJoining
    rcases joins.joining t object stage isJoining with ⟨found, isFound, constructed, pending⟩
    rcases forward t object stage found isJoining isFound constructed with
      ⟨after, isAfter, constructedAfter, same⟩
    refine ⟨after, isAfter, constructedAfter, ?_⟩
    cases stage <;> simpa only [Pending, same] using pending
  alone := by
    rw [sameJoining]
    exact joins.alone
  cleared object after isAfter constructed isReleased := by
    rcases back object after isAfter constructed isReleased with
      ⟨found, isFound, wasConstructed, sameReleases, sameId⟩
    rw [sameJoining, ← sameId]
    exact joins.cleared object found isFound wasConstructed (by rwa [sameReleases])

theorem Joins.move (joins : pool.Joins) (t : Caller) (object : ObjectId)
    (after : Object Callback) (mine : Option (ObjectId × Join))
    (only : ∀ u stage, pool.joining u = some (object, stage) → u = t)
    (his : ∀ other stage, pool.joining t = some (other, stage) → other = object)
    (mineIs : ∀ other stage, mine = some (other, stage) →
      other = object ∧ Pending after stage)
    (constructed : after.stage = .constructed)
    (cleared : after.releases ≠ [] → after.threadId = false ∨ mine = some (object, .returned))
    (objectsIs : next.objects = (pool.setObject object after).objects)
    (joiningIs : next.joining = Function.update pool.joining t mine) : next.Joins := by
  -- The others are where they were, and not in `join` of this object.
  have cases : ∀ u other stage, next.joining u = some (other, stage) →
      u = t ∧ mine = some (other, stage) ∨
        u ≠ t ∧ other ≠ object ∧ pool.joining u = some (other, stage) := by
    intro u other stage isJoining
    rw [joiningIs, Function.update_apply] at isJoining
    split at isJoining
    · next same => exact Or.inl ⟨same, isJoining⟩
    · next different =>
        refine Or.inr ⟨different, ?_, isJoining⟩
        rintro rfl
        exact different (only u stage isJoining)
  constructor
  · intro u other stage isJoining
    rw [objectsIs, objects_setObject]
    rcases cases u other stage isJoining with ⟨-, isMine⟩ | ⟨-, different, before⟩
    · rcases mineIs other stage isMine with ⟨rfl, pending⟩
      exact ⟨after, if_pos rfl, constructed, pending⟩
    · rw [if_neg different]
      exact joins.joining u other stage before
  · intro u v other stage otherStage joiningU joiningV
    rcases cases u other stage joiningU with ⟨rfl, isMine⟩ | ⟨-, different, beforeU⟩
    · rcases cases v other otherStage joiningV with ⟨rfl, -⟩ | ⟨-, different, -⟩
      · rfl
      · exact absurd (mineIs other stage isMine).1 different
    · rcases cases v other otherStage joiningV with ⟨-, isMine⟩ | ⟨-, -, beforeV⟩
      · exact absurd (mineIs other otherStage isMine).1 different
      · exact joins.alone u v other stage otherStage beforeU beforeV
  · intro other found isFound wasConstructed isReleased
    rw [objectsIs, objects_setObject] at isFound
    rw [joiningIs]
    split at isFound
    · next same =>
        subst same
        cases isFound
        exact (cleared isReleased).imp_right fun isMine =>
          ⟨t, (Function.update_self ..).trans isMine⟩
    · next different =>
        refine (joins.cleared other found isFound wasConstructed isReleased).imp_right ?_
        rintro ⟨u, isJoining⟩
        refine ⟨u, (Function.update_of_ne ?_ ..).trans isJoining⟩
        rintro rfl
        exact different (his other .returned isJoining)

theorem isFree_joining {t : Caller} (free : pool.isFree t = true) : pool.joining t = none := by
  simp only [isFree, Bool.and_eq_true] at free
  exact Option.isNone_iff_eq_none.mp free.1.2

/-! ### Every step -/

structure Held (pool : Pool Callback) : Prop where
  sound : pool.Sound
  joins : pool.Joins

theorem Held.begin : ({} : Pool Callback).Held := ⟨.begin, .begin⟩

theorem Sound.setConstructed (sound : pool.Sound) {object : ObjectId}
    {found after : Object Callback} (isFound : pool.objects object = some found)
    (constructed : found.stage = .constructed) (afterSound : after.Sound)
    (progress : after.progress = found.progress) : (pool.setObject object after).Sound := by
  refine sound.setObject isFound afterSound ?_ ?_
  · exact fun t isWaiting => absurd isWaiting (sound.not_waited isFound constructed t)
  · rw [Started, Started, progress]
    exact id

theorem Sound.setJoining (sound : pool.Sound) (joining : Caller → Option (ObjectId × Join)) :
    Sound { pool with joining := joining } :=
  ⟨sound.objects, sound.waiting, sound.fresh⟩

theorem Held.construct (held : pool.Held) {t : Caller} {object : ObjectId} {cb : Callback}
    {created : Bool} (stepped : pool.step (.construct t object cb created) = some next) :
    next.Held := by
  rcases Option.ite_none_right_eq_some.mp stepped with ⟨⟨free, isNone⟩, isNext⟩
  cases isNext
  have isNew := Option.isNone_iff_eq_none.mp isNone
  refine ⟨held.sound.construct free isNew cb created, held.joins.change rfl ?_ ?_⟩
  · intro u other stage found _ isFound constructed
    refine ⟨found, ?_, constructed, rfl⟩
    rw [objects_setObject, if_neg, isFound]
    rintro rfl
    rw [isNew] at isFound
    cases isFound
  · intro other after isAfter constructed _
    rw [objects_setObject] at isAfter
    split at isAfter
    · cases isAfter
      cases constructed
    · exact ⟨after, isAfter, constructed, rfl, rfl⟩

theorem Held.wake (held : pool.Held) {t : Caller}
    (stepped : pool.step (.wake t) = some next) : next.Held := by
  rcases Option.bind_eq_some_iff.mp stepped with ⟨object, isWaiting, rest⟩
  rcases Option.bind_eq_some_iff.mp rest with ⟨found, isFound, rest⟩
  rcases Option.bind_eq_some_iff.mp rest with ⟨after, woken, isNext⟩
  cases isNext
  rcases held.sound.waiting t object isWaiting with ⟨other, isOther, constructing, -⟩
  cases isFound.symm.trans isOther
  refine ⟨held.sound.wake isWaiting isFound woken, held.joins.change rfl ?_ ?_⟩
  · intro u other stage otherFound _ isOtherFound constructed
    refine ⟨otherFound, ?_, constructed, rfl⟩
    rw [objects_setObject, if_neg, isOtherFound]
    rintro rfl
    cases isFound.symm.trans isOtherFound
    rw [constructing] at constructed
    cases constructed
  · intro other otherAfter isAfter constructed isReleased
    rw [objects_setObject] at isAfter
    split at isAfter
    · cases isAfter
      -- Nobody has given up the thread of an object under construction.
      rcases Option.ite_none_right_eq_some.mp woken with ⟨-, isWoken⟩
      cases isWoken
      have fresh := (held.sound.objects object found isFound).releases_of_constructing constructing
      exact absurd fresh isReleased
    · exact ⟨otherAfter, isAfter, constructed, rfl, rfl⟩

theorem Held.run (held : pool.Held) {object : ObjectId}
    (stepped : pool.step (.run object) = some next) : next.Held := by
  rcases Option.ite_none_right_eq_some.mp stepped with ⟨-, moved⟩
  rcases Option.bind_eq_some_iff.mp moved with ⟨found, isFound, rest⟩
  rcases Option.bind_eq_some_iff.mp rest with ⟨after, ran, isNext⟩
  cases isNext
  have kept := run_kept ran
  constructor
  · refine held.sound.setObject isFound ((held.sound.objects object found isFound).run ran) ?_
      fun started => started_run started ran
    intro t isWaiting
    rcases held.sound.waiting t object isWaiting with ⟨other, isOther, constructing, creator⟩
    cases isFound.symm.trans isOther
    exact ⟨kept.1.trans constructing, kept.2.1.trans creator⟩
  · refine held.joins.change rfl ?_ ?_
    · intro t other stage otherFound _ isOtherFound constructed
      rw [objects_setObject]
      split
      · next same =>
          subst same
          cases isFound.symm.trans isOtherFound
          exact ⟨after, rfl, kept.1.trans constructed, kept.2.2.1⟩
      · exact ⟨otherFound, isOtherFound, constructed, rfl⟩
    · intro other otherAfter isAfter constructed _
      rw [objects_setObject] at isAfter
      split at isAfter
      · next same =>
          subst same
          cases isAfter
          exact ⟨found, isFound, kept.1.symm.trans constructed, kept.2.2.1.symm, kept.2.2.2.symm⟩
      · exact ⟨otherAfter, isAfter, constructed, rfl, rfl⟩

theorem Held.join (held : pool.Held) {t : Caller} {object : ObjectId}
    (careful : pool.Careful (.join t object))
    (stepped : pool.step (.join t object) = some next) : next.Held := by
  rcases Option.ite_none_right_eq_some.mp stepped with ⟨free, moved⟩
  rcases Option.bind_eq_some_iff.mp moved with ⟨found, isConstructed, isNext⟩
  cases isNext
  rcases constructed_eq_some isConstructed with ⟨isFound, constructed⟩
  have isSound := held.sound.objects object found isFound
  refine ⟨held.sound.setJoining _, held.joins.move t object found _ ?_ ?_ ?_ constructed ?_ ?_ rfl⟩
  · exact fun u stage isJoining => absurd isJoining (careful u stage)
  · intro other stage isJoining
    rw [isFree_joining free] at isJoining
    cases isJoining
  · rintro other stage ⟨⟩
    refine ⟨rfl, ?_⟩
    rw [Object.join]
    split
    · next hasId =>
        by_contra isReleased
        rcases held.joins.cleared object found isFound constructed isReleased with
          noId | ⟨u, isJoining⟩
        · rw [noId] at hasId
          cases hasId
        · exact careful u .returned isJoining
    · next noId => exact fun notReleased => noId (isSound.threadId constructed notReleased)
  · intro isReleased
    refine (held.joins.cleared object found isFound constructed isReleased).imp_right ?_
    exact fun ⟨u, isJoining⟩ => absurd isJoining (careful u .returned)
  · funext other
    rw [objects_setObject]
    split
    · next same => rw [same, isFound]
    · rfl

theorem Held.only (held : pool.Held) {t : Caller} {object : ObjectId} {stage : Join}
    (isJoining : pool.joining t = some (object, stage)) :
    (∀ u other, pool.joining u = some (object, other) → u = t) ∧
      ∀ other otherStage, pool.joining t = some (other, otherStage) → other = object := by
  constructor
  · exact fun u other joins => (held.joins.alone t u object stage other isJoining joins).symm
  · intro other otherStage joins
    cases isJoining.symm.trans joins
    rfl

theorem Held.pthreadJoin (held : pool.Held) {t : Caller}
    (stepped : pool.step (.pthreadJoin t) = some next) : next.Held := by
  simp only [step] at stepped
  split at stepped
  · next object isJoining =>
      rcases Option.bind_eq_some_iff.mp stepped with ⟨found, isFound, isNext⟩
      rcases held.joins.joining t object .tested isJoining with
        ⟨other, isOther, constructed, notReleased⟩
      cases isFound.symm.trans isOther
      have isSound := held.sound.objects object found isFound
      have same : found.pthreadJoin = (found, .blocked) :=
        if_pos (isSound.threadId constructed notReleased)
      rw [same] at isNext
      cases isNext
      have only := held.only isJoining
      refine ⟨(held.sound.setConstructed isFound constructed isSound rfl).setJoining _,
        held.joins.move t object found _ only.1 only.2 ?_ constructed ?_ rfl rfl⟩
      · rintro other stage ⟨⟩
        exact ⟨rfl, notReleased⟩
      · exact fun isReleased => absurd notReleased isReleased
  · cases stepped

theorem Held.joined (held : pool.Held) {t : Caller} {ok : Bool}
    (stepped : pool.step (.joined t ok) = some next) : next.Held := by
  simp only [step] at stepped
  split at stepped
  · next object isJoining =>
      rcases Option.bind_eq_some_iff.mp stepped with ⟨found, isFound, rest⟩
      rcases Option.bind_eq_some_iff.mp rest with ⟨after, joined, isNext⟩
      rcases held.joins.joining t object .blocked isJoining with
        ⟨other, isOther, constructed, notReleased⟩
      cases isFound.symm.trans isOther
      cases isNext
      rcases (held.sound.objects object found isFound).joined constructed notReleased joined with
        ⟨isSound, stage, progress, -, isReleased⟩
      have only := held.only isJoining
      refine ⟨(held.sound.setConstructed isFound constructed isSound progress).setJoining _,
        held.joins.move t object after _ only.1 only.2 ?_ (stage.trans constructed)
          (fun _ => Or.inr rfl) rfl rfl⟩
      rintro other stage ⟨⟩
      exact ⟨rfl, isReleased⟩
  · cases stepped

theorem Held.clearId (held : pool.Held) {t : Caller}
    (stepped : pool.step (.clearId t) = some next) : next.Held := by
  simp only [step] at stepped
  split at stepped
  · next object isJoining =>
      rcases Option.bind_eq_some_iff.mp stepped with ⟨found, isFound, isNext⟩
      rcases held.joins.joining t object .returned isJoining with
        ⟨other, isOther, constructed, isReleased⟩
      cases isFound.symm.trans isOther
      cases isNext
      have isSound := (held.sound.objects object found isFound).clearId constructed isReleased
      have only := held.only isJoining
      refine ⟨(held.sound.setConstructed isFound constructed isSound rfl).setJoining _,
        held.joins.move t object found.clearId none only.1 only.2 nofun constructed
          (fun _ => Or.inl rfl) rfl rfl⟩
  · cases stepped

theorem Held.destroy (held : pool.Held) {t : Caller} {object : ObjectId}
    (careful : pool.Careful (.destroy t object))
    (stepped : pool.step (.destroy t object) = some next) : next.Held := by
  rcases Option.ite_none_right_eq_some.mp stepped with ⟨-, moved⟩
  rcases Option.bind_eq_some_iff.mp moved with ⟨found, isConstructed, isNext⟩
  cases isNext
  rcases constructed_eq_some isConstructed with ⟨isFound, constructed⟩
  have cleared : found.releases ≠ [] → found.threadId = false := by
    intro isReleased
    rcases held.joins.cleared object found isFound constructed isReleased with
      noId | ⟨u, isJoining⟩
    · exact noId
    · exact absurd isJoining (careful u .returned)
  have destroyed := (held.sound.objects object found isFound).destroy constructed cleared
  refine ⟨held.sound.setConstructed isFound constructed destroyed.1 destroyed.2,
    held.joins.change rfl ?_ ?_⟩
  · intro u other stage otherFound isJoining isOtherFound constructedToo
    refine ⟨otherFound, ?_, constructedToo, rfl⟩
    rw [objects_setObject, if_neg, isOtherFound]
    rintro rfl
    exact careful u stage isJoining
  · intro other after isAfter constructedAfter _
    rw [objects_setObject] at isAfter
    split at isAfter
    · cases isAfter
      rw [Object.destroy] at constructedAfter
      split at constructedAfter <;> cases constructedAfter
    · exact ⟨after, isAfter, constructedAfter, rfl, rfl⟩

theorem Held.step (held : pool.Held) {label : Label Callback} (careful : pool.Careful label)
    (stepped : pool.step label = some next) : next.Held := by
  cases label with
  | construct t object cb created => exact held.construct stepped
  | wake t => exact held.wake stepped
  | run object => exact held.run stepped
  | setCurrentName t =>
      rcases Option.ite_none_right_eq_some.mp stepped with ⟨-, isNext⟩
      cases isNext
      exact held
  | join t object => exact held.join careful stepped
  | pthreadJoin t => exact held.pthreadJoin stepped
  | joined t ok => exact held.joined stepped
  | clearId t => exact held.clearId stepped
  | destroy t object => exact held.destroy careful stepped

/-! ## Runs -/

/-- Whatever threads construct, join and destroy, and however they come in between one
another, every object keeps to what its owner relies on, as long as nobody joins or destroys
an object that another thread is joining. -/
theorem kept_always {labels : List (Label Callback)}
    (careful : machine.StepsMeet Careful ({} : Pool Callback) labels) :
    machine.Always (fun pool : Pool Callback =>
      ∀ object found, pool.objects object = some found → found.Kept) {} labels :=
  careful.always Held (fun _ _ _ held meets stepped => held.step meets stepped)
    (fun _ held object found isFound => (held.sound.objects object found isFound).kept) .begin

theorem kept_always_joined :
    let labels : List (Label Unit) :=
      [.construct (.foreign 0) 0 () true, .run 0, .run 0, .run 0, .run 0, .wake (.foreign 0),
        .join (.foreign 1) 0, .run 0, .pthreadJoin (.foreign 1), .run 0,
        .joined (.foreign 1) true, .clearId (.foreign 1), .destroy (.foreign 0) 0]
    machine.Always (fun pool : Pool Unit =>
        ∀ object found, pool.objects object = some found → found.Kept) {} labels ∧
      ∃ pool, machine.run {} labels = some pool ∧
        (pool.objects 0).map Object.stage = some .destroyed ∧
        (pool.objects 0).map Object.releases = some [.joined] := by
  intro labels
  refine ⟨kept_always ?_, _, rfl, rfl, rfl⟩
  iterate 6 apply Machine.StepsMeet.cons rfl trivial
  apply Machine.StepsMeet.cons rfl nofun
  iterate 5 apply Machine.StepsMeet.cons rfl trivial
  refine Machine.StepsMeet.cons rfl ?_ trivial
  rintro (⟨_ | _ | number⟩ | object) stage isJoining <;> cases isJoining

/-- Two threads join the same object, and `pthread_join` is called twice for one thread. -/
example :
    let labels : List (Label Unit) :=
      [.construct (.foreign 0) 0 () true, .run 0, .run 0, .run 0, .run 0, .wake (.foreign 0),
        .run 0, .run 0, .join (.foreign 0) 0, .join (.foreign 1) 0, .pthreadJoin (.foreign 0),
        .pthreadJoin (.foreign 1), .joined (.foreign 0) true, .joined (.foreign 1) true]
    ∃ pool, machine.run {} labels = some pool ∧
      (pool.objects 0).map Object.releases = some [.joined, .misused] :=
  ⟨_, rfl, rfl⟩

/-- `SetCurrentName` does not find the object of `CurrentThread` gone. -/
def Named (pool : Pool Callback) : Label Callback → Prop
  | .setCurrentName t => ∀ object, pool.currentThread t = some object → pool.Alive object
  | .construct .. | .wake _ | .run _ | .join .. | .pthreadJoin _ | .joined .. | .clearId _
  | .destroy .. => True

theorem Joins.alive (joins : pool.Joins) {t : Caller} {object : ObjectId}
    (member : object ∈ ((pool.joining t).map Prod.fst).toList) : pool.Alive object := by
  rcases Option.map_eq_some_iff.mp (Option.mem_toList.mp member) with
    ⟨⟨other, stage⟩, isJoining, rfl⟩
  rcases joins.joining t other stage isJoining with ⟨found, isFound, constructed, -⟩
  exact ⟨found, isFound, by simp [constructed]⟩

/-- In `run` a thread has not constructed anything yet, so that `SetCurrentName` finds no
other object. -/
theorem Sound.touched_run (sound : pool.Sound) {object other : ObjectId}
    {found : Object Callback} (isFound : pool.objects object = some found)
    (member : other ∈ pool.touched (.run object)) : found.inRun = true ∧ other = object := by
  have notStarted : found.inRun = true → pool.currentThread (.of object) = none := by
    intro needed
    by_contra busy
    rcases sound.fresh object (Or.inr busy) with ⟨again, isAgain, started⟩
    cases isFound.symm.trans isAgain
    rcases started with ⟨cb, progress⟩ | progress
    · simp [Object.inRun, progress] at needed
    · simp [Object.inRun, progress] at needed
  have inRun {progress : Progress Callback} (isProgress : some found.progress = some progress)
      (needs : ({ found with progress := progress } : Object Callback).inRun = true) :
      found.inRun = true := by
    rw [← Option.some.inj isProgress] at needs
    exact needs
  simp only [touched, isFound, Option.map_some] at member
  split at member
  · next progress =>
      have needed := inRun progress rfl
      rw [notStarted needed] at member
      exact ⟨needed, List.mem_singleton.mp member⟩
  · next progress => exact ⟨inRun progress rfl, List.mem_singleton.mp member⟩
  · next progress => exact ⟨inRun progress rfl, List.mem_singleton.mp member⟩
  · next progress => exact ⟨inRun progress rfl, List.mem_singleton.mp member⟩
  · cases member

theorem Held.touched_alive_iff (held : pool.Held) {label : Label Callback}
    (stepped : pool.step label = some next) :
    (∀ object ∈ pool.touched label, pool.Alive object) ↔ pool.Named label := by
  cases label with
  | construct t object cb created => simp [touched, Named]
  | setCurrentName t => simp [touched, Named]
  | wake t =>
      refine iff_of_true (fun object member => ?_) trivial
      rcases held.sound.waiting t object (Option.mem_toList.mp member) with
        ⟨found, isFound, constructing, -⟩
      exact ⟨found, isFound, by simp [constructing]⟩
  | run object =>
      refine iff_of_true (fun other member => ?_) trivial
      rcases Option.ite_none_right_eq_some.mp stepped with ⟨-, moved⟩
      rcases Option.bind_eq_some_iff.mp moved with ⟨found, isFound, -⟩
      rcases held.sound.touched_run isFound member with ⟨needed, rfl⟩
      have constructing := (held.sound.objects other found isFound).constructing_of_inRun needed
      exact ⟨found, isFound, by simp [constructing]⟩
  | join t object | destroy t object =>
      refine iff_of_true (fun other member => ?_) trivial
      rcases Option.ite_none_right_eq_some.mp stepped with ⟨-, moved⟩
      rcases Option.bind_eq_some_iff.mp moved with ⟨found, isConstructed, -⟩
      rcases constructed_eq_some isConstructed with ⟨isFound, constructed⟩
      rw [List.mem_singleton.mp member]
      exact ⟨found, isFound, by simp [constructed]⟩
  | pthreadJoin t | clearId t =>
      exact iff_of_true (fun other member => held.joins.alive member) trivial
  | joined t ok =>
      refine iff_of_true (fun other member => ?_) trivial
      cases ok with
      | true => cases member
      | false => exact held.joins.alive member

/-- As long as nobody joins or destroys an object that another thread is joining, no step of
any thread uses an object that has been destroyed, exactly if no thread calls
`SetCurrentName` when the object it constructed last is gone. -/
theorem touches_alive_iff {labels : List (Label Callback)}
    (careful : machine.StepsMeet Careful ({} : Pool Callback) labels) :
    machine.StepsMeet
        (fun (pool : Pool Callback) label => ∀ object ∈ pool.touched label, pool.Alive object)
        {} labels ↔
      machine.StepsMeet Named {} labels :=
  careful.congr Held (fun _ _ _ held meets stepped => held.step meets stepped)
    (fun _ _ _ held _ stepped => held.touched_alive_iff stepped) .begin

theorem touches_alive_iff_renamed :
    let labels : List (Label Unit) :=
      [.construct (.foreign 0) 0 () true, .run 0, .run 0, .run 0, .run 0, .wake (.foreign 0),
        .run 0, .run 0, .setCurrentName (.foreign 0), .join (.foreign 1) 0,
        .pthreadJoin (.foreign 1), .joined (.foreign 1) true, .clearId (.foreign 1),
        .destroy (.foreign 0) 0]
    machine.StepsMeet
        (fun (pool : Pool Unit) label => ∀ object ∈ pool.touched label, pool.Alive object)
        {} labels ∧ (machine.run {} labels).isSome = true := by
  intro labels
  refine ⟨(touches_alive_iff ?_).mpr ?_, rfl⟩
  · iterate 9 apply Machine.StepsMeet.cons rfl trivial
    apply Machine.StepsMeet.cons rfl nofun
    iterate 3 apply Machine.StepsMeet.cons rfl trivial
    refine Machine.StepsMeet.cons rfl ?_ trivial
    rintro (⟨_ | _ | number⟩ | object) stage isJoining <;> cases isJoining
  · iterate 8 apply Machine.StepsMeet.cons rfl trivial
    apply Machine.StepsMeet.cons rfl
    · rintro object ⟨⟩
      exact ⟨_, rfl, by decide⟩
    iterate 4 apply Machine.StepsMeet.cons rfl trivial
    exact Machine.StepsMeet.cons rfl trivial trivial

/-- A thread destroys an object while the callback runs, and may then set its name. -/
example :
    let labels : List (Label Unit) :=
      [.construct (.foreign 0) 0 () true, .run 0, .run 0, .run 0, .run 0, .wake (.foreign 0),
        .run 0, .destroy (.foreign 0) 0]
    ∃ pool, machine.run {} labels = some pool ∧ pool.isFree (.foreign 0) = true ∧
      pool.currentThread (.foreign 0) = some 0 ∧
      (pool.objects 0).map Object.stage = some .destroyed :=
  ⟨_, rfl, rfl, rfl, rfl⟩

end Pool

end Sylar.Threads.Lifetime
