import Sylar.Threads.Thread

/-! # Who a thread thinks it is

The constructor of a `Thread` writes the variables of the thread that runs it, and `run` does
not say on the new thread which object it belongs to.
-/

namespace Sylar.Threads

open Foundation

namespace System

structure Sound (system : System) : Prop where
  /-- `CurrentThread` is an object that the thread constructed. -/
  current : ∀ t object, (system.threads t).currentThread = some object →
    object < system.objectCount ∧ (system.objects object).creator = t
  /-- Nobody constructs the object that starts him. -/
  started : ∀ t object, (system.threads t).startedBy = some object →
    object < system.objectCount ∧ (system.objects object).creator ≠ t
  distinct : ∀ t u object, (system.threads t).startedBy = some object →
    (system.threads u).startedBy = some object → t = u
  /-- While a thread starts, the one that constructed its object waits for it. -/
  starting : ∀ t, (system.threads t).activity = .starting →
    ∃ object, (system.threads t).startedBy = some object ∧
      (system.objects object).semaphore = 0 ∧
      (system.objects object).name = (system.threads t).given ∧
      (system.threads (system.objects object).creator).activity = .waiting object
  absent : ∀ t, system.threadCount ≤ t → system.threads t = .foreign

namespace Sound

theorem new (foreign : Nat) : (System.new foreign).Sound where
  current t object isCurrent := by cases isCurrent
  started t object isStarted := by cases isStarted
  distinct t u object isStarted := by cases isStarted
  starting t isStarting := by cases isStarting
  absent _ _ := rfl

variable {system : System}

theorem construct (sound : system.Sound) {t : ThreadId} (free : system.IsFree t) (name : Text)
    (created : Bool) : (system.construct t name created).Sound := by
  rcases sound with ⟨current, started, distinct, starting, absent⟩
  rcases free with ⟨exists_, free⟩
  have newAbsent := absent system.threadCount le_rfl
  constructor
  · intro u object
    simp only [threads_construct, objects_construct, objectCount_construct]
    grind [Locals.new]
  · intro u object
    simp only [threads_construct, objects_construct, objectCount_construct]
    grind [Locals.new]
  · intro u v object
    simp only [threads_construct]
    grind [Locals.new]
  · intro u isStarting
    simp only [threads_construct, objects_construct] at isStarting ⊢
    by_cases isNew : created = true ∧ u = system.threadCount
    · refine ⟨system.objectCount, ?_⟩
      grind [Locals.new]
    · rw [if_neg isNew] at isStarting ⊢
      by_cases isCreator : u = t
      · rw [if_pos isCreator] at isStarting
        cases isStarting
      · rw [if_neg isCreator] at isStarting ⊢
        rcases starting u isStarting with ⟨object, startedBy, semaphore, isNamed, waits⟩
        have old := (started u object startedBy).1
        refine ⟨object, startedBy, ?_⟩
        grind [Locals.foreign, Locals.new]
  · intro u
    simp only [threads_construct, threadCount_construct]
    cases created <;> grind [Locals.new]

theorem keep (sound : system.Sound) {next : System}
    (threadCount : next.threadCount = system.threadCount)
    (objectCount : next.objectCount = system.objectCount)
    (creator : ∀ object, (next.objects object).creator = (system.objects object).creator)
    (current : ∀ u, (next.threads u).currentThread = (system.threads u).currentThread)
    (startedBy : ∀ u, (next.threads u).startedBy = (system.threads u).startedBy)
    (starting : ∀ u object, (next.threads u).activity = .starting →
      (system.threads u).activity = .starting ∧
        ((system.threads u).startedBy = some object →
          (system.objects object).semaphore = 0 →
          (system.objects object).name = (system.threads u).given →
          (system.threads (system.objects object).creator).activity = .waiting object →
          (next.objects object).semaphore = 0 ∧
            (next.objects object).name = (next.threads u).given ∧
            (next.threads (system.objects object).creator).activity = .waiting object))
    (absent : ∀ u, system.threadCount ≤ u → next.threads u = system.threads u) :
    next.Sound where
  current u object := by
    rw [current, objectCount, creator]
    exact sound.current u object
  started u object := by
    rw [startedBy, objectCount, creator]
    exact sound.started u object
  distinct u v object := by
    rw [startedBy, startedBy]
    exact sound.distinct u v object
  starting u isStarting := by
    rcases sound.starting u (starting u 0 isStarting).1 with
      ⟨object, isStarted, semaphore, isNamed, waits⟩
    refine ⟨object, (startedBy u).trans isStarted, ?_⟩
    rw [creator]
    exact (starting u object isStarting).2 isStarted semaphore isNamed waits
  absent u isAbsent := by
    rw [threadCount] at isAbsent
    rw [absent u isAbsent, sound.absent u isAbsent]

theorem current_ne (sound : system.Sound) (t : ThreadId) {object : ObjectId}
    (waits : (system.threads (system.objects object).creator).activity = .waiting object)
    (notWaiting : (system.threads t).activity ≠ .waiting object) :
    (system.threads t).currentThread ≠ some object := by
  intro isCurrent
  rw [(sound.current t object isCurrent).2] at waits
  exact notWaiting waits

theorem setCurrentName (sound : system.Sound) {t : ThreadId} (free : system.IsFree t)
    (name : Text) :
    ((system.setCurrentName t name).modifyThread t fun locals =>
      { locals with given := name }).Sound := by
  rcases free with ⟨exists_, free⟩
  apply sound.keep
  · exact (counts_setCurrentName system t name).1
  · exact (counts_setCurrentName system t name).2
  · intro object
    rw [objects_modifyThread, objects_setCurrentName]
    split <;> rfl
  · intro u
    simp only [threads_modifyThread, threads_setCurrentName]
    grind
  · intro u
    simp only [threads_modifyThread, threads_setCurrentName]
    grind
  · intro u object isStarting
    have different : u ≠ t := by
      intro same
      simp [same, free] at isStarting
    simp only [threads_modifyThread, threads_setCurrentName, if_neg different] at isStarting
    refine ⟨isStarting, fun isStarted semaphore isNamed waits => ?_⟩
    have other := sound.current_ne t waits (by simp [free])
    simp only [objects_modifyThread, objects_setCurrentName, threads_modifyThread,
      threads_setCurrentName, if_neg other, if_neg different]
    refine ⟨semaphore, isNamed, ?_⟩
    split
    · next same =>
        rw [same, free] at waits
        cases waits
    · exact waits
  · intro u isAbsent
    have different : u ≠ t := Nat.ne_of_gt (lt_of_lt_of_le exists_ isAbsent)
    simp [different]

theorem run (sound : system.Sound) {t : ThreadId} {object : ObjectId}
    (isStarting : (system.threads t).activity = .starting)
    (startedBy : (system.threads t).startedBy = some object) : (system.run t object).Sound := by
  apply sound.keep
  · exact (counts_setCurrentName system t _).1
  · exact (counts_setCurrentName system t _).2
  · intro other
    simp only [System.run, objects_modifyThread, objects_modifyObject, objects_setCurrentName]
    grind
  · intro u
    simp only [System.run, threads_modifyThread, threads_modifyObject, threads_setCurrentName]
    grind
  · intro u
    simp only [System.run, threads_modifyThread, threads_modifyObject, threads_setCurrentName]
    grind
  · intro u other
    have same := fun isStarted => sound.distinct t u object startedBy isStarted
    have notRenamed :
        (system.threads (system.objects other).creator).activity = .waiting other →
          (system.threads t).currentThread ≠ some other :=
      fun waits => sound.current_ne t waits (by simp [isStarting])
    simp only [System.run, threads_modifyThread, threads_modifyObject, threads_setCurrentName,
      objects_modifyThread, objects_modifyObject, objects_setCurrentName]
    grind
  · intro u isAbsent
    have different : u ≠ t := by
      intro same
      rw [← same, sound.absent u isAbsent] at isStarting
      cases isStarting
    simp [System.run, different]

theorem constructed (sound : system.Sound) {t : ThreadId} {object : ObjectId}
    (waiting : (system.threads t).activity = .waiting object)
    (notified : 0 < (system.objects object).semaphore) :
    (system.constructed t object).Sound := by
  apply sound.keep
  · rfl
  · rfl
  · intro other
    simp only [System.constructed, objects_modifyThread, objects_modifyObject]
    grind
  · intro u
    simp only [System.constructed, threads_modifyThread, threads_modifyObject]
    grind
  · intro u
    simp only [System.constructed, threads_modifyThread, threads_modifyObject]
    grind
  · intro u other
    simp only [System.constructed, threads_modifyThread, threads_modifyObject,
      objects_modifyThread, objects_modifyObject]
    grind
  · intro u isAbsent
    have different : u ≠ t := by
      intro same
      rw [← same, sound.absent u isAbsent] at waiting
      cases waiting
    simp [System.constructed, different]

theorem step (sound : system.Sound) {label : Label} {next : System}
    (stepped : system.step label = some next) : next.Sound := by
  cases step_eq_some stepped with
  | construct free => exact sound.construct free _ _
  | run isStarting startedBy => exact sound.run isStarting startedBy
  | constructed waiting notified => exact sound.constructed waiting notified
  | setCurrentName free => exact sound.setCurrentName free _

theorem of_run {foreign : Nat} {labels : List Label}
    (ran : machine.run (.new foreign) labels = some system) : system.Sound :=
  Machine.run_induction (fun _ _ _ sound stepped => sound.step stepped) (Sound.new foreign) ran

end Sound

/-! ## Without children -/

/-- A started thread knows its object, and every thread its name. -/
structure Identified (system : System) : Prop where
  object : ∀ t object, (system.threads t).activity ≠ .starting →
    (system.threads t).startedBy = some object → system.getCurrentTherad t = some object
  name : ∀ t, (system.threads t).activity ≠ .starting →
    system.geCurrentName t = (system.threads t).given

/-- A step that constructs an object leaves the variables of its thread, and none renames an
object of another thread. -/
structure Undisturbed (system : System) (label : Label) (next : System) : Prop where
  locals : label.constructs = true →
    next.getCurrentTherad label.thread = system.getCurrentTherad label.thread ∧
      next.geCurrentName label.thread = system.geCurrentName label.thread
  names : ∀ object < system.objectCount,
    (system.threads label.thread).startedBy ≠ some object →
      (next.objects object).name = (system.objects object).name

structure Childless (system : System) : Prop where
  current : ∀ t, (system.threads t).currentThread = none
  startedBy : ∀ t, (system.threads t).startedBy = none
  activity : ∀ t, (system.threads t).activity = .free
  name : ∀ t, (system.threads t).currentThreadName = (system.threads t).given

namespace Childless

variable {system next : System} {label : Label}

theorem new (foreign : Nat) : (System.new foreign).Childless where
  current _ := rfl
  startedBy _ := rfl
  activity _ := rfl
  name _ := rfl

theorem identified (childless : system.Childless) : system.Identified where
  object t object _ started := by
    rw [childless.startedBy t] at started
    cases started
  name t _ := childless.name t

theorem label_eq (childless : system.Childless) (noChild : label.constructs = false)
    (stepped : system.step label = some next) :
    ∃ t name, label = .setCurrentName t name ∧
      next = (system.setCurrentName t name).modifyThread t fun locals =>
        { locals with given := name } := by
  cases step_eq_some stepped with
  | construct | constructed => cases noChild
  | @run t object isStarting =>
      rw [childless.activity t] at isStarting
      cases isStarting
  | @setCurrentName t name => exact ⟨t, name, rfl, rfl⟩

theorem step (childless : system.Childless) (noChild : label.constructs = false)
    (stepped : system.step label = some next) : next.Childless := by
  rcases childless.label_eq noChild stepped with ⟨t, name, -, rfl⟩
  rcases childless with ⟨current, startedBy, activity, isNamed⟩
  constructor
  all_goals
    intro u
    simp only [threads_modifyThread, threads_setCurrentName]
    grind

theorem undisturbed_iff (childless : system.Childless)
    (stepped : system.step label = some next) :
    Undisturbed system label next ↔ label.constructs = false := by
  constructor
  · intro undisturbed
    cases step_eq_some stepped with
    | @construct t name created free =>
        have same := (undisturbed.locals rfl).1
        have different : t ≠ system.threadCount := Nat.ne_of_lt free.1
        simp [getCurrentTherad, Label.thread, different, childless.current t] at same
    | @constructed t object waiting =>
        rw [childless.activity t] at waiting
        cases waiting
    | run | setCurrentName => rfl
  · intro noChild
    rcases childless.label_eq noChild stepped with ⟨t, name, rfl, rfl⟩
    constructor
    · intro constructs
      cases constructs
    · intro object _ _
      simp [childless.current t]

end Childless

/-- The identity of threads is kept exactly as long as no `Thread` is constructed. -/
theorem identity_kept_iff (foreign : Nat) (labels : List Label) :
    (machine.Always Identified (.new foreign) labels ∧
        machine.StepsMeet (fun system label =>
          ∀ next, system.step label = some next → Undisturbed system label next)
          (.new foreign) labels) ↔
      machine.StepsMeet (fun _ label => label.constructs = false) (.new foreign) labels := by
  constructor
  · intro kept
    apply kept.2.mono Childless
    · intro system label next childless undisturbed stepped
      exact childless.step ((childless.undisturbed_iff stepped).mp (undisturbed next stepped))
        stepped
    · intro system label next childless undisturbed stepped
      exact (childless.undisturbed_iff stepped).mp (undisturbed next stepped)
    · exact Childless.new foreign
  · intro noChild
    constructor
    · apply noChild.always Childless
      · exact fun _ _ _ childless noChild stepped => childless.step noChild stepped
      · exact fun _ childless => childless.identified
      · exact Childless.new foreign
    · apply noChild.mono Childless
      · exact fun _ _ _ childless noChild stepped => childless.step noChild stepped
      · intro system label next childless noChild stepped other stepsToo
        exact (childless.undisturbed_iff stepsToo).mpr noChild
      · exact Childless.new foreign

/-- The main thread constructs a `Thread`, and sets its own name afterwards. -/
theorem child_disturbs :
    let started : List Label :=
      [.construct 0 "worker".toList true, .run 1, .constructed 0]
    ¬machine.Always Identified (.new 1) started ∧
      ¬machine.StepsMeet (fun system label =>
        ∀ next, system.step label = some next → Undisturbed system label next)
        (.new 1) started ∧
      ∃ system, machine.run (.new 1) (started ++ [.setCurrentName 0 "main".toList]) =
          some system ∧
        system.geCurrentName 1 = "worker".toList ∧
        system.getCurrentTherad 1 = none ∧
        system.getCurrentTherad 0 = some 0 ∧
        (system.objects 0).name = "main".toList := by
  refine ⟨?_, ?_, _, rfl, rfl, rfl, rfl, rfl⟩
  · intro always
    have last := Machine.Always.last always rfl
    cases last.object 1 0 (by decide) rfl
  · intro meet
    have first := (meet _ rfl).1
    cases ((first _ rfl).locals rfl).1

/-! ## Children -/

theorem own_object_unknown {foreign : Nat} {labels : List Label} {system : System}
    (ran : machine.run (.new foreign) labels = some system) {t : ThreadId}
    {object : ObjectId} (started : (system.threads t).startedBy = some object) :
    system.getCurrentTherad t ≠ some object := by
  have sound := Sound.of_run ran
  intro isCurrent
  exact (sound.started t object started).2 (sound.current t object isCurrent).2

theorem renamed_is_child {foreign : Nat} {labels : List Label} {system : System}
    (ran : machine.run (.new foreign) labels = some system) {t : ThreadId} {name : Text}
    {object : ObjectId}
    (renamed : ((system.setCurrentName t name).objects object).name ≠
      (system.objects object).name) :
    (system.objects object).creator = t ∧ (system.threads t).startedBy ≠ some object := by
  have sound := Sound.of_run ran
  rw [objects_setCurrentName] at renamed
  split at renamed
  · next isCurrent =>
      have isCreator := (sound.current t object isCurrent).2
      exact ⟨isCreator, fun started => (sound.started t object started).2 isCreator⟩
  · exact absurd rfl renamed

def NamesKept (system : System) : Prop :=
  ∀ t, (system.threads t).activity ≠ .starting →
    system.geCurrentName t = (system.threads t).given

def SharesName (system : System) : Label → Prop
  | .construct t name _ => name = [] ∨ name = (system.threads t).given
  | _ => True

theorem namesKept_step_iff {system next : System} {label : Label} (sound : system.Sound)
    (kept : system.NamesKept) (stepped : system.step label = some next) :
    next.NamesKept ↔ system.SharesName label := by
  cases step_eq_some stepped with
  | @construct t name created free =>
      have own : (system.threads t).currentThreadName = (system.threads t).given :=
        kept t (by simp [free.2])
      have different : t ≠ system.threadCount := Nat.ne_of_lt free.1
      constructor
      · intro nextKept
        have isName := nextKept t (by simp [different])
        simp only [geCurrentName, threads_construct] at isName
        simp only [SharesName]
        grind
      · intro shares u started
        have keptThere := kept u
        simp only [SharesName] at shares
        simp only [geCurrentName, threads_construct] at started keptThere ⊢
        grind [Locals.new]
  | @run t object isStarting startedBy =>
      have isNamed : (system.objects object).name = (system.threads t).given := by
        rcases sound.starting t isStarting with ⟨other, isStarted, -, isNamed, -⟩
        rw [startedBy] at isStarted
        cases isStarted
        exact isNamed
      refine iff_of_true ?_ trivial
      intro u started
      have keptThere := kept u
      simp only [geCurrentName, System.run, threads_modifyThread, threads_modifyObject,
        threads_setCurrentName] at started keptThere ⊢
      grind
  | constructed =>
      refine iff_of_true ?_ trivial
      intro u started
      have keptThere := kept u
      simp only [geCurrentName, System.constructed, threads_modifyThread,
        threads_modifyObject] at started keptThere ⊢
      grind
  | setCurrentName =>
      refine iff_of_true ?_ trivial
      intro u started
      have keptThere := kept u
      simp only [geCurrentName, threads_modifyThread, threads_setCurrentName]
        at started keptThere ⊢
      grind

theorem names_kept_iff (foreign : Nat) (labels : List Label) :
    machine.Always NamesKept (.new foreign) labels ↔
      machine.StepsMeet SharesName (.new foreign) labels := by
  apply Machine.always_iff_stepsMeet Sound
  · exact fun _ _ _ sound _ _ stepped => sound.step stepped
  · exact fun _ _ _ sound kept stepped => namesKept_step_iff sound kept stepped
  · exact Sound.new foreign
  · exact fun _ _ => rfl

end System

end Sylar.Threads
