import Mathlib.Data.Fintype.EquivFin
import Mathlib.Order.WithBot
import Sylar.Foundation.Counting
import Sylar.Foundation.Cycles
import Sylar.Foundation.Machine

/-! # Locks taken in a fixed order

Threads run code that takes locks for the length of a block, waits for the ends of other
threads, and does what it likes in between. A lock that is wanted is waited for as long as
another block, of this thread or another, has it. If blocks inside blocks only take locks of
a higher rank, and a thread waits only for the ends of later threads and without a lock in
hand, no threads wait for one another in a circle, and however far they have come they can
still end.
-/

namespace Sylar.Foundation.LockOrder

/-- A reader's or a writer's lock; a plain mutex is always locked `exclusive`. -/
inductive Mode
  | shared
  | exclusive
deriving DecidableEq, Repr

def Mode.conflicts : Mode → Mode → Bool
  | .shared, .shared => false
  | .shared, .exclusive | .exclusive, _ => true

inductive Code (Lock : Type u)
  | skip
  | seq (first second : Code Lock)
  | either (left right : Code Lock)
  | any (branches : Nat → Code Lock)
  | loop (body : Code Lock)
  | locked (lock : Lock) (mode : Mode) (body : Code Lock)
  /-- Wait for the end of the thread of this number. -/
  | join (thread : Nat)

inductive Frame (Lock : Type u)
  | run (code : Code Lock)
  | release (lock : Lock) (mode : Mode)

variable {Lock : Type u} {Rank : Type v} {size : Nat}

section

variable [DecidableEq Lock]

def Frame.blocks (lock : Lock) (mode : Mode) : Frame Lock → Bool
  | .run _ => false
  | .release held heldMode => held = lock && heldMode.conflicts mode

def advance (granted : Lock → Mode → Bool) (ended : Nat → Bool) (choice : Nat) :
    List (Frame Lock) → Option (List (Frame Lock))
  | [] => none
  | .release _ _ :: rest | .run .skip :: rest => some rest
  | .run (.seq first second) :: rest => some (.run first :: .run second :: rest)
  | .run (.either left right) :: rest =>
      some (.run (if choice = 0 then left else right) :: rest)
  | .run (.any branches) :: rest => some (.run (branches choice) :: rest)
  | .run (.loop body) :: rest =>
      some (if choice = 0 then rest else .run body :: .run (.loop body) :: rest)
  | .run (.locked lock mode body) :: rest =>
      if granted lock mode then some (.run body :: .release lock mode :: rest) else none
  | .run (.join thread) :: rest => if ended thread then some rest else none

def granted (threads : Fin size → List (Frame Lock)) (lock : Lock) (mode : Mode) : Bool :=
  (List.finRange size).all fun v => (threads v).all fun task => !task.blocks lock mode

def ended (threads : Fin size → List (Frame Lock)) (thread : Nat) : Bool :=
  (List.finRange size).all fun v => v.val != thread || (threads v).isEmpty

def machine : Machine (Fin size → List (Frame Lock)) (Fin size × Nat) where
  step threads label :=
    (advance (granted threads) (ended threads) label.2 (threads label.1)).map
      (Function.update threads label.1)

inductive WaitsFor (threads : Fin size → List (Frame Lock)) (u v : Fin size) : Prop
  | lock {lock : Lock} {mode : Mode} {body : Code Lock} {rest : List (Frame Lock)}
      (wants : threads u = .run (.locked lock mode body) :: rest)
      (blocked : ∃ task ∈ threads v, task.blocks lock mode = true)
  | join {rest : List (Frame Lock)} (joins : threads u = .run (.join v) :: rest)
      (unfinished : threads v ≠ [])

end

/-! ## The order -/

section

variable [LinearOrder Rank] (rank : Lock → Rank)

/-- All locks taken are of a higher rank than the bound, and those taken inside a block of a
higher rank than the block's. The end of a thread is waited for without any lock. -/
def Code.Above : Code Lock → WithBot Rank → Prop
  | .skip, _ => True
  | .seq first second, bound => first.Above bound ∧ second.Above bound
  | .either left right, bound => left.Above bound ∧ right.Above bound
  | .any branches, bound => ∀ choice, (branches choice).Above bound
  | .loop body, bound => body.Above bound
  | .locked lock _ body, bound => bound < rank lock ∧ body.Above (rank lock)
  | .join _, bound => bound = ⊥

def floor : List (Frame Lock) → WithBot Rank
  | [] => ⊥
  | .run _ :: rest => floor rest
  | .release lock _ :: _ => rank lock

def Code.JoinsAfter (own : Nat) : Code Lock → Prop
  | .skip => True
  | .seq first second => first.JoinsAfter own ∧ second.JoinsAfter own
  | .either left right => left.JoinsAfter own ∧ right.JoinsAfter own
  | .any branches => ∀ choice, (branches choice).JoinsAfter own
  | .loop body | .locked _ _ body => body.JoinsAfter own
  | .join thread => own < thread

def Keeps : List (Frame Lock) → Prop
  | [] => True
  | .run code :: rest => code.Above rank (floor rank rest) ∧ Keeps rest
  | .release lock _ :: rest => floor rank rest < rank lock ∧ Keeps rest

variable {rank}

theorem Code.Above.mono {code : Code Lock} {bound lower : WithBot Rank}
    (above : code.Above rank bound) (below : lower ≤ bound) : code.Above rank lower := by
  induction code with
  | skip => trivial
  | seq first second inFirst inSecond => exact ⟨inFirst above.1, inSecond above.2⟩
  | either left right inLeft inRight => exact ⟨inLeft above.1, inRight above.2⟩
  | any branches induction => exact fun choice => induction choice (above choice)
  | loop body induction => exact induction above
  | locked lock mode body => exact ⟨below.trans_lt above.1, above.2⟩
  | join thread => exact le_bot_iff.mp (below.trans_eq above)

theorem Code.Above.joinsAfter {code : Code Lock} {bound : WithBot Rank}
    (above : code.Above rank bound) (bounded : bound ≠ ⊥) (own : Nat) :
    code.JoinsAfter own := by
  induction code generalizing bound with
  | skip => trivial
  | seq first second inFirst inSecond =>
      exact ⟨inFirst above.1 bounded, inSecond above.2 bounded⟩
  | either left right inLeft inRight =>
      exact ⟨inLeft above.1 bounded, inRight above.2 bounded⟩
  | any branches induction => exact fun choice => induction choice (above choice) bounded
  | loop body induction => exact induction above bounded
  | locked lock mode body induction => exact induction above.2 WithBot.coe_ne_bot
  | join thread => exact absurd above bounded

theorem Keeps.advance [DecidableEq Lock] {granted : Lock → Mode → Bool}
    {ended : Nat → Bool} {choice : Nat} {tasks after : List (Frame Lock)}
    (keeps : Keeps rank tasks)
    (advances : LockOrder.advance granted ended choice tasks = some after) :
    Keeps rank after := by
  cases tasks with
  | nil => cases advances
  | cons task rest =>
      cases task with
      | release lock mode =>
          cases advances
          exact keeps.2
      | run code =>
          rcases keeps with ⟨above, keeps⟩
          cases code with
          | skip =>
              cases advances
              exact keeps
          | seq first second =>
              cases advances
              exact ⟨above.1, above.2, keeps⟩
          | either left right =>
              cases advances
              refine ⟨?_, keeps⟩
              split
              · exact above.1
              · exact above.2
          | any branches =>
              cases advances
              exact ⟨above choice, keeps⟩
          | loop body =>
              cases advances
              split
              · exact keeps
              · exact ⟨above, above, keeps⟩
          | locked lock mode body =>
              rcases Option.ite_none_right_eq_some.mp advances with ⟨-, isAfter⟩
              cases isAfter
              exact ⟨above.2, above.1, keeps⟩
          | join thread =>
              rcases Option.ite_none_right_eq_some.mp advances with ⟨-, isAfter⟩
              cases isAfter
              exact keeps

def JoinsAfter (own : Nat) (tasks : List (Frame Lock)) : Prop :=
  ∀ code, .run code ∈ tasks → code.JoinsAfter own

theorem joinsAfter_cons {own : Nat} {code : Code Lock} {rest : List (Frame Lock)} :
    JoinsAfter own (.run code :: rest) ↔ code.JoinsAfter own ∧ JoinsAfter own rest := by
  simp [JoinsAfter]

theorem joinsAfter_release {own : Nat} {lock : Lock} {mode : Mode}
    {rest : List (Frame Lock)} :
    JoinsAfter own (.release lock mode :: rest) ↔ JoinsAfter own rest := by
  simp [JoinsAfter]

theorem JoinsAfter.advance [DecidableEq Lock] {own : Nat} {granted : Lock → Mode → Bool}
    {ended : Nat → Bool} {choice : Nat} {tasks after : List (Frame Lock)}
    (joins : JoinsAfter own tasks)
    (advances : LockOrder.advance granted ended choice tasks = some after) :
    JoinsAfter own after := by
  cases tasks with
  | nil => cases advances
  | cons task rest =>
      cases task with
      | release lock mode =>
          cases advances
          exact joinsAfter_release.mp joins
      | run code =>
          rcases joinsAfter_cons.mp joins with ⟨here, later⟩
          cases code with
          | skip =>
              cases advances
              exact later
          | seq first second =>
              cases advances
              exact joinsAfter_cons.mpr ⟨here.1, joinsAfter_cons.mpr ⟨here.2, later⟩⟩
          | either left right =>
              cases advances
              refine joinsAfter_cons.mpr ⟨?_, later⟩
              split
              · exact here.1
              · exact here.2
          | any branches =>
              cases advances
              exact joinsAfter_cons.mpr ⟨here choice, later⟩
          | loop body =>
              cases advances
              split
              · exact later
              · exact joinsAfter_cons.mpr ⟨here, joinsAfter_cons.mpr ⟨here, later⟩⟩
          | locked lock mode body =>
              rcases Option.ite_none_right_eq_some.mp advances with ⟨-, isAfter⟩
              cases isAfter
              exact joinsAfter_cons.mpr ⟨here, joinsAfter_release.mpr later⟩
          | join thread =>
              rcases Option.ite_none_right_eq_some.mp advances with ⟨-, isAfter⟩
              cases isAfter
              exact later

theorem Keeps.le_floor {tasks : List (Frame Lock)} (keeps : Keeps rank tasks) {lock : Lock}
    {mode : Mode} (held : .release lock mode ∈ tasks) : rank lock ≤ floor rank tasks := by
  induction tasks with
  | nil => cases held
  | cons task rest induction =>
      cases task with
      | run code =>
          rcases List.mem_cons.mp held with same | later
          · cases same
          · exact induction keeps.2 later
      | release last lastMode =>
          rcases List.mem_cons.mp held with same | later
          · cases same
            exact le_refl _
          · exact (induction keeps.2 later).trans (le_of_lt keeps.1)

end

/-! ## Ends -/

def Code.cost : Code Lock → Nat
  | .skip | .loop _ | .join _ => 1
  | .seq first second => first.cost + second.cost + 1
  | .either left _ => left.cost + 1
  | .any branches => (branches 0).cost + 1
  | .locked _ _ body => body.cost + 2

def Frame.cost : Frame Lock → Nat
  | .run code => code.cost
  | .release _ _ => 1

def cost (tasks : List (Frame Lock)) : Nat :=
  (tasks.map Frame.cost).sum

section

variable [DecidableEq Lock] [LinearOrder Rank] {rank : Lock → Rank}
  {threads : Fin size → List (Frame Lock)}

theorem wanted_lt (keeps : ∀ v, Keeps rank (threads v)) {v : Fin size}
    {lock wanted : Lock} {mode wantedMode : Mode} {body : Code Lock}
    {rest : List (Frame Lock)}
    (waits : threads v = .run (.locked wanted wantedMode body) :: rest)
    (blocked : ∃ task ∈ threads v, task.blocks lock mode = true) :
    rank lock < rank wanted := by
  rcases blocked with ⟨_ | ⟨held, heldMode⟩, member, blocks⟩
  · cases blocks
  · have same : held = lock := by
      simp only [Frame.blocks, Bool.and_eq_true, decide_eq_true_eq] at blocks
      exact blocks.1
    subst same
    have keepsHere := keeps v
    rw [waits] at keepsHere member
    have later : .release held heldMode ∈ rest := by
      rcases List.mem_cons.mp member with same | later
      · cases same
      · exact later
    exact WithBot.coe_lt_coe.mp ((keepsHere.2.le_floor later).trans_lt keepsHere.1.1)

/-- All threads keep to the order, and wait for later threads only. -/
structure InOrder (rank : Lock → Rank) (threads : Fin size → List (Frame Lock)) : Prop where
  keeps : ∀ v, Keeps rank (threads v)
  joins : ∀ v : Fin size, JoinsAfter v (threads v)

def AtJoin (threads : Fin size → List (Frame Lock)) (v : Fin size) : Prop :=
  ∃ thread rest, threads v = .run (.join thread) :: rest

/-- Who waits for the end of a thread has no lock, and is waited for by earlier threads that
wait for its end. -/
theorem WaitsFor.before (inOrder : InOrder rank threads) {u v : Fin size}
    (waits : WaitsFor threads u v) (atJoin : AtJoin threads v) : AtJoin threads u ∧ u < v := by
  rcases atJoin with ⟨thread, rest, joins⟩
  cases waits with
  | lock wants blocked =>
      rcases blocked with ⟨_ | ⟨held, heldMode⟩, member, blocks⟩
      · cases blocks
      · have keeps := inOrder.keeps v
        rw [joins] at keeps member
        have later : .release held heldMode ∈ rest := by
          rcases List.mem_cons.mp member with same | later
          · cases same
          · exact later
        have isBot : floor rank rest = ⊥ := keeps.1
        have below := keeps.2.le_floor later
        rw [isBot] at below
        exact absurd (le_bot_iff.mp below) WithBot.coe_ne_bot
  | @join rest' joinsIt unfinished =>
      have after := inOrder.joins u
      rw [joinsIt] at after
      exact ⟨⟨v, rest', joinsIt⟩, (joinsAfter_cons.mp after).1⟩

theorem before_of_path (inOrder : InOrder rank threads) {u v : Fin size}
    (path : Relation.TransGen (WaitsFor threads) u v) (atJoin : AtJoin threads v) :
    AtJoin threads u ∧ u < v := by
  induction path with
  | single edge => exact edge.before inOrder atJoin
  | tail path edge induction =>
      rcases edge.before inOrder atJoin with ⟨atJoinToo, less⟩
      rcases induction atJoinToo with ⟨first, before⟩
      exact ⟨first, before.trans less⟩

theorem not_circular (inOrder : InOrder rank threads) (v : Fin size) :
    ¬Relation.TransGen (WaitsFor threads) v v := by
  have climbs : ∀ u w, ¬AtJoin threads u → Relation.TransGen (WaitsFor threads) u w →
      ∃ lock mode body rest, threads u = .run (.locked lock mode body) :: rest ∧
        ∀ wanted wantedMode body' rest',
          threads w = .run (.locked wanted wantedMode body') :: rest' →
            rank lock < rank wanted := by
    intro u w notAtJoin waits
    induction waits with
    | single edge =>
        cases edge with
        | lock wants blocked =>
            exact ⟨_, _, _, _, wants,
              fun wanted wantedMode body' rest' waits => wanted_lt inOrder.keeps waits blocked⟩
        | join joins => exact absurd ⟨_, _, joins⟩ notAtJoin
    | tail path edge induction =>
        rcases induction with ⟨lock, mode, body, rest, wants, below⟩
        cases edge with
        | lock wantsNext blocked =>
            refine ⟨lock, mode, body, rest, wants, fun wanted wantedMode _ _ waits => ?_⟩
            exact (below _ _ _ _ wantsNext).trans (wanted_lt inOrder.keeps waits blocked)
        | join joins =>
            exact absurd (before_of_path inOrder path ⟨_, _, joins⟩).1 notAtJoin
  intro circle
  by_cases atJoin : AtJoin threads v
  · exact lt_irrefl v (before_of_path inOrder circle atJoin).2
  · rcases climbs v v atJoin circle with ⟨lock, mode, body, rest, wants, below⟩
    exact lt_irrefl _ (below lock mode body rest wants)

theorem WaitsFor.unfinished {v w : Fin size} (waits : WaitsFor threads v w) :
    threads w ≠ [] := by
  cases waits with
  | lock wants blocked =>
      rcases blocked with ⟨task, member, -⟩
      exact List.ne_nil_of_mem member
  | join joins unfinished => exact unfinished

theorem InOrder.step {label : Fin size × Nat} {after : Fin size → List (Frame Lock)}
    (inOrder : InOrder rank threads) (stepped : machine.step threads label = some after) :
    InOrder rank after := by
  rcases Option.map_eq_some_iff.mp stepped with ⟨next, advances, rfl⟩
  constructor
  · intro v
    rcases eq_or_ne v label.1 with rfl | other
    · rw [Function.update_self]
      exact (inOrder.keeps _).advance advances
    · rw [Function.update_of_ne other]
      exact inOrder.keeps v
  · intro v
    rcases eq_or_ne v label.1 with rfl | other
    · rw [Function.update_self]
      exact (inOrder.joins _).advance advances
    · rw [Function.update_of_ne other]
      exact inOrder.joins v

end

end Sylar.Foundation.LockOrder
