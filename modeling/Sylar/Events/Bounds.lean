import Sylar.Events.Assertions

/-! # Indexing the table

Four operations read `fd_Contexs_[fd]`. They compare the size as an `int` with the
descriptor, which lets every negative descriptor through, and `addEvent` grows the table
to `fd*1.5` entries, which for the descriptors 0 and 1 is not enough.
-/

namespace Sylar.Events

open Foundation Scheduling

namespace IOManager

variable {Callback : Type} {manager next : IOManager Callback}

def Inside (manager : IOManager Callback) (fd : Int32) : Prop :=
  0 ≤ fd ∧ fd.toNatClampNeg < manager.fdContexs.length

/-- The operation returns `false` before it reads the table, or reads it inside, after the
growth step if it has one. -/
def IndexesInside (manager : IOManager Callback) : Operation Callback → Prop
  | .addEvent fd _ _ _ => ∃ grown, manager.grow fd = .ok grown ∧ grown.Inside fd
  | .delEvent fd _ | .cancelEvent fd _ | .cancelAll fd =>
      manager.beyond fd = true ∨ manager.Inside fd
  | .dispatch .. => True

/-- The descriptor is not negative, unless the size is so large that it is even less as an
`int`, and `addEvent` grows the table for no descriptor below 2. -/
def Indexable (manager : IOManager Callback) : Operation Callback → Prop
  | .addEvent fd _ _ _ => 0 ≤ fd ∧ (manager.beyond fd = true → 2 ≤ fd)
  | .delEvent fd _ | .cancelEvent fd _ | .cancelAll fd => manager.beyond fd = true ∨ 0 ≤ fd
  | .dispatch .. => True

theorem toInt_eq {fd : Int32} (natural : 0 ≤ fd) : fd.toInt = fd.toNatClampNeg := by
  have notNegative : 0 ≤ fd.toInt := Int32.le_iff_toInt_le.mp natural
  rw [Int32.toNatClampNeg]
  omega

theorem inside_of_not_beyond {fd : Int32} (natural : 0 ≤ fd)
    (notBeyond : manager.beyond fd = false) : manager.Inside fd := by
  refine ⟨natural, ?_⟩
  have below : fd < Int32.ofNat manager.fdContexs.length :=
    Int32.not_le.mp (of_decide_eq_false notBeyond)
  have size : Int32.size = 4294967296 := rfl
  rw [Int32.lt_iff_toInt_lt, toInt_eq natural, Int32.toInt_ofNat', Int.bmod_def, size] at below
  split at below
  · omega
  · omega

theorem inside_fdContexResize_iff {fd : Int32} (natural : 0 ≤ fd) :
    (manager.fdContexResize (fd.toNatClampNeg * 3 / 2)).Inside fd ↔ 2 ≤ fd := by
  have size : (manager.fdContexResize (fd.toNatClampNeg * 3 / 2)).fdContexs.length =
      fd.toNatClampNeg * 3 / 2 := List.length_range'
  have two : (2 : Int32).toInt = 2 := rfl
  rw [Inside, size, and_iff_right natural, Int32.le_iff_toInt_le, two, toInt_eq natural]
  omega

theorem addEvent_indexes_iff (fd : Int32) :
    (∃ grown, manager.grow fd = .ok grown ∧ grown.Inside fd) ↔
      0 ≤ fd ∧ (manager.beyond fd = true → 2 ≤ fd) := by
  by_cases natural : 0 ≤ fd
  · have notNegative : ¬fd < 0 := Int32.not_lt.mpr natural
    by_cases outside : manager.beyond fd = true
    · simp [grow, outside, notNegative, natural, inside_fdContexResize_iff natural]
    · have inside := inside_of_not_beyond natural (by simpa using outside)
      simp [grow, outside, natural, inside]
  · simp only [natural, false_and, iff_false, not_exists, not_and]
    intro grown _ inside
    exact natural inside.1

theorem lookup_indexes_iff (fd : Int32) :
    manager.beyond fd = true ∨ manager.Inside fd ↔ manager.beyond fd = true ∨ 0 ≤ fd := by
  by_cases outside : manager.beyond fd = true
  · simp [outside]
  · simp only [outside, Bool.false_eq_true, false_or]
    constructor
    · exact fun inside => inside.1
    · exact fun natural => inside_of_not_beyond natural (by simpa using outside)

/-- For every size of the table and every descriptor, the table is indexed inside exactly if
the descriptor is not negative, or is taken for one beyond the table, and `addEvent` does not
grow the table for 0 or 1. -/
theorem indexesInside_iff (manager : IOManager Callback) (operation : Operation Callback) :
    manager.IndexesInside operation ↔ manager.Indexable operation := by
  cases operation with
  | addEvent fd event cb caller => exact addEvent_indexes_iff fd
  | delEvent fd event => exact lookup_indexes_iff fd
  | cancelEvent fd event => exact lookup_indexes_iff fd
  | cancelAll fd => exact lookup_indexes_iff fd
  | dispatch id reported => exact Iff.rfl

/-- What the language leaves undefined about the table: reading it outside, and growing it to a
negative size. -/
def IsIndexFault (fault : Fault) : Prop :=
  fault = .undefined .indexOutOfRange ∨ fault = .undefined .negativeSize

theorem contexAt_outside {fd : Int32} (outside : ¬manager.Inside fd) :
    manager.contexAt fd = .error (.undefined .indexOutOfRange) := by
  rw [contexAt]
  by_cases negative : fd < 0
  · rw [if_pos negative]
  · have natural : 0 ≤ fd := Int32.not_lt.mp negative
    have past : manager.fdContexs[fd.toNatClampNeg]? = none :=
      List.getElem?_eq_none (Nat.le_of_not_lt fun below => outside ⟨natural, below⟩)
    rw [if_neg negative, past]

theorem addEvent_index_fault {fd : Int32} {event : Event} {cb : Option Callback}
    {caller : Caller} {reply : Bool}
    (outside : ¬∃ grown, manager.grow fd = .ok grown ∧ grown.Inside fd) :
    ∃ fault, manager.addEvent fd event cb caller reply = .error fault ∧ IsIndexFault fault := by
  cases grew : manager.grow fd with
  | error fault =>
      refine ⟨fault, bind_eq_error.mpr (Or.inl grew), Or.inr ?_⟩
      rw [grow] at grew
      split at grew
      · split at grew
        · cases grew
          rfl
        · cases grew
      · cases grew
  | ok grown =>
      have past : ¬grown.Inside fd := fun inside => outside ⟨grown, grew, inside⟩
      exact ⟨_, bind_eq_error.mpr (Or.inr ⟨grown, grew,
        bind_eq_error.mpr (Or.inl (contexAt_outside past))⟩), Or.inl rfl⟩

theorem lookup_index_fault {fd : Int32}
    {rest : ContexId → Except Fault (IOManager Callback × Bool)}
    (outside : ¬(manager.beyond fd = true ∨ manager.Inside fd)) :
    ∃ fault, (if manager.beyond fd then .ok (manager, false)
      else manager.contexAt fd >>= rest) = .error fault ∧ IsIndexFault fault := by
  rcases not_or.mp outside with ⟨notBeyond, past⟩
  rw [if_neg notBeyond]
  exact ⟨_, bind_eq_error.mpr (Or.inl (contexAt_outside past)), Or.inl rfl⟩

theorem execute_index_fault {call : Call Callback}
    (outside : ¬manager.IndexesInside call.operation) :
    ∃ fault, manager.execute call = .error fault ∧ IsIndexFault fault := by
  rcases call with ⟨operation, reply⟩
  cases operation with
  | addEvent fd event cb caller => exact addEvent_index_fault outside
  | delEvent fd event => exact lookup_index_fault outside
  | cancelEvent fd event => exact lookup_index_fault outside
  | cancelAll fd => exact lookup_index_fault outside
  | dispatch id reported => exact absurd trivial outside

/-- The table of a new manager is empty. Descriptor 0 is not inside after it has grown for it,
and descriptor -1, which is not below its size as an `int`, is read there all the same. -/
theorem indexesInside_fails :
    let manager : IOManager Unit := new
    let registered : Operation Unit :=
      .addEvent 0 .READD (some ()) { scheduler := some 0, fiber := 0 }
    ¬manager.IndexesInside registered ∧ ¬manager.IndexesInside (.cancelAll (-1)) ∧
      (manager.execute { operation := registered }).map Prod.snd =
        .error (.undefined .indexOutOfRange) ∧
      (manager.execute { operation := .cancelAll (-1) }).map Prod.snd =
        .error (.undefined .indexOutOfRange) := by
  intro manager registered
  refine ⟨?_, ?_, rfl, rfl⟩
  · rintro ⟨grown, grew, -, below⟩
    cases grew
    exact absurd below (by decide)
  · intro indexes
    rcases indexes with isBeyond | ⟨natural, -⟩
    · exact absurd isBeyond (by decide)
    · exact absurd natural (by decide)

end IOManager

end Sylar.Events
