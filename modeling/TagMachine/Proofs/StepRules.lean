import TagMachine.Machine.Run
import TagMachine.Proofs.TrapRules

/-!
Steps and handler installs, read off the rules of the instructions: when a step goes through, what
it leaves when it does not, and the same for the host's request to install a handler.
-/

namespace TagMachine.Machine

variable {m n : Machine}

/-! ## Whole instructions -/

/-- The instruction at `pc`. -/
def opcode? (m : Machine) : Option Opcode := (m.word? 0).bind Opcode.ofWord?

theorem instruction_ok_iff {e : Effect} :
    instruction.run m = .ok e n ↔ ∃ op, m.opcode? = some op ∧ Performs (m.fetched 1) op e n := by
  unfold opcode?
  simp only [instruction, bind_ok_iff, fetch_ok_iff, and_assoc, exists_and_left, exists_eq_left,
    Option.bind_eq_some_iff]
  constructor
  · rintro ⟨w, hw, h⟩
    cases hop : Opcode.ofWord? w with
    | none => simp [hop, run_throw] at h
    | some op =>
      rw [hop] at h
      exact ⟨op, ⟨w, hw, hop⟩, perform_ok_iff.mp h⟩
  · rintro ⟨op, ⟨w, hw, hop⟩, h⟩
    refine ⟨w, hw, ?_⟩
    rw [hop]
    exact perform_ok_iff.mpr h

/-- An instruction that traps was not found, or it traps as an instruction of its kind. -/
theorem instruction_traps {why : Trap} (h : instruction.run m = .error why n) :
    m.opcode? = none ∧ (n = m ∨ n = m.fetched 1) ∨
      ∃ op, m.opcode? = some op ∧ (perform op).run (m.fetched 1) = .error why n := by
  rw [instruction, bind_error_iff] at h
  rcases h with h | ⟨w, k, hfetch, h⟩
  · obtain ⟨hw, rfl⟩ := fetch_error h
    exact Or.inl ⟨by simp [opcode?, hw], Or.inl rfl⟩
  · obtain ⟨hw, rfl⟩ := fetch_ok_iff.mp hfetch
    cases hop : Opcode.ofWord? w with
    | none =>
      rw [hop] at h
      cases h
      exact Or.inl ⟨by simp [opcode?, hw, hop], Or.inr rfl⟩
    | some op =>
      rw [hop] at h
      exact Or.inr ⟨op, by simp [opcode?, hw, hop], h⟩

theorem instruction_error {why : Trap} (h : instruction.run m = .error why n) :
    n = m ∨ n = m.fetched 1 ∨ ∃ op, m.opcode? = some op ∧ Leaves (m.fetched 1) op n := by
  rcases instruction_traps h with ⟨-, hn | hn⟩ | ⟨op, hop, h⟩
  · exact Or.inl hn
  · exact Or.inr (Or.inl hn)
  · exact Or.inr (Or.inr ⟨op, hop, leaves_of_perform h⟩)

/-! ## Steps -/

/-- The machine with its step counted and its status noted. -/
def counted (m : Machine) (status : Status) : Machine := { m with steps := m.steps + 1, status }

@[simp] theorem counted_keeps (m : Machine) (status : Status) :
    (m.counted status).code = m.code ∧ (m.counted status).slots = m.slots ∧
      (m.counted status).args = m.args ∧ (m.counted status).limit = m.limit ∧
      (m.counted status).pc = m.pc ∧ (m.counted status).sp = m.sp ∧ (m.counted status).bp = m.bp ∧
      (m.counted status).hr = m.hr ∧ (m.counted status).capacity = m.capacity := by
  unfold counted capacity
  simp

@[simp] theorem slot?_counted (m : Machine) (status : Status) (i : Int) :
    (m.counted status).slot? i = m.slot? i := rfl

theorem ready_iff (m : Machine) : m.ready ↔ m.status = .running ∧ m.atLimit = false := by
  simp [ready]

theorem step_of_ready (h : m.ready) :
    m.step = settle m.pc (m.wordAt m.pc) (instruction.run m) := by
  rw [ready_iff] at h
  simp [step, h.1, h.2]

theorem step_of_not_ready (h : ¬ m.ready) : (∀ output, m.step.1 ≠ .ran output) ∧ m.step.2 = m := by
  rw [ready_iff] at h
  unfold step
  cases hs : m.status with
  | running => simp_all
  | stopped => simp
  | faulted f => simp

theorem step_of_atLimit (hs : m.status = .running) (h : m.atLimit) :
    m.step = (.failed .stepLimit, m) := by
  simp [step, hs, h]

/-- No instruction changes the status. -/
theorem Performs.status {op : Opcode} {e : Effect} (h : Performs m op e n) :
    n.status = m.status := by
  cases h <;> simp [called, tailCalled, returned, recovered]

theorem counted_of_status {status : Status} (h : n.status = status) :
    { n with steps := n.steps + 1 } = n.counted status := by
  subst h
  rfl

/-- A step goes through exactly if it is carried out and a rule applies. -/
theorem step_ran_iff {output : Bytes} :
    m.step = (.ran output, n) ↔
      m.ready ∧ ∃ op k, m.opcode? = some op ∧ Performs (m.fetched 1) op (.went output) k ∧
        n = k.counted .running := by
  constructor
  · intro h
    have hr : m.ready := by
      by_cases hr : m.ready
      · exact hr
      · exact absurd (by rw [h]) ((step_of_not_ready hr).1 output)
    rw [step_of_ready hr] at h
    cases hi : instruction.run m with
    | error why k => simp [hi, settle] at h
    | ok e k =>
      obtain ⟨op, hop, hrule⟩ := instruction_ok_iff.mp hi
      have hstatus : k.status = .running := by
        rw [hrule.status]
        exact ((ready_iff m).mp hr).1
      cases e with
      | halt => simp [hi, settle] at h
      | went out =>
        simp only [hi, settle, Prod.mk.injEq, StepResult.ran.injEq] at h
        obtain ⟨rfl, rfl⟩ := h
        exact ⟨hr, op, k, hop, hrule, counted_of_status hstatus⟩
  · rintro ⟨hr, op, k, hop, hrule, rfl⟩
    have hstatus : k.status = .running := by
      rw [hrule.status]
      exact ((ready_iff m).mp hr).1
    rw [step_of_ready hr, instruction_ok_iff.mpr ⟨op, hop, hrule⟩, ← counted_of_status hstatus]
    rfl

/-- What any step leaves, whatever it comes to. -/
theorem step_leaves (m : Machine) :
    m.step.2 = m ∨
      ∃ k status, m.step.2 = k.counted status ∧
        (k = m ∨ k = m.fetched 1 ∨ (∃ op e, Performs (m.fetched 1) op e k) ∨
          ∃ op, Leaves (m.fetched 1) op k) := by
  by_cases hr : m.ready
  · right
    rw [step_of_ready hr]
    cases hi : instruction.run m with
    | error why k =>
      refine ⟨k, _, rfl, ?_⟩
      rcases instruction_error hi with h | h | ⟨op, -, h⟩
      · exact Or.inl h
      · exact Or.inr (Or.inl h)
      · exact Or.inr (Or.inr (Or.inr ⟨op, h⟩))
    | ok e k =>
      obtain ⟨op, -, hrule⟩ := instruction_ok_iff.mp hi
      cases e with
      | halt => exact ⟨k, _, rfl, Or.inr (Or.inr (Or.inl ⟨op, _, hrule⟩))⟩
      | went out => exact ⟨k, _, rfl, Or.inr (Or.inr (Or.inl ⟨op, _, hrule⟩))⟩
  · exact Or.inl (step_of_not_ready hr).2

/-! ## Installing a handler -/

/-- The slots of a handler record. -/
def recordSlots (before : Option Nat) (resume : Int32) : List Value :=
  [.int (Int32.ofInt divisionTag), .int resume, linkValue before]

/-- The machine with one more handler. -/
def installed (m : Machine) (resume : Int32) : Machine :=
  { m.pushedAll (recordSlots m.hr resume) with hr := some (m.sp + 1).toNat }

@[simp] theorem installed_keeps (m : Machine) (resume : Int32) :
    (m.installed resume).code = m.code ∧ (m.installed resume).args = m.args ∧
      (m.installed resume).limit = m.limit ∧ (m.installed resume).pc = m.pc ∧
      (m.installed resume).sp = m.sp + 3 ∧ (m.installed resume).bp = m.bp ∧
      (m.installed resume).hr = some (m.sp + 1).toNat ∧ (m.installed resume).steps = m.steps ∧
      (m.installed resume).status = m.status ∧ (m.installed resume).capacity = m.capacity := by
  have hlength : (recordSlots m.hr resume).length = 3 := rfl
  have h := pushedAll_keeps m (recordSlots m.hr resume)
  unfold installed capacity
  unfold capacity at h
  simp only [h, hlength, Int.cast_ofNat_Int, and_self]

/-- An install puts the record on top of the stack. -/
theorem slot?_installed {resume : Int32} (hlo : 0 ≤ m.sp + 1) (hhi : m.sp + 3 < m.capacity) :
    (m.installed resume).slot? (m.sp + 1) = some (.int (Int32.ofInt divisionTag)) ∧
      (m.installed resume).slot? (m.sp + 2) = some (.int resume) ∧
      (m.installed resume).slot? (m.sp + 3) = some (linkValue m.hr) := by
  have hself : ∀ (k : Machine) (v : Value), k.HasSlot (k.sp + 1) →
      (k.pushed v).slot? (k.sp + 1) = some v := fun k v h => slot?_withSlot_self h v
  let tagged := m.pushed (.int (Int32.ofInt divisionTag))
  let addressed := tagged.pushed (.int resume)
  have hall : ∀ i, (m.installed resume).slot? i = (addressed.pushed (linkValue m.hr)).slot? i :=
    fun _ => rfl
  have htagged : tagged.sp = m.sp + 1 := by simp [tagged]
  have haddressed : addressed.sp = m.sp + 2 := by
    simp only [addressed, pushed_keeps, htagged]
    omega
  have hcap1 : tagged.capacity = m.capacity := by simp [tagged]
  have hcap2 : addressed.capacity = m.capacity := by simp only [addressed, pushed_keeps, hcap1]
  refine ⟨?_, ?_, ?_⟩
  · -- a later push leaves what lies below it alone
    rw [hall, slot?_pushed_of_le (by omega), slot?_pushed_of_le (by omega)]
    exact hself m _ ⟨hlo, by omega⟩
  · rw [hall, slot?_pushed_of_le (by omega), show m.sp + 2 = tagged.sp + 1 by omega]
    exact hself tagged _ ⟨by omega, by omega⟩
  · rw [hall, show m.sp + 3 = addressed.sp + 1 by omega]
    exact hself addressed _ ⟨by omega, by omega⟩

theorem installHandler_eq (resume : Int32) (m : Machine) :
    (installHandler resume).run m =
      (do
        pushAll (recordSlots m.hr resume)
        modify fun m => { m with hr := some (m.sp - 2).toNat } : Exec Unit).run m := by
  -- the register is set from the top after the pushes, whichever way they are grouped
  simp only [installHandler, recordSlots, pushAll, EStateM.run_bind, EStateM.run_get]
  cases (push _).run m with
  | error => rfl
  | ok u k =>
    dsimp only
    cases (push _).run k with
    | error => rfl
    | ok u k =>
      dsimp only
      cases (push _).run k <;> rfl

theorem installHandler_ok_iff {resume : Int32} {u : Unit} :
    (installHandler resume).run m = .ok u n ↔
      0 ≤ m.sp + 1 ∧ m.sp + 3 < m.capacity ∧ n = m.installed resume := by
  rw [installHandler_eq]
  simp only [bind_ok_iff, pushAll_ok_iff, modify_ok_iff]
  have hlength : (recordSlots m.hr resume).length = 3 := rfl
  have hfits : m.Fits (recordSlots m.hr resume) ↔ 0 ≤ m.sp + 1 ∧ m.sp + 3 < m.capacity := by
    simp [Fits, recordSlots]
  have hr : ((m.pushedAll (recordSlots m.hr resume)).sp - 2).toNat = (m.sp + 1).toNat := by
    simp only [pushedAll_keeps, hlength]
    omega
  constructor
  · rintro ⟨u, k, ⟨hroom, rfl⟩, rfl⟩
    obtain ⟨hlo, hhi⟩ := hfits.mp hroom
    refine ⟨hlo, hhi, ?_⟩
    rw [hr]
    rfl
  · rintro ⟨hlo, hhi, rfl⟩
    refine ⟨(), _, ⟨hfits.mpr ⟨hlo, hhi⟩, rfl⟩, ?_⟩
    rw [hr]
    rfl

theorem installHandler_error {resume : Int32} {why : Trap}
    (h : (installHandler resume).run m = .error why n) :
    ∃ done v rest, recordSlots m.hr resume = done ++ v :: rest ∧ m.Fits done ∧
      ¬ n.HasSlot (n.sp + 1) ∧ n = m.pushedAll done := by
  rw [installHandler_eq, bind_error_iff] at h
  rcases h with h | ⟨u, k, -, h⟩
  · exact pushAll_error h
  · cases h

end TagMachine.Machine
