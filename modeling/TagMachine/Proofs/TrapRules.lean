import TagMachine.Proofs.InstructionRules

/-!
What an instruction that traps leaves behind. `Leaves m op n` lists all of it: operands that were
read, a condition that was popped, the arguments that still fitted, and a moved handler register.
-/

namespace TagMachine.Machine

variable {m n : Machine}

/-- What an instruction that traps leaves: it has read some of its operands, and only three
instructions may have done more. -/
inductive Leaves (m : Machine) : Opcode → Machine → Prop
  | operands {op : Opcode} {k : Nat} : k ≤ op.arity → Leaves m op (m.fetched k)
  | condition {op : Opcode} {wanted : Bool} {v : Value} : Branches op wanted →
      m.slot? m.sp = some v → m.word? 0 = none → Leaves m op { m with sp := m.sp - 1 }
  | arguments {done rest : List Value} {v : Value} :
      m.args.flatMap argumentSlots = done ++ v :: rest → m.Fits done →
      ¬ (m.pushedAll done).HasSlot (m.sp + done.length + 1) → Leaves m .ldargs (m.pushedAll done)
  | unhandled : m.search = .nothing → Leaves m .div { m with hr := none }
  | corrupt {h : Nat} {why : Trap} :
      m.search = .corrupt h why → Leaves m .div { m with hr := some h }

theorem Leaves.still (m : Machine) (op : Opcode) : Leaves m op m := by
  have h := Leaves.operands (m := m) (Nat.zero_le op.arity)
  rw [fetched_zero] at h
  exact h

theorem unwind_error {why : Trap} (h : unwind.run m = .error why n) :
    m.search = .nothing ∧ n = { m with hr := none } ∨
      ∃ r, m.search = .corrupt r why ∧ n = { m with hr := some r } := by
  unfold unwind at h
  simp only [EStateM.run_bind, EStateM.run_get] at h
  cases hs : m.search with
  | found r resume before => simp [hs] at h
  | nothing => simp_all
  | corrupt r cause => simp_all

theorem binary_error {op : Operator} {why : Trap} (h : (binary op).run m = .error why n) :
    Leaves m op.opcode n := by
  simp only [binary, bind_error_iff, get_ok_iff, get_error_iff, getSlot_ok_iff, top_run, and_assoc,
    exists_and_left, exists_eq_left, false_or] at h
  rcases h with h | ⟨l, hl, h | ⟨r, hr, h⟩⟩
  · rw [getSlot_error h]
    exact .still m _
  · rw [getSlot_error h]
    exact .still m _
  · split at h
    · cases h
    · next hz =>
      obtain ⟨rfl, -, -⟩ := Operator.apply_divisionByZero_iff.mp hz
      rcases unwind_error h with ⟨hs, rfl⟩ | ⟨r, hs, rfl⟩
      · exact .unhandled hs
      · exact .corrupt hs
    · cases h
      exact .still m _

theorem negate_error {why : Trap} (h : negate.run m = .error why n) : n = m := by
  simp only [negate, bind_error_iff, getSlot_ok_iff, top_run, and_assoc, exists_and_left,
    exists_eq_left] at h
  rcases h with h | ⟨v, -, h⟩
  · exact getSlot_error h
  · split at h
    · simp only [bind_error_iff, get_ok_iff, get_error_iff, and_assoc, exists_and_left,
        exists_eq_left, false_or] at h
      exact (setSlot_error h).2
    · cases h
      rfl

theorem swap_error {why : Trap} (h : swap.run m = .error why n) : n = m := by
  simp only [swap, bind_error_iff, get_ok_iff, get_error_iff, getSlot_ok_iff, top_run, and_assoc,
    exists_and_left, exists_eq_left, false_or] at h
  rcases h with h | ⟨a, -, h | ⟨b, -, h⟩⟩
  · exact getSlot_error h
  · exact getSlot_error h
  · cases h

theorem loadIndirect_error {why : Trap} (h : loadIndirect.run m = .error why n) : n = m := by
  simp only [loadIndirect, bind_error_iff, get_ok_iff, get_error_iff, getInt_ok_iff, getSlot_ok_iff,
    and_assoc, exists_and_left, exists_eq_left, false_or] at h
  rcases h with h | ⟨addr, -, h | ⟨v, -, h⟩⟩
  · exact getInt_error h
  · exact getSlot_error h
  · exact (setSlot_error h).2

theorem storeIndirect_error {why : Trap} (h : storeIndirect.run m = .error why n) : n = m := by
  simp only [storeIndirect, bind_error_iff, get_ok_iff, get_error_iff, getInt_ok_iff,
    getSlot_ok_iff, top_run, setSlot_ok_iff, and_assoc, exists_and_left, exists_eq_left,
    false_or] at h
  rcases h with h | ⟨addr, -, h | ⟨v, -, h | ⟨-, -, h⟩⟩⟩
  · exact getInt_error h
  · exact getSlot_error h
  · exact (setSlot_error h).2
  · cases h

theorem moveTop_error {why : Trap} (h : moveTop.run m = .error why n) : Leaves m .incsp n := by
  simp only [moveTop, bind_error_iff, get_ok_iff, get_error_iff, fetch_ok_iff, and_assoc,
    exists_and_left, exists_eq_left, false_or] at h
  rcases h with h | ⟨k, -, h⟩
  · rw [(fetch_error h).2]
    exact .still m _
  · split at h
    · cases h
      exact .operands (by decide)
    · cases h

/-- A conditional jump that traps is as it was, unless its condition is a number and its target is
missing: the condition is gone already when that turns out. -/
theorem branch_traps {op : Opcode} {wanted : Bool} {why : Trap}
    (h : (branch op wanted).run m = .error why n) :
    (∀ v, m.slot? m.sp = some v → ¬ v.isNumeric) ∧
        why ≠ .outsideProgram m.pc m.code.size ∧ n = m ∨
      (∃ v, m.slot? m.sp = some v ∧ v.isNumeric) ∧ m.word? 0 = none ∧
        why = .outsideProgram m.pc m.code.size ∧ n = { m with sp := m.sp - 1 } := by
  simp only [branch, bind_error_iff, getSlot_ok_iff, top_run, and_assoc, exists_and_left,
    exists_eq_left] at h
  rcases h with h | ⟨v, hv, h⟩
  · rw [getSlot_run] at h
    split at h
    · cases h
    · next hnone =>
      cases h
      exact Or.inl ⟨by simp [hnone], by simp, rfl⟩
  · have hnumeric := v.isSome_isZero?
    split at h
    · next hz =>
      cases h
      rw [hz] at hnumeric
      exact Or.inl ⟨by simp [hv, ← hnumeric], by simp, rfl⟩
    · next zero hz =>
      rw [hz] at hnumeric
      simp only [bind_error_iff, modify_ok_iff, fetch_ok_iff, and_assoc, exists_and_left,
        exists_eq_left] at h
      rcases h with h | ⟨-, h | ⟨target, -, h⟩⟩
      · cases h
      · rw [fetch_run] at h
        split at h
        · cases h
        · next hw =>
          cases h
          exact Or.inr ⟨⟨v, hv, hnumeric.symm⟩, hw, rfl, rfl⟩
      · split at h <;> cases h

theorem branch_error {op : Opcode} {wanted : Bool} {why : Trap} (hop : Branches op wanted)
    (h : (branch op wanted).run m = .error why n) : Leaves m op n := by
  rcases branch_traps h with ⟨-, -, rfl⟩ | ⟨⟨v, hv, -⟩, hw, -, rfl⟩
  · exact .still n _
  · exact .condition hop hv hw

theorem call_error {why : Trap} (h : call.run m = .error why n) : Leaves m .call n := by
  simp only [call, bind_error_iff, get_ok_iff, get_error_iff, fetch_ok_iff, fetched_fetched,
    and_assoc, exists_and_left, exists_eq_left, false_or] at h
  rcases h with h | ⟨argc, -, h | ⟨target, -, h⟩⟩
  · rw [(fetch_error h).2]
    exact .still m _
  · rw [(fetch_error h).2]
    exact .operands (by decide)
  · split at h
    · cases h
      exact .operands (by decide)
    · split at h
      · cases h
        exact .operands (by decide)
      · cases h

theorem tailCall_error {why : Trap} (h : tailCall.run m = .error why n) : Leaves m .tcall n := by
  simp only [tailCall, bind_error_iff, get_ok_iff, get_error_iff, fetch_ok_iff, fetched_fetched,
    and_assoc, exists_and_left, exists_eq_left, false_or] at h
  rcases h with h | ⟨argc, -, h | ⟨pop, -, h | ⟨target, -, h⟩⟩⟩
  · rw [(fetch_error h).2]
    exact .still m _
  · rw [(fetch_error h).2]
    exact .operands (by decide)
  · rw [(fetch_error h).2]
    exact .operands (by decide)
  · split at h
    · cases h
      exact .operands (by decide)
    · cases h

theorem ret_error {why : Trap} (h : ret.run m = .error why n) : Leaves m .ret n := by
  simp only [ret, bind_error_iff, get_ok_iff, get_error_iff, fetch_ok_iff, getSlot_ok_iff, top_run,
    and_assoc, exists_and_left, exists_eq_left, false_or] at h
  have hone : Leaves m .ret (m.fetched 1) := .operands (by decide)
  rcases h with h | ⟨k, -, h | ⟨result, -, h⟩⟩
  · rw [(fetch_error h).2]
    exact .still m _
  · rw [getSlot_error h]
    exact hone
  · split at h
    · cases h
      exact hone
    · simp only [bind_error_iff, getInt_ok_iff, and_assoc, exists_and_left, exists_eq_left] at h
      rcases h with h | ⟨bp, -, h | ⟨pc, -, h⟩⟩
      · rw [getInt_error h]
        exact hone
      · rw [getInt_error h]
        exact hone
      · cases h

theorem printValue_error {why : Trap} (h : printValue.run m = .error why n) : n = m := by
  simp only [printValue, bind_error_iff, getSlot_ok_iff, top_run, and_assoc, exists_and_left,
    exists_eq_left] at h
  rcases h with h | ⟨v, -, h⟩
  · exact getSlot_error h
  · split at h <;> cases h
    rfl

theorem printChar_error {why : Trap} (h : printChar.run m = .error why n) : n = m := by
  simp only [printChar, bind_error_iff, getSlot_ok_iff, top_run, and_assoc, exists_and_left,
    exists_eq_left] at h
  rcases h with h | ⟨v, -, h⟩
  · exact getSlot_error h
  · split at h <;> cases h
    rfl

theorem quiet_error {x : Exec Unit} {why : Trap}
    (h : (do x; return Effect.quiet : Exec Effect).run m = .error why n) :
    x.run m = .error why n := by
  rw [bind_error_iff] at h
  rcases h with h | ⟨u, k, -, h⟩
  · exact h
  · cases h

theorem constant_error {op : Opcode} {f : Int32 → Value} {why : Trap} (hop : op.arity = 1)
    (h : (do push (f (← fetch)); return Effect.quiet : Exec Effect).run m = .error why n) :
    Leaves m op n := by
  rw [bind_error_iff] at h
  rcases h with h | ⟨w, k, hw, h⟩
  · rw [(fetch_error h).2]
    exact .still m op
  · obtain ⟨-, rfl⟩ := fetch_ok_iff.mp hw
    rw [(push_error (quiet_error h)).2]
    exact .operands (by omega)

/-- LDARGS traps only where the arguments do not fit, and those before the one that did not stay on
the stack. -/
theorem loadArguments_error {why : Trap} (h : (perform .ldargs).run m = .error why n) :
    ∃ done v rest, m.args.flatMap argumentSlots = done ++ v :: rest ∧ m.Fits done ∧
      ¬ (m.pushedAll done).HasSlot (m.sp + done.length + 1) ∧ n = m.pushedAll done := by
  unfold perform at h
  dsimp only at h
  rw [bind_error_iff] at h
  rcases h with h | ⟨k, l, hk, h⟩
  · cases h
  · obtain ⟨rfl, rfl⟩ := get_ok_iff.mp hk
    obtain ⟨done, v, rest, hargs, hfits, hfull, rfl⟩ := pushAll_error (quiet_error h)
    simp only [pushedAll_keeps] at hfull
    exact ⟨done, v, rest, hargs, hfits, hfull, rfl⟩

/-- A trap leaves nothing that is not listed. -/
theorem leaves_of_perform {op : Opcode} {why : Trap} (h : (perform op).run m = .error why n) :
    Leaves m op n := by
  unfold perform at h
  cases op <;> dsimp only at h
  case csti => exact constant_error (f := .int) rfl h
  case cstf => exact constant_error (f := fun w => .float ⟨w.toUInt32⟩) rfl h
  case cstc => exact constant_error (f := charOfWord) rfl h
  case dup =>
    rw [bind_error_iff] at h
    rcases h with h | ⟨v, k, hv, h⟩
    · rw [getSlot_error h]
      exact .still m _
    · obtain ⟨-, rfl⟩ := getSlot_ok_iff.mp hv
      rw [(push_error (quiet_error h)).2]
      exact .still _ _
  case getbp | getsp =>
    rw [bind_error_iff] at h
    rcases h with h | ⟨v, k, hv, h⟩
    · cases h
    · obtain ⟨-, rfl⟩ := get_ok_iff.mp hv
      rw [(push_error (quiet_error h)).2]
      exact .still _ _
  case goto =>
    rw [bind_error_iff] at h
    rcases h with h | ⟨target, k, ht, h⟩
    · rw [(fetch_error h).2]
      exact .still m _
    · have := quiet_error h
      cases this
  case ldargs =>
    obtain ⟨done, v, rest, hargs, hfits, hfull, rfl⟩ := loadArguments_error h
    exact .arguments hargs hfits hfull
  case printi =>
    rw [bind_error_iff] at h
    rcases h with h | ⟨b, k, -, h⟩
    · rw [printValue_error h]
      exact .still m _
    · cases h
  case printc =>
    rw [bind_error_iff] at h
    rcases h with h | ⟨b, k, -, h⟩
    · rw [printChar_error h]
      exact .still m _
    · cases h
  case stop => cases h
  -- the others do nothing beside their part
  all_goals have hpart := quiet_error h
  case add | sub | mul | div | mod | eq | lt => exact binary_error hpart
  case not =>
    rw [negate_error hpart]
    exact .still m _
  case swap =>
    rw [swap_error hpart]
    exact .still m _
  case ldi =>
    rw [loadIndirect_error hpart]
    exact .still m _
  case sti =>
    rw [storeIndirect_error hpart]
    exact .still m _
  case incsp => exact moveTop_error hpart
  case ifzero => exact branch_error .ifZero hpart
  case ifnzro => exact branch_error .ifNotZero hpart
  case call => exact call_error hpart
  case tcall => exact tailCall_error hpart
  case ret => exact ret_error hpart

end TagMachine.Machine
