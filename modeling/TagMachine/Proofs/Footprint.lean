import TagMachine.Proofs.StackBounds

/-!
What an instruction touches. `depth` counts the slots from the top down that the next instruction
pops, rearranges or overwrites in place. Below them a step changes nothing, except for the slot that
STI names, and it moves the top no lower than below them, except for a division by zero.
-/

namespace TagMachine.Machine

variable {m n : Machine}

/-! ## The blocks that calls move -/

theorem slot?_natCast (m : Machine) (i : Nat) : m.slot? i = m.slots[i]? := by
  simp [slot?]

theorem slot?_of_neg {i : Int} (h : i < 0) (m : Machine) : m.slot? i = none := by
  unfold slot?
  rw [if_neg (by omega)]

/-- CALL puts the return address and the saved base below its arguments, which move up. -/
theorem slot?_called {argc : Int} (target i : Int) (hn : 0 ≤ argc) (hfirst : 0 ≤ m.sp - argc + 1)
    (hroom : m.sp + 2 < m.capacity) :
    (m.called argc target).slot? i =
      if i = m.sp - argc + 1 then some (.int (Int32.ofInt m.pc))
      else if i = m.sp - argc + 2 then some (.int (Int32.ofInt m.bp))
      else if m.sp - argc + 3 ≤ i ∧ i ≤ m.sp + 2 then m.slot? (i - 2) else m.slot? i := by
  rcases Int.lt_or_le i 0 with hneg | hpos
  · rw [slot?_of_neg hneg, slot?_of_neg hneg, if_neg (by omega), if_neg (by omega),
      if_neg (by omega)]
  · obtain ⟨j, rfl⟩ := Int.eq_ofNat_of_zero_le hpos
    obtain ⟨first, hf⟩ := Int.eq_ofNat_of_zero_le hfirst
    have hsize : m.sp + 2 < m.slots.size := hroom
    have hnat : (m.sp - argc + 1).toNat = first := by omega
    rw [slot?_natCast, called]
    simp only [Array.getElem?_setIfInBounds, Array.size_setIfInBounds, size_moveUp, hnat]
    by_cases h1 : (j : Int) = m.sp - argc + 1
    · rw [if_neg (show ¬ first + 1 = j by omega), if_pos (show first = j by omega),
        if_pos (show first < m.slots.size by omega), if_pos h1]
    · -- the base pointer is written last, next to the return address
      by_cases h2 : (j : Int) = m.sp - argc + 2
      · rw [if_pos (show first + 1 = j by omega), if_pos (show first + 1 < m.slots.size by omega),
          if_neg h1, if_pos h2]
      · rw [if_neg (show ¬ first + 1 = j by omega), if_neg (show ¬ first = j by omega), if_neg h1,
          if_neg h2, getElem?_moveUp _ _ _ _ (by omega) (by omega)]
        by_cases h3 : m.sp - argc + 3 ≤ (j : Int) ∧ (j : Int) ≤ m.sp + 2
        · have hj : (j : Int) - 2 = (j - 2 : Nat) := by omega
          rw [if_pos h3, if_pos (by omega), hj, slot?_natCast]
        · rw [if_neg h3, if_neg (by omega), slot?_natCast]

/-- TCALL moves its arguments down over the dead slots. -/
theorem slot?_tailCalled {argc pop : Int} (target i : Int) (hn : 0 ≤ argc) (hp : 0 ≤ pop)
    (hfirst : 0 ≤ m.sp - argc + 1 - pop) (hsp : m.sp < m.capacity) :
    (m.tailCalled argc pop target).slot? i =
      if m.sp - argc + 1 - pop ≤ i ∧ i ≤ m.sp - pop then m.slot? (i + pop) else m.slot? i := by
  rcases Int.lt_or_le i 0 with hneg | hpos
  · rw [slot?_of_neg hneg, slot?_of_neg hneg, if_neg (by omega)]
  · obtain ⟨j, rfl⟩ := Int.eq_ofNat_of_zero_le hpos
    have hsize : m.sp < m.slots.size := hsp
    rw [slot?_natCast, tailCalled]
    dsimp only
    rw [getElem?_moveDown _ _ _ _ _ (by omega) (by omega)]
    by_cases h : m.sp - argc + 1 - pop ≤ (j : Int) ∧ (j : Int) ≤ m.sp - pop
    · have hj : (j : Int) + pop = (j + pop.toNat : Nat) := by omega
      rw [if_pos (by omega), if_pos h, hj, slot?_natCast]
    · rw [if_neg h, if_neg (by omega), slot?_natCast]

/-! ## Depth -/

/-- Operand `k` of the instruction at `pc`, zero where there is none. -/
def operand (m : Machine) (k : Nat) : Int := ((m.word? (k + 1)).map Int32.toInt).getD 0

theorem operand_eq {k : Nat} {w : Int32} (h : (m.fetched 1).word? k = some w) :
    m.operand k = w.toInt := by
  rw [word?_fetched, Nat.add_comm] at h
  simp [operand, h]

/-- How many slots the next instruction pops, rearranges or overwrites in place: they are the
topmost ones. -/
def depth (m : Machine) : Int :=
  match m.opcode? with
  | some .add | some .sub | some .mul | some .div | some .mod | some .eq | some .lt => 2
  | some .swap | some .sti => 2
  | some .not | some .ldi | some .ifzero | some .ifnzro => 1
  | some .call => m.operand 0
  | some .tcall => m.operand 0 + m.operand 1
  | some .ret => m.operand 0 + 3
  -- a negative operand drops slots
  | some .incsp => max 0 (-m.operand 0)
  | _ => 0

/-- How far the next instruction moves the top of the stack, a division by zero apart. -/
def rise (m : Machine) : Int :=
  match m.opcode? with
  | some .csti | some .cstf | some .cstc | some .dup | some .getbp | some .getsp => 1
  | some .add | some .sub | some .mul | some .div | some .mod | some .eq | some .lt => -1
  | some .sti | some .ifzero | some .ifnzro => -1
  | some .incsp => m.operand 0
  | some .call => 2
  | some .tcall => -m.operand 1
  | some .ret => -(m.operand 0 + 2)
  | some .ldargs => (m.args.flatMap argumentSlots).length
  | _ => 0

/-- The next instruction divides an int by zero. -/
def DividesByZero (m : Machine) : Prop :=
  m.opcode? = some .div ∧ (∃ a, m.slot? (m.sp - 1) = some (.int a)) ∧ m.slot? m.sp = some (.int 0)

theorem dividesByZero_of_intAt {a : Int} (hop : m.opcode? = some .div)
    (hl : m.intAt (m.sp - 1) = .ok a) (hr : m.intAt m.sp = .ok 0) : m.DividesByZero := by
  obtain ⟨l, hl, -⟩ := intAt_ok_iff.mp hl
  obtain ⟨r, hr, hzero⟩ := intAt_ok_iff.mp hr
  obtain rfl : r = 0 := Int32.toInt_inj.mp hzero.symm
  exact ⟨hop, ⟨l, hl⟩, hr⟩

theorem depth_operator {op : Operator} (h : m.opcode? = some op.opcode) : m.depth = 2 := by
  unfold depth
  cases op <;> rw [h] <;> rfl

theorem depth_offers {op : Opcode} {v : Value} (h : m.opcode? = some op)
    (ho : (m.fetched 1).Offers op v) : m.depth = 0 := by
  unfold depth
  cases ho <;> rw [h]

theorem depth_shows {op : Opcode} {output : Bytes} (h : m.opcode? = some op)
    (hs : (m.fetched 1).Shows op output) : m.depth = 0 := by
  unfold depth
  cases hs <;> rw [h]

theorem depth_branches {op : Opcode} {wanted : Bool} (h : m.opcode? = some op)
    (hb : Branches op wanted) : m.depth = 1 := by
  unfold depth
  cases hb <;> rw [h]

/-! ## Steps -/

/-- An instruction changes no slot below those it touches, but for the one that STI names. -/
theorem Performs.slot?_below {op : Opcode} {e : Effect} {i : Int} (hop : m.opcode? = some op)
    (h : Performs (m.fetched 1) op e n) (hi : i ≤ m.sp - m.depth)
    (hsti : m.opcode? = some .sti → m.intAt (m.sp - 1) ≠ .ok i) : n.slot? i = m.slot? i := by
  cases h with
  | push ho hroom =>
    rw [depth_offers hop ho] at hi
    rw [slot?_pushed_of_le (by simp only [fetched_keeps]; omega)]
    rfl
  | binary =>
    rw [depth_operator hop] at hi
    exact slot?_withSlot_ne (by simp only [fetched_keeps]; omega) _
  | recover => rfl
  | not | load =>
    simp only [depth, hop] at hi
    exact slot?_withSlot_ne (by simp only [fetched_keeps]; omega) _
  | swap =>
    simp only [depth, hop] at hi
    rw [slot?_withSlot_ne (by simp only [fetched_keeps]; omega),
      slot?_withSlot_ne (by simp only [fetched_keeps]; omega)]
    rfl
  | @store addr v haddr hv hslot =>
    -- the one instruction that can write below the slots it touches
    have hne : i ≠ addr.toInt := by
      rintro rfl
      exact hsti hop (intAt_ok_iff.mpr ⟨addr, haddr, rfl⟩)
    simp only [depth, hop] at hi
    exact (slot?_withSlot_ne (by simp only [fetched_keeps]; omega) v).trans
      (slot?_withSlot_ne hne v)
  | moveTop | goto | branch | print | stop => rfl
  | @call argc target hargc htarget hn hfirst hroom =>
    simp only [depth, hop, operand_eq hargc] at hi
    -- the header and the moved arguments all lie above the caller's slots
    rw [slot?_called (m := (m.fetched 1).fetched 2) _ _ hn hfirst hroom]
    simp only [fetched_keeps]
    rw [if_neg (by omega), if_neg (by omega), if_neg (by omega)]
    rfl
  | @tailCall argc pop target hargc hpop htarget hn hp hfirst hsp =>
    simp only [depth, hop, operand_eq hargc, operand_eq hpop] at hi
    rw [slot?_tailCalled _ _ hn hp hfirst hsp]
    simp only [fetched_keeps]
    rw [if_neg (by omega)]
    rfl
  | @ret k bp pc result hk hresult hk0 hbase hbp hpc =>
    simp only [depth, hop, operand_eq hk] at hi
    exact slot?_withSlot_ne (by simp only [fetched_keeps]; omega) _
  | arguments =>
    simp only [depth, hop] at hi
    rw [slot?_pushedAll_of_le (by simp only [fetched_keeps]; omega)]
    rfl

/-- An instruction that is not a division by zero leaves the top no lower than below the slots it
touches. -/
theorem Performs.depth_le {op : Opcode} {e : Effect} (hop : m.opcode? = some op)
    (h : Performs (m.fetched 1) op e n) (hz : ¬ m.DividesByZero) : m.sp - m.depth ≤ n.sp := by
  cases h with
  | push ho hroom =>
    simp only [depth_offers hop ho, pushed_keeps, fetched_keeps]
    omega
  | binary =>
    simp only [depth_operator hop, fetched_keeps]
    omega
  | recover hl hr hs => exact absurd ⟨hop, ⟨_, hl⟩, hr⟩ hz
  | not | load | swap =>
    simp only [depth, hop, withSlot_keeps, fetched_keeps]
    omega
  | store =>
    simp only [depth, hop, fetched_keeps]
    omega
  | moveTop hk hlo hhi =>
    simp only [depth, hop, operand_eq hk, fetched_keeps]
    omega
  | branch hb =>
    simp only [depth_branches hop hb, fetched_keeps]
    omega
  | goto | stop =>
    simp only [depth, hop, fetched_keeps]
    omega
  | print hs =>
    simp only [depth_shows hop hs, fetched_keeps]
    omega
  | call hargc htarget hn hfirst hroom =>
    simp only [depth, hop, operand_eq hargc, called, fetched_keeps]
    omega
  | tailCall hargc hpop htarget hn hp hfirst hsp =>
    simp only [depth, hop, operand_eq hargc, operand_eq hpop, tailCalled, fetched_keeps]
    omega
  | ret hk hresult hk0 hbase hbp hpc =>
    simp only [depth, hop, operand_eq hk, returned, fetched_keeps]
    omega
  | arguments =>
    simp only [depth, hop, pushedAll_keeps, fetched_keeps]
    omega

/-- An instruction that is not a division by zero moves the top by its rise and leaves the handler
register alone. -/
theorem Performs.sp_hr {op : Opcode} {e : Effect} (hop : m.opcode? = some op)
    (h : Performs (m.fetched 1) op e n) (hz : ¬ m.DividesByZero) :
    n.sp = m.sp + m.rise ∧ n.hr = m.hr := by
  unfold rise
  cases h with
  | push ho hroom => cases ho <;> simp [hop]
  | @binary op => cases op <;> rw [hop] <;> simp [Operator.opcode] <;> omega
  | recover hl hr hs => exact absurd ⟨hop, ⟨_, hl⟩, hr⟩ hz
  | branch hb => cases hb <;> rw [hop] <;> simp <;> omega
  | print hs => cases hs <;> simp [hop]
  | moveTop hk => simp [hop, operand_eq hk]
  | call => simp [hop, called]
  | tailCall hargc hpop =>
    simp only [hop, operand_eq hpop, tailCalled, fetched_keeps, and_true]
    omega
  | ret hk =>
    simp only [hop, operand_eq hk, returned, withSlot_keeps, fetched_keeps, and_true]
    omega
  | store =>
    simp only [hop, withSlot_keeps, fetched_keeps, and_true]
    omega
  | _ => simp [hop]

/-- A division by zero that goes through is one that a handler took. -/
theorem Performs.of_dividesByZero {op : Opcode} {e : Effect} (hop : m.opcode? = some op)
    (h : Performs (m.fetched 1) op e n) (hz : m.DividesByZero) :
    ∃ r resume before, m.search = .found r resume before ∧
      n = (m.fetched 1).recovered r resume before := by
  obtain ⟨hdiv, ⟨a, ha⟩, hzero⟩ := hz
  obtain rfl : op = .div := by simpa [hdiv] using hop.symm
  obtain ⟨-, hrun⟩ := quiet_ok_iff.mp (perform_of_performs h)
  have hap : Operator.div.apply (.int a) (.int 0) = .error .intDivisionByZero :=
    Operator.apply_divisionByZero_iff.mpr ⟨rfl, ⟨a, rfl⟩, rfl⟩
  -- the operands fix what the operator does, so no other rule can have applied
  rw [binary_run (m := m.fetched 1) ha hzero, hap] at hrun
  obtain ⟨r, resume, before, hs, rfl⟩ := unwind_ok_iff.mp hrun
  have hsame : (m.fetched 1).search = m.search := search_congr rfl rfl
  exact ⟨r, resume, before, by rw [← hsame, hs], rfl⟩

/-- A division by zero comes to what the search for a handler comes to. -/
theorem step_of_dividesByZero (hready : m.ready) (hz : m.DividesByZero) :
    m.step =
      match m.search with
      | .found r resume before =>
        (.ran [], ((m.fetched 1).recovered r resume before).counted .running)
      | .nothing =>
        (.failed (.fault ⟨m.pc, m.wordAt m.pc, .unhandledDivision⟩),
          { m.fetched 1 with hr := none }.counted
            (.faulted ⟨m.pc, m.wordAt m.pc, .unhandledDivision⟩))
      | .corrupt r why =>
        (.failed (.fault ⟨m.pc, m.wordAt m.pc, why⟩),
          { m.fetched 1 with hr := some r }.counted (.faulted ⟨m.pc, m.wordAt m.pc, why⟩)) := by
  obtain ⟨hdiv, ⟨a, ha⟩, hzero⟩ := hz
  obtain ⟨w, hw, hop⟩ := Option.bind_eq_some_iff.mp hdiv
  have hap : Operator.div.apply (.int a) (.int 0) = .error .intDivisionByZero :=
    Operator.apply_divisionByZero_iff.mpr ⟨rfl, ⟨a, rfl⟩, rfl⟩
  have hsame : (m.fetched 1).search = m.search := search_congr rfl rfl
  have hstatus : m.status = .running := ((ready_iff m).mp hready).1
  have hrun : instruction.run m = (do unwind; return .quiet : Exec Effect).run (m.fetched 1) := by
    simp only [instruction, perform, EStateM.run_bind, fetch_run, hw, hop]
    rw [binary_run (m := m.fetched 1) ha hzero, hap]
  rw [step_of_ready hready, hrun]
  simp only [unwind, EStateM.run_bind, EStateM.run_get, hsame]
  cases m.search with
  | found r resume before =>
    have hrecovered : ((m.fetched 1).recovered r resume before).status = .running := hstatus
    dsimp only
    rw [← counted_of_status hrecovered]
    rfl
  | nothing => rfl
  | corrupt r why => rfl

end TagMachine.Machine
