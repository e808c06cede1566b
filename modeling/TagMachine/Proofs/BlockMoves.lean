import Mathlib.Algebra.Ring.Nat
import TagMachine.Proofs.Footprint

/-!
The blocks that calls move. CALL moves its arguments up to make room for a header, TCALL moves them
down over dead slots, and both write where they have yet to read if the block is longer than the way
it goes. Yet each argument arrives as it was before the call, as if all were copied at once.
-/

namespace TagMachine.Machine

variable {m n : Machine} {output : Bytes}

/-! ## What a header can hold -/

/-- A header holds the base pointer without loss, on a stack of fewer than 2^31 slots. -/
def BaseFits (m : Machine) : Prop := m.capacity < 2 ^ 31 → (Int32.ofInt m.bp).toInt = m.bp

theorem BaseFits.of_eq (h : m.BaseFits) (hcap : n.capacity = m.capacity) (hbp : n.bp = m.bp) :
    n.BaseFits := by
  unfold BaseFits
  rw [hcap, hbp]
  exact h

theorem BaseFits.performs {op : Opcode} {e : Effect} (h : m.BaseFits) (hrule : Performs m op e n) :
    n.BaseFits := by
  have hcap := hrule.capacity
  cases hrule with
  | call hargc htarget hn hfirst hroom =>
    intro hsmall
    rw [hcap] at hsmall
    simp only [called, fetched_keeps]
    exact Int32.toInt_ofInt_of_le (by omega) (by omega)
  | ret =>
    -- the base pointer comes out of a slot, so it goes back into one
    intro _
    simp [returned]
  | _ => exact h.of_eq hcap (by simp [recovered, tailCalled])

theorem BaseFits.leaves {op : Opcode} (h : m.BaseFits) (hleft : Leaves m op n) : n.BaseFits := by
  have hcap := hleft.capacity
  cases hleft with
  | _ => exact h.of_eq hcap (by simp)

theorem invariant_baseFits : Invariant BaseFits where
  counted _ h := h.of_eq rfl rfl
  fetched _ h := h.of_eq rfl rfl
  pushed h _ _ := h.of_eq (by simp) (by simp)
  performs h hrule := h.performs hrule
  leaves h hleft := h.leaves hleft
  installed _ h _ _ := h.of_eq (by simp) (by simp)
  load _ _ := fun _ => by
    simp only [load, reset]
    decide

theorem baseFits_new (program : List Int32) (capacity maxSteps : Int) (args : List Value) :
    (new program capacity maxSteps args).BaseFits := fun _ => by
  simp only [new]
  decide

/-! ## When a call goes through -/

/-- The operands of CALL are in the program, its arguments are on the stack, and there is room for
the header. -/
def CallFits (m : Machine) : Prop :=
  ∃ argc target : Int32, m.word? 1 = some argc ∧ m.word? 2 = some target ∧ 0 ≤ argc.toInt ∧
    argc.toInt ≤ m.sp + 1 ∧ m.sp + 2 < m.capacity

/-- The operands of TCALL are in the program, and its arguments and the dead slots are on the
stack. -/
def TailCallFits (m : Machine) : Prop :=
  ∃ argc pop target : Int32, m.word? 1 = some argc ∧ m.word? 2 = some pop ∧
    m.word? 3 = some target ∧ 0 ≤ argc.toInt ∧ 0 ≤ pop.toInt ∧
    argc.toInt + pop.toInt ≤ m.sp + 1 ∧ m.sp < m.capacity

theorem Performs.of_call {e : Effect} (h : Performs m .call e n) :
    ∃ argc target : Int32, m.word? 0 = some argc ∧ m.word? 1 = some target ∧ 0 ≤ argc.toInt ∧
      0 ≤ m.sp - argc.toInt + 1 ∧ m.sp + 2 < m.capacity ∧
      n = (m.fetched 2).called argc.toInt target.toInt := by
  generalize hop : Opcode.call = op at h
  cases h with
  | call hargc htarget hn hfirst hroom => exact ⟨_, _, hargc, htarget, hn, hfirst, hroom, rfl⟩
  | push ho => cases ho <;> cases hop
  | @binary op => cases op <;> cases hop
  | branch hb => cases hb <;> cases hop
  | print hs => cases hs <;> cases hop
  | _ => cases hop

theorem Performs.of_tailCall {e : Effect} (h : Performs m .tcall e n) :
    ∃ argc pop target : Int32, m.word? 0 = some argc ∧ m.word? 1 = some pop ∧
      m.word? 2 = some target ∧ 0 ≤ argc.toInt ∧ 0 ≤ pop.toInt ∧
      0 ≤ m.sp - argc.toInt + 1 - pop.toInt ∧ m.sp < m.capacity ∧
      n = m.tailCalled argc.toInt pop.toInt target.toInt := by
  generalize hop : Opcode.tcall = op at h
  cases h with
  | tailCall hargc hpop htarget hn hp hfirst hsp =>
    exact ⟨_, _, _, hargc, hpop, htarget, hn, hp, hfirst, hsp, rfl⟩
  | push ho => cases ho <;> cases hop
  | @binary op => cases op <;> cases hop
  | branch hb => cases hb <;> cases hop
  | print hs => cases hs <;> cases hop
  | _ => cases hop

/-- A call goes through exactly if it fits, and leaves the machine that its rule says. -/
theorem step_call_iff (hcall : m.opcode? = some .call) :
    m.step = (.ran output, n) ↔ m.ready ∧ m.CallFits ∧ output = [] ∧
      n = ((m.fetched 3).called (m.operand 0) (m.operand 1)).counted .running := by
  have hword := word?_fetched m 1
  have hread : m.fetched 3 = (m.fetched 1).fetched 2 := (fetched_fetched m 1 2).symm
  rw [step_ran_iff]
  constructor
  · rintro ⟨hready, op, k, hop, hrule, rfl⟩
    obtain rfl : op = .call := by simpa [hcall] using hop.symm
    obtain ⟨hquiet, -⟩ := quiet_ok_iff.mp (perform_of_performs hrule)
    obtain ⟨argc, target, hargc, htarget, hn, hfirst, hroom, rfl⟩ := hrule.of_call
    rw [operand_eq hargc, operand_eq htarget, hread]
    rw [hword] at hargc htarget
    simp only [fetched_keeps] at hfirst hroom
    cases hquiet
    exact ⟨hready, ⟨argc, target, hargc, htarget, hn, by omega, hroom⟩, rfl, rfl⟩
  · rintro ⟨hready, ⟨argc, target, hargc, htarget, hn, hargs, hroom⟩, rfl, rfl⟩
    replace hargc : (m.fetched 1).word? 0 = some argc := (hword 0).trans hargc
    replace htarget : (m.fetched 1).word? 1 = some target := (hword 1).trans htarget
    refine ⟨hready, .call, _, hcall, ?_, rfl⟩
    rw [operand_eq hargc, operand_eq htarget, hread]
    refine Performs.call hargc htarget hn ?_ hroom
    simp only [fetched_keeps]
    omega

/-- So does a tail call. -/
theorem step_tailCall_iff (hcall : m.opcode? = some .tcall) :
    m.step = (.ran output, n) ↔ m.ready ∧ m.TailCallFits ∧ output = [] ∧
      n =
        ((m.fetched 1).tailCalled (m.operand 0) (m.operand 1) (m.operand 2)).counted .running := by
  have hword := word?_fetched m 1
  rw [step_ran_iff]
  constructor
  · rintro ⟨hready, op, k, hop, hrule, rfl⟩
    obtain rfl : op = .tcall := by simpa [hcall] using hop.symm
    obtain ⟨hquiet, -⟩ := quiet_ok_iff.mp (perform_of_performs hrule)
    obtain ⟨argc, pop, target, hargc, hpop, htarget, hn, hp, hfirst, hsp, rfl⟩ := hrule.of_tailCall
    rw [operand_eq hargc, operand_eq hpop, operand_eq htarget]
    rw [hword] at hargc hpop htarget
    simp only [fetched_keeps] at hfirst hsp
    cases hquiet
    exact ⟨hready, ⟨argc, pop, target, hargc, hpop, htarget, hn, hp, by omega, hsp⟩, rfl, rfl⟩
  · rintro ⟨hready, ⟨argc, pop, target, hargc, hpop, htarget, hn, hp, hfirst, hsp⟩, rfl, rfl⟩
    replace hargc : (m.fetched 1).word? 0 = some argc := (hword 0).trans hargc
    replace hpop : (m.fetched 1).word? 1 = some pop := (hword 1).trans hpop
    replace htarget : (m.fetched 1).word? 2 = some target := (hword 2).trans htarget
    refine ⟨hready, .tcall, _, hcall, ?_, rfl⟩
    rw [operand_eq hargc, operand_eq hpop, operand_eq htarget]
    refine Performs.tailCall hargc hpop htarget hn hp ?_ hsp
    simp only [fetched_keeps]
    omega

/-! ## What a call leaves -/

/-- What CALL leaves: its arguments two slots further up, the header below them, and all other slots
as they were. -/
structure OpensFrame (m n : Machine) : Prop where
  arguments : ∀ j, m.sp - m.operand 0 + 1 ≤ j → j ≤ m.sp → n.slot? (j + 2) = m.slot? j
  address : n.slot? (m.sp - m.operand 0 + 1) = some (.int (Int32.ofInt (m.pc + 3)))
  base : n.slot? (m.sp - m.operand 0 + 2) = some (.int (Int32.ofInt m.bp))
  others : ∀ i, i < m.sp - m.operand 0 + 1 ∨ m.sp + 2 < i → n.slot? i = m.slot? i
  pc : n.pc = m.operand 1
  sp : n.sp = m.sp + 2
  bp : n.bp = m.sp - m.operand 0 + 3
  hr : n.hr = m.hr

/-- What TCALL leaves: its arguments further down by the number of dead slots, and all slots but
those they went to as they were. -/
structure ReusesFrame (m n : Machine) : Prop where
  arguments : ∀ j, m.sp - m.operand 0 + 1 ≤ j → j ≤ m.sp →
    n.slot? (j - m.operand 1) = m.slot? j
  others : ∀ i, i < m.sp - m.operand 0 - m.operand 1 + 1 ∨ m.sp - m.operand 1 < i →
    n.slot? i = m.slot? i
  pc : n.pc = m.operand 2
  sp : n.sp = m.sp - m.operand 1
  bp : n.bp = m.bp
  hr : n.hr = m.hr

theorem CallFits.bounds (h : m.CallFits) :
    0 ≤ m.operand 0 ∧ m.operand 0 ≤ m.sp + 1 ∧ m.sp + 2 < m.capacity := by
  obtain ⟨argc, target, hargc, -, hbounds⟩ := h
  rw [operand_eq ((word?_fetched m 1 0).trans hargc)]
  exact hbounds

theorem CallFits.opensFrame (h : m.CallFits) (status : Status) :
    m.OpensFrame (((m.fetched 3).called (m.operand 0) (m.operand 1)).counted status) := by
  obtain ⟨hn, hargs, hroom⟩ := h.bounds
  have hslot := fun i => slot?_called (m := m.fetched 3) (m.operand 1) i hn
    (by simp only [fetched_keeps]; omega) hroom
  simp only [fetched_keeps, slot?_fetched] at hslot
  refine ⟨?_, ?_, ?_, ?_, ?_, ?_, ?_, ?_⟩
  · intro j hlo hhi
    rw [slot?_counted, hslot, if_neg (by omega), if_neg (by omega), if_pos (by omega),
      Int.add_sub_cancel]
  · rw [slot?_counted, hslot, if_pos rfl]
    rfl
  · rw [slot?_counted, hslot, if_neg (by omega), if_pos rfl]
  · intro i hi
    rw [slot?_counted, hslot, if_neg (by omega), if_neg (by omega), if_neg (by omega)]
  all_goals simp only [counted_keeps, called, fetched_keeps]
  omega

theorem TailCallFits.bounds (h : m.TailCallFits) :
    0 ≤ m.operand 0 ∧ 0 ≤ m.operand 1 ∧ m.operand 0 + m.operand 1 ≤ m.sp + 1 ∧
      m.sp < m.capacity := by
  obtain ⟨argc, pop, target, hargc, hpop, -, hbounds⟩ := h
  rw [operand_eq ((word?_fetched m 1 0).trans hargc), operand_eq ((word?_fetched m 1 1).trans hpop)]
  exact hbounds

theorem TailCallFits.reusesFrame (h : m.TailCallFits) (status : Status) :
    m.ReusesFrame
      (((m.fetched 1).tailCalled (m.operand 0) (m.operand 1) (m.operand 2)).counted status) := by
  obtain ⟨hn, hp, hfirst, hsp⟩ := h.bounds
  have hslot := fun i => slot?_tailCalled (m := m.fetched 1) (m.operand 2) i hn hp
    (by simp only [fetched_keeps]; omega) hsp
  simp only [fetched_keeps, slot?_fetched] at hslot
  refine ⟨?_, ?_, ?_, ?_, ?_, ?_⟩
  · intro j hlo hhi
    rw [slot?_counted, hslot, if_pos (by omega), Int.sub_add_cancel]
  · intro i hi
    rw [slot?_counted, hslot, if_neg (by omega)]
  all_goals simp only [counted_keeps, tailCalled, fetched_keeps]

/-- A call that has gone through lies inside the program. -/
theorem call_inside (h : m.step = (.ran output, n)) (hcall : m.opcode? = some .call) :
    0 ≤ m.pc ∧ m.pc + 3 ≤ m.code.size ∧ 0 ≤ m.sp - m.operand 0 + 1 := by
  obtain ⟨-, hfits, -, -⟩ := (step_call_iff hcall).mp h
  obtain ⟨-, hargs, -⟩ := hfits.bounds
  obtain ⟨_, target, -, htarget, -⟩ := hfits
  obtain ⟨w, hw, -⟩ := Option.bind_eq_some_iff.mp hcall
  have hopcode := word?_lt hw
  have hlast := word?_lt htarget
  omega

/-- The header holds where the call came from and the base pointer, where both fit into 32 bits. -/
theorem OpensFrame.header (h : m.OpensFrame n) (hpc : 0 ≤ m.pc) (hsize : m.pc + 3 ≤ m.code.size)
    (hcode : m.code.size < 2 ^ 31) (hbase : (Int32.ofInt m.bp).toInt = m.bp) :
    n.intAt (m.sp - m.operand 0 + 1) = .ok (m.pc + 3) ∧
      n.intAt (m.sp - m.operand 0 + 2) = .ok m.bp := by
  have haddress : (Int32.ofInt (m.pc + 3)).toInt = m.pc + 3 :=
    Int32.toInt_ofInt_of_le (by omega) (by omega)
  exact ⟨intAt_ok_iff.mpr ⟨_, h.address, haddress.symm⟩, intAt_ok_iff.mpr ⟨_, h.base, hbase.symm⟩⟩

/-- Whatever lies on the stack, CALL goes through exactly if its arguments are there and two slots
are free, and TCALL exactly if its arguments and the dead slots are there. Each argument then is
where the call moves it, unchanged, also where the block was written over itself. On a machine that
a host can reach, with a program and a stack smaller than 2^31, the header reads back as the return
address and the base pointer. -/
theorem calls_move_all_their_arguments_at_once (m : Machine) :
    (m.opcode? = some .call →
      ((∃ output n, m.step = (.ran output, n)) ↔ m.ready ∧ m.CallFits) ∧
      ∀ output n, m.step = (.ran output, n) → m.OpensFrame n ∧
        ∀ program capacity maxSteps args requests,
          m = (new program capacity maxSteps args).serveAll requests →
          m.code.size < 2 ^ 31 → m.capacity < 2 ^ 31 →
            n.intAt (m.sp - m.operand 0 + 1) = .ok (m.pc + 3) ∧
            n.intAt (m.sp - m.operand 0 + 2) = .ok m.bp) ∧
    (m.opcode? = some .tcall →
      ((∃ output n, m.step = (.ran output, n)) ↔ m.ready ∧ m.TailCallFits) ∧
      ∀ output n, m.step = (.ran output, n) → m.ReusesFrame n) := by
  constructor
  · intro hcall
    refine ⟨?_, ?_⟩
    · simp [step_call_iff hcall]
    · intro output n hran
      obtain ⟨-, hfits, -, rfl⟩ := (step_call_iff hcall).mp hran
      have hframe := hfits.opensFrame .running
      refine ⟨hframe, ?_⟩
      intro program capacity maxSteps args requests hm hcode hslots
      have hbase : m.BaseFits := by
        rw [hm]
        exact invariant_baseFits.serveAll requests (baseFits_new program capacity maxSteps args)
      obtain ⟨hpc, hsize, -⟩ := call_inside hran hcall
      exact hframe.header hpc hsize hcode (hbase hslots)
  · intro hcall
    refine ⟨?_, ?_⟩
    · simp [step_tailCall_iff hcall]
    · intro output n hran
      obtain ⟨-, hfits, -, rfl⟩ := (step_tailCall_iff hcall).mp hran
      exact hfits.reusesFrame .running

/-- A call of a function with 4, 5 and 6, and a tail call with the last two over the first: both
blocks are longer than the way they go. -/
def overlapping : List Int32 := [0, 4, 0, 5, 0, 6, 19, 3, 10, 25, 20, 2, 1, 10]

theorem overlapping_arguments_arrive_whole :
    let s := (new overlapping 8 0 []).serveAll [.step, .step, .step]
    s.CallFits ∧ s.OpensFrame s.step.2 ∧ s.step.2.intAt 0 = .ok 9 ∧ s.step.2.TailCallFits ∧
      s.step.2.ReusesFrame s.step.2.step.2 := by
  intro s
  have hstep : ∀ k : Machine, k.step.1 = .ran [] → k.step = (.ran [], k.step.2) :=
    fun _ h => Prod.ext h rfl
  have hcall := hstep s (by decide +kernel)
  have htail := hstep s.step.2 (by decide +kernel)
  obtain ⟨hfits, hopens⟩ := (calls_move_all_their_arguments_at_once s).1 (by decide +kernel)
  obtain ⟨hfits', hreuses⟩ :=
    (calls_move_all_their_arguments_at_once s.step.2).2 (by decide +kernel)
  obtain ⟨hframe, hheader⟩ := hopens [] s.step.2 hcall
  obtain ⟨haddress, -⟩ := hheader overlapping 8 0 [] [.step, .step, .step] rfl (by decide +kernel)
    (by decide +kernel)
  have hslot : s.sp - s.operand 0 + 1 = 0 := by decide +kernel
  have hreturn : s.pc + 3 = 9 := by decide +kernel
  rw [hslot, hreturn] at haddress
  exact ⟨(hfits.mp ⟨_, _, hcall⟩).2, hframe, haddress, (hfits'.mp ⟨_, _, htail⟩).2,
    hreuses [] s.step.2.step.2 htail⟩

end TagMachine.Machine
