import Mathlib.Logic.Relation
import TagMachine.Proofs.BlockMoves

/-!
Calls and returns. A call saves where it came from in the two slots of its frame header. Whatever
the program does above the header, with calls, tail calls and loops of its own, a return to the
header gives the caller its registers and its slots back.
-/

namespace TagMachine.Machine

variable {m n s : Machine} {b : Int}

/-! ## Inside a frame -/

/-- A step that goes through and keeps off everything below slot `b + 2`: the slots it touches lie
above, so does the one that STI names, and a division by zero is not recovered to a lower top. -/
structure StaysAbove (b : Int) (m n : Machine) : Prop where
  ran : ∃ output, m.step = (.ran output, n)
  touched : ∀ i, m.sp - m.depth < i → i ≤ m.sp → b + 2 ≤ i
  stored : m.opcode? = some .sti → ∀ a, m.intAt (m.sp - 1) = .ok a → b + 2 ≤ a
  recovered : m.DividesByZero → b + 1 ≤ n.sp

/-- The machine is inside the frame that machine `s` opened at slot `b`: the header is there, and
below it nothing has changed. -/
structure InFrame (s : Machine) (b : Int) (m : Machine) : Prop where
  running : m.status = .running
  top : b + 1 ≤ m.sp
  address : m.slot? b = some (.int (Int32.ofInt (s.pc + 3)))
  base : m.slot? (b + 1) = some (.int (Int32.ofInt s.bp))
  below : ∀ i < b, m.slot? i = s.slot? i

/-- A call opens a frame below its arguments. -/
theorem inFrame_of_call {output : Bytes} (h : s.step = (.ran output, n))
    (hcall : s.opcode? = some .call) : InFrame s (s.sp - s.operand 0 + 1) n := by
  obtain ⟨-, hfits, -, rfl⟩ := (step_call_iff hcall).mp h
  have hopens := hfits.opensFrame .running
  have hargc := hfits.bounds.1
  have hbase : s.sp - s.operand 0 + 1 + 1 = s.sp - s.operand 0 + 2 := by omega
  refine ⟨rfl, ?_, hopens.address, ?_, fun i hi => hopens.others i (Or.inl hi)⟩
  · rw [hopens.sp]
    omega
  · rw [hbase]
    exact hopens.base

theorem StaysAbove.below_depth (h : StaysAbove b m n) (htop : b + 1 ≤ m.sp) :
    b + 1 ≤ m.sp - m.depth := by
  by_cases hd : 0 < m.depth
  · have := h.touched (m.sp - m.depth + 1) (by omega) (by omega)
    omega
  · omega

/-- A step above the header stays inside the frame. -/
theorem InFrame.step (h : InFrame s b m) (hstep : StaysAbove b m n) : InFrame s b n := by
  have hdepth := hstep.below_depth h.top
  obtain ⟨output, hran⟩ := hstep.ran
  obtain ⟨-, op, k, hop, hrule, rfl⟩ := step_ran_iff.mp hran
  -- the header and all below it are out of reach of this step
  have hslot : ∀ i ≤ b + 1, k.slot? i = m.slot? i := by
    intro i hi
    refine hrule.slot?_below hop (by omega) ?_
    intro hsti haddr
    have := hstep.stored hsti i haddr
    omega
  refine ⟨rfl, ?_, ?_, ?_, ?_⟩
  · by_cases hz : m.DividesByZero
    · exact hstep.recovered hz
    · have := hrule.depth_le hop hz
      simp only [counted_keeps]
      omega
  · rw [slot?_counted, hslot b (by omega)]
    exact h.address
  · rw [slot?_counted, hslot (b + 1) (by omega)]
    exact h.base
  · intro i hi
    rw [slot?_counted, hslot i (by omega)]
    exact h.below i hi

/-- So does a run of such steps, however long. -/
theorem InFrame.run (h : InFrame s b m) (hrun : Relation.ReflTransGen (StaysAbove b) m n) :
    InFrame s b n := by
  induction hrun with
  | refl => exact h
  | tail _ hstep ih => exact ih.step hstep

theorem Invariant.above {I : Machine → Prop} (hI : Invariant I)
    (hrun : Relation.ReflTransGen (StaysAbove b) m n) (h : I m) : I n := by
  induction hrun with
  | refl => exact h
  | @tail k n _ hstep ih =>
    obtain ⟨output, hran⟩ := hstep.ran
    have := hI.step ih
    rw [hran] at this
    exact this

/-! ## The way back -/

/-- A return to the header of its frame goes through, and reads back what the call had saved. -/
theorem InFrame.return {k : Int32} (h : InFrame s b m)
    (hpc : (Int32.ofInt (s.pc + 3)).toInt = s.pc + 3) (hbp : (Int32.ofInt s.bp).toInt = s.bp)
    (hret : m.opcode? = some .ret) (hk : m.word? 1 = some k) (hk0 : 0 ≤ k.toInt)
    (hsp : m.sp < m.capacity) (hb : 0 ≤ b) (hbase : m.sp - k.toInt - 2 = b) :
    ∃ n v, m.step = (if m.atLimit then (.failed .stepLimit, m) else (.ran [], n)) ∧
      m.slot? m.sp = some v ∧ n.pc = s.pc + 3 ∧ n.bp = s.bp ∧ n.sp = b ∧ n.slot? b = some v ∧
      ∀ i < b, n.slot? i = s.slot? i := by
  obtain ⟨v, hv⟩ := exists_slot? (m := m) (i := m.sp) ⟨by omega, hsp⟩
  have hsaved : m.sp - k.toInt - 1 = b + 1 := by omega
  have hrule : Performs (m.fetched 1) .ret .quiet
      ((m.fetched 1).returned b v (Int32.ofInt s.bp).toInt (Int32.ofInt (s.pc + 3)).toInt) := by
    rw [← hbase]
    have hk' : (m.fetched 1).word? 0 = some k := by rw [word?_fetched, hk]
    refine Performs.ret hk' hv hk0 (by simp only [fetched_keeps]; omega) ?_ ?_
    · simp only [slot?_fetched, fetched_keeps, hsaved]
      exact h.base
    · simp only [slot?_fetched, fetched_keeps, hbase]
      exact h.address
  rw [hpc, hbp] at hrule
  refine ⟨((m.fetched 1).returned b v s.bp (s.pc + 3)).counted .running, v, ?_, hv, rfl, rfl, rfl,
    ?_, ?_⟩
  · by_cases hlimit : m.atLimit
    · rw [if_pos hlimit]
      exact step_of_atLimit h.running hlimit
    · rw [if_neg hlimit]
      have hready : m.ready := (ready_iff m).mpr ⟨h.running, by simpa using hlimit⟩
      exact step_ran_iff.mpr ⟨hready, .ret, _, hret, hrule, rfl⟩
  · exact slot?_withSlot_self (m := m.fetched 1) ⟨hb, by simp only [fetched_keeps]; omega⟩ v
  · intro i hi
    have hkept : ((m.fetched 1).withSlot b v).slot? i = m.slot? i :=
      slot?_withSlot_ne (by omega) v
    exact hkept.trans (h.below i hi)

/-- Let a call go through on any machine that a host can reach, and let the program run on above the
header of the new frame. A return to the header then goes through, unless no step is left to take,
and the caller has its registers and its slots back, with the result in place of the header. -/
theorem a_return_gives_the_caller_everything_back (program : List Int32) (capacity maxSteps : Int)
    (args : List Value) (requests : List Request) (s opened m : Machine) (output : Bytes)
    (k : Int32) (hs : s = (new program capacity maxSteps args).serveAll requests)
    (hcode : s.code.size < 2 ^ 31) (hslots : s.capacity < 2 ^ 31)
    (hcall : s.opcode? = some .call) (hopened : s.step = (.ran output, opened))
    (hrun : Relation.ReflTransGen (StaysAbove (s.sp - s.operand 0 + 1)) opened m)
    (hret : m.opcode? = some .ret) (hk : m.word? 1 = some k) (hk0 : 0 ≤ k.toInt)
    (hbase : m.sp - k.toInt - 2 = s.sp - s.operand 0 + 1) :
    ∃ n v, m.step = (if m.atLimit then (.failed .stepLimit, m) else (.ran [], n)) ∧
      m.slot? m.sp = some v ∧ n.pc = s.pc + 3 ∧ n.bp = s.bp ∧ n.sp = s.sp - s.operand 0 + 1 ∧
      n.slot? (s.sp - s.operand 0 + 1) = some v ∧
      ∀ i < s.sp - s.operand 0 + 1, n.slot? i = s.slot? i := by
  obtain ⟨hpc0, hpc, hb⟩ := call_inside hopened hcall
  have hsafe : Safe (capacityFor capacity) s := by
    rw [hs]
    exact (invariant_safe _).serveAll requests (safe_new program capacity maxSteps args)
  have hfits : s.BaseFits := by
    rw [hs]
    exact invariant_baseFits.serveAll requests (baseFits_new program capacity maxSteps args)
  have hm : Safe (capacityFor capacity) m := by
    refine (invariant_safe _).above hrun ?_
    have := (invariant_safe _).step hsafe
    rw [hopened] at this
    exact this
  have hframe : InFrame s (s.sp - s.operand 0 + 1) m := (inFrame_of_call hopened hcall).run hrun
  -- both words of the header fit into 32 bits: the call lies in the program, the base in the stack
  refine hframe.return ?_ (hfits hslots) hret hk hk0 ?_ hb hbase
  · exact Int32.toInt_ofInt_of_le (by omega) (by omega)
  · rw [hm.slots]
    exact hm.top_lt

/-- One more step at the start of a run, seen to stay above by the numbers alone. -/
theorem above_of_depth (output : Bytes) (h : m.step.1 = .ran output)
    (hd : m.depth ≤ 0 ∨ b + 1 ≤ m.sp - m.depth) (hsti : m.opcode? ≠ some .sti)
    (hdiv : m.opcode? ≠ some .div) (hrun : Relation.ReflTransGen (StaysAbove b) m.step.2 n) :
    Relation.ReflTransGen (StaysAbove b) m n := by
  refine hrun.head
    ⟨⟨output, by rw [← h]⟩, ?_, fun hop => absurd hop hsti, fun hz => absurd hz.1 hdiv⟩
  intro i hlo hhi
  omega

/-- Above a 9, a function of 5 that calls another one, adds up and makes a tail call before it
returns. -/
def doubled : List Int32 :=
  [0, 9, 0, 5, 19, 1, 8, 25, 9, 19, 1, 18, 1, 9, 20, 1, 1, 18, 21, 0]

theorem a_return_gives_doubled_everything_back :
    let s := (new doubled 8 0 []).serveAll [.step, .step]
    let m := s.step.2.step.2.step.2.step.2.step.2.step.2.step.2
    s.opcode? = some .call ∧ m.opcode? = some .ret ∧ m.atLimit = false ∧
    ∃ n v, m.step = (if m.atLimit then (.failed .stepLimit, m) else (.ran [], n)) ∧
      m.slot? m.sp = some v ∧ n.pc = s.pc + 3 ∧ n.bp = s.bp ∧ n.sp = s.sp - s.operand 0 + 1 ∧
      n.slot? (s.sp - s.operand 0 + 1) = some v ∧
      ∀ i < s.sp - s.operand 0 + 1, n.slot? i = s.slot? i := by
  intro s m
  refine ⟨by decide, by decide, by decide, a_return_gives_the_caller_everything_back doubled 8 0 []
    [.step, .step] s s.step.2 m [] 0 rfl (by decide) (by decide) (by decide) rfl ?_ (by decide)
    (by decide) (by decide) (by decide)⟩
  iterate 6 refine above_of_depth [] (by decide) (by decide) (by decide) (by decide) ?_
  exact .refl

end TagMachine.Machine
