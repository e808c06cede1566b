import TagMachine.Proofs.CallFrame

/-!
Tail calls. A tail call at the level of a frame moves its arguments down to where the arguments of
the frame began and leaves the header alone, so any number of them take no more room than the one
with the most arguments, and the return goes to where the first call came from.
-/

namespace TagMachine.Machine

variable {m n s opened entry : Machine} {b : Int} {d : Nat} {counts : List Int} {output : Bytes}

/-! ## One tail call -/

/-- The next instruction is a tail call at the level of the frame at slot `b`: above the header lie
the slots it drops and its arguments, and nothing else. -/
structure TailCallsAt (b : Int) (m : Machine) : Prop where
  opcode : m.opcode? = some .tcall
  level : m.bp = b + 2
  top : m.sp = b + 1 + m.operand 1 + m.operand 0

namespace TailCallsAt

/-- A tail call at the level of its frame stays above the header. -/
theorem staysAbove (h : m.TailCallsAt b) (hran : m.step = (.ran output, n)) : StaysAbove b m n := by
  have hdepth : m.depth = m.operand 0 + m.operand 1 := by
    unfold depth
    rw [h.opcode]
  refine ⟨⟨output, hran⟩, ?_, ?_, ?_⟩
  · intro i hlo _
    have := h.top
    omega
  · intro hsti
    cases h.opcode.symm.trans hsti
  · intro hz
    cases h.opcode.symm.trans hz.1

/-- The arguments of a tail call are all that lies above the header afterwards. -/
theorem ran (h : m.TailCallsAt b) (hran : m.step = (.ran output, n)) :
    n.sp = b + 1 + m.operand 0 ∧ n.bp = b + 2 ∧
      ∀ j, 0 ≤ j → j < m.operand 0 →
        n.slot? (b + 2 + j) = m.slot? (m.sp - m.operand 0 + 1 + j) := by
  obtain ⟨-, hfits, -, rfl⟩ := (step_tailCall_iff h.opcode).mp hran
  have hreuses := hfits.reusesFrame .running
  have htop := h.top
  refine ⟨?_, hreuses.bp.trans h.level, ?_⟩
  · rw [hreuses.sp]
    omega
  · intro j hj0 hj
    rw [← hreuses.arguments (m.sp - m.operand 0 + 1 + j) (by omega) (by omega)]
    congr 1
    omega

end TailCallsAt

/-! ## A run of them -/

/-- Runs inside the frame at slot `b`, from the call that opened it. On the way to `m` the run has
made tail calls with `counts` arguments, the last one first, and taken other steps; `entry` is where
the last of the calls led, and since each call the top of the stack has been at most `d` above where
that call had left it. -/
inductive TailRun (b : Int) (d : Nat) (opened : Machine) : List Int → Machine → Machine → Prop
  | opened : TailRun b d opened [] opened opened
  | step {counts : List Int} {entry m n : Machine} : TailRun b d opened counts entry m →
      StaysAbove b m n → n.sp ≤ entry.sp + d → TailRun b d opened counts entry n
  | tail {counts : List Int} {entry m n : Machine} {output : Bytes} :
      TailRun b d opened counts entry m → m.TailCallsAt b → m.step = (.ran output, n) →
      TailRun b d opened (m.operand 0 :: counts) n n

namespace TailRun

/-- Such a run keeps off everything below its frame. -/
theorem above (h : TailRun b d opened counts entry m) :
    Relation.ReflTransGen (StaysAbove b) opened m := by
  induction h with
  | opened => exact .refl
  | step _ hstep _ ih => exact ih.tail hstep
  | tail _ hcalls hran ih => exact ih.tail (hcalls.staysAbove hran)

/-- Each call leaves its arguments above the header, and from there the top rises by `d`. -/
theorem top_le {first : Int} (h : TailRun b d opened counts entry m)
    (hopened : opened.sp = b + 1 + first) :
    entry.sp ≤ b + 1 + counts.foldr max first ∧ m.sp ≤ entry.sp + d := by
  induction h with
  | opened =>
    simp only [List.foldr_nil]
    omega
  | step _ _ hrise ih => exact ⟨ih.1, hrise⟩
  | tail _ hcalls hran ih =>
    obtain ⟨htop, -⟩ := hcalls.ran hran
    simp only [List.foldr_cons]
    omega

end TailRun

/-! ## The frame of a call -/

/-- What a call leaves on top of the stack and in the base pointer. -/
theorem registers_of_call (hcall : s.opcode? = some .call)
    (hopened : s.step = (.ran output, opened)) :
    opened.bp = s.sp - s.operand 0 + 1 + 2 ∧
      opened.sp = s.sp - s.operand 0 + 1 + 1 + s.operand 0 := by
  obtain ⟨-, hfits, -, rfl⟩ := (step_call_iff hcall).mp hopened
  have hopens := hfits.opensFrame .running
  rw [hopens.bp, hopens.sp]
  omega

/-- Let a call with its header at slot `b` go through on any machine that a host can reach. However
many tail calls the program makes at the level of the new frame, each one leaves just its arguments,
in order, above a header that still says where the first call came from. So the stack never rises
higher than the most arguments that one of the calls had, and what the code between two calls
needs; and a return goes back to the first caller, whose address and base pointer fit into the
header where the program and the stack are smaller than 2^31. -/
theorem tail_calls_run_in_constant_stack (program : List Int32) (capacity maxSteps : Int)
    (args : List Value) (requests : List Request) (s opened : Machine) (output : Bytes) (b : Int)
    (hs : s = (new program capacity maxSteps args).serveAll requests)
    (hcall : s.opcode? = some .call) (hopened : s.step = (.ran output, opened))
    (hb : b = s.sp - s.operand 0 + 1) :
    (opened.bp = b + 2 ∧ opened.sp = b + 1 + s.operand 0) ∧
    (∀ m n out, Relation.ReflTransGen (StaysAbove b) opened m → m.TailCallsAt b →
      m.step = (.ran out, n) →
        n.sp = b + 1 + m.operand 0 ∧ n.bp = b + 2 ∧
        n.slot? b = some (.int (Int32.ofInt (s.pc + 3))) ∧
        n.slot? (b + 1) = some (.int (Int32.ofInt s.bp)) ∧
        ∀ j, 0 ≤ j → j < m.operand 0 →
          n.slot? (b + 2 + j) = m.slot? (m.sp - m.operand 0 + 1 + j)) ∧
    ∀ d counts entry m, TailRun b d opened counts entry m →
      m.sp ≤ b + 1 + counts.foldr max (s.operand 0) + d ∧
      ∀ k : Int32, s.code.size < 2 ^ 31 → s.capacity < 2 ^ 31 →
        m.opcode? = some .ret → m.word? 1 = some k → 0 ≤ k.toInt → m.sp - k.toInt - 2 = b →
        ∃ n v, m.step = (if m.atLimit then (.failed .stepLimit, m) else (.ran [], n)) ∧
          m.slot? m.sp = some v ∧ n.pc = s.pc + 3 ∧ n.bp = s.bp ∧ n.sp = b ∧ n.slot? b = some v ∧
          ∀ i < b, n.slot? i = s.slot? i := by
  subst hb
  obtain ⟨hpc, hpcSize, hfirst⟩ := call_inside hopened hcall
  obtain ⟨hbase, htop⟩ := registers_of_call hcall hopened
  have hframe := inFrame_of_call hopened hcall
  refine ⟨⟨hbase, htop⟩, ?_, ?_⟩
  · intro m n out hrun hcalls hran
    obtain ⟨hsp, hlevel, harguments⟩ := hcalls.ran hran
    have hkept := (hframe.run hrun).step (hcalls.staysAbove hran)
    exact ⟨hsp, hlevel, hkept.address, hkept.base, harguments⟩
  · intro d counts entry m hrun
    obtain ⟨hentry, hrise⟩ := hrun.top_le htop
    refine ⟨by omega, ?_⟩
    intro k hcode hslots hret hk hk0 hdepth
    have hfits : s.BaseFits := by
      rw [hs]
      exact invariant_baseFits.serveAll requests (baseFits_new program capacity maxSteps args)
    have hsafe : Safe (capacityFor capacity) m := by
      refine (invariant_safe _).above hrun.above ?_
      have hreached :=
        (invariant_safe _).serveAll requests (safe_new program capacity maxSteps args)
      rw [← hs] at hreached
      have hstepped := (invariant_safe _).step hreached
      rw [hopened] at hstepped
      exact hstepped
    refine (hframe.run hrun.above).return ?_ (hfits hslots) hret hk hk0 ?_ hfirst hdepth
    · exact Int32.toInt_ofInt_of_le (by omega) (by omega)
    · rw [hsafe.slots]
      exact hsafe.top_lt

/-- One more step of a run, seen to stay above by the numbers alone. -/
theorem TailRun.quiet (output : Bytes) (hrun : TailRun b d opened counts entry m)
    (h : m.step.1 = .ran output) (hd : m.depth ≤ 0)
    (hop : m.opcode? ≠ some .sti ∧ m.opcode? ≠ some .div)
    (hrise : m.step.2.sp ≤ entry.sp + d) : TailRun b d opened counts entry m.step.2 := by
  refine hrun.step ⟨⟨output, by rw [← h]⟩, ?_, fun hsti => absurd hsti hop.1, ?_⟩ hrise
  · intro i hlo hhi
    omega
  · intro hz
    exact absurd hz.1 hop.2

/-- One more tail call of a run. -/
theorem TailRun.handed (argc : Int) (output : Bytes) (hrun : TailRun b d opened counts entry m)
    (h : m.step.1 = .ran output) (hcalls : m.TailCallsAt b) (hargc : m.operand 0 = argc) :
    TailRun b d opened (argc :: counts) m.step.2 m.step.2 := by
  subst hargc
  exact hrun.tail hcalls (Prod.ext h rfl)

/-- Above a 9, a function of 5 that makes a tail call with two arguments, which makes one with a 7
and returns it. -/
def handedOn : List Int32 :=
  [0, 9, 0, 5, 19, 1, 8, 25, 9, 9, 20, 2, 1, 14, 0, 7, 20, 1, 2, 20, 21, 0]

/-- The first tail call has more arguments than the dead slots it covers, and the return behind the
last one goes to the first caller. -/
theorem two_tail_calls_return_to_the_first_caller :
    let s := (new handedOn 8 0 []).serveAll [.step, .step]
    let m := s.step.2.step.2.step.2.step.2.step.2.step.2
    s.opcode? = some .call ∧ TailRun 1 2 s.step.2 [1, 2] m m ∧ m.sp ≤ 1 + 1 + 2 + 2 ∧
      m.atLimit = false ∧
      ∃ n v, m.step = (if m.atLimit then (.failed .stepLimit, m) else (.ran [], n)) ∧
        m.slot? m.sp = some v ∧ n.pc = s.pc + 3 ∧ n.bp = s.bp ∧ n.sp = 1 ∧ n.slot? 1 = some v ∧
        ∀ i < (1 : Int), n.slot? i = s.slot? i := by
  intro s m
  have hcall : s.opcode? = some .call := by decide +kernel
  have hopened : s.step = (.ran [], s.step.2) := Prod.ext (by decide +kernel) rfl
  have hrun : TailRun 1 2 s.step.2 [1, 2] m m := by
    have hpushed : TailRun 1 2 s.step.2 [] s.step.2 s.step.2.step.2.step.2 := by
      refine .quiet [] (.quiet [] .opened ?_ ?_ ?_ ?_) ?_ ?_ ?_ ?_ <;> decide +kernel
    have hfirst := hpushed.handed 2 [] (by decide +kernel)
      ⟨by decide +kernel, by decide +kernel, by decide +kernel⟩ (by decide +kernel)
    have hagain := hfirst.quiet [] (by decide +kernel) (by decide +kernel) (by decide +kernel)
      (by decide +kernel)
    exact hagain.handed 1 [] (by decide +kernel)
      ⟨by decide +kernel, by decide +kernel, by decide +kernel⟩ (by decide +kernel)
  obtain ⟨-, -, hruns⟩ := tail_calls_run_in_constant_stack handedOn 8 0 [] [.step, .step] s
    s.step.2 [] 1 rfl hcall hopened (by decide +kernel)
  obtain ⟨htop, hreturn⟩ := hruns 2 [1, 2] m m hrun
  refine ⟨hcall, hrun, htop, by decide +kernel, hreturn 0 ?_ ?_ ?_ ?_ ?_ ?_⟩ <;> decide +kernel

end TagMachine.Machine
