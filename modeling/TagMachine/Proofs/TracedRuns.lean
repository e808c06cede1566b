import TagMachine.Display.Trace
import TagMachine.Proofs.Runs

/-!
Runs under observation. An observer adds to what a run writes and changes nothing else: the run goes
through the same machines and ends the same. A trace without colours is the line of every machine
that carries out an instruction, each followed by what that instruction writes.
-/

namespace TagMachine

namespace Machine

variable {m : Machine}

/-- What a step writes under observation. -/
def shown (watch : Observer) (m : Machine) : Bytes :=
  (if m.ready then watch m else []) ++ m.step.1.output

/-- What a number of steps write under observation. -/
def transcript (watch : Observer) (m : Machine) : Nat → Bytes
  | 0 => []
  | k + 1 => m.shown watch ++ m.step.2.transcript watch k

/-! ## Steps that are refused -/

/-- Behind a step that is not carried out, or is the last one, the machine cannot go on. -/
theorem not_ready_step (h : ∀ output, m.step.1 ≠ .ran output) : ¬ m.step.2.ready := by
  by_cases hready : m.ready
  · rw [step_of_ready hready] at h ⊢
    generalize instruction.run m = result at h ⊢
    rw [ready_iff]
    cases result with
    | error why n => simp [settle]
    | ok e n =>
      cases e with
      | halt => simp [settle]
      | went output => exact absurd rfl (h output)
  · rw [(step_of_not_ready hready).2]
    exact hready

/-- A machine that cannot go on is not observed and writes nothing. -/
theorem transcript_of_not_ready (watch : Observer) (h : ¬ m.ready) (k : Nat) :
    m.transcript watch k = [] := by
  obtain ⟨hran, hm⟩ := step_of_not_ready h
  have hsilent : m.step.1.output = [] := by
    cases hr : m.step.1 with
    | ran output => exact absurd hr (hran output)
    | stopped => rfl
    | failed e => rfl
  induction k with
  | zero => rfl
  | succ k ih => rw [transcript, shown, if_neg h, hsilent, hm, ih, List.append_nil, List.append_nil]

/-! ## What a run comes to under observation -/

theorem observedStep_eq (watch : Observer) (m : Machine) :
    m.observedStep watch = (m.step.1, m.shown watch, m.step.2) := by
  unfold observedStep shown
  rcases m.step with ⟨r, n⟩
  cases r <;> simp [StepResult.output]

/-- Whoever watches, a run comes to what its steps come to. -/
theorem run_observed (watch : Observer) (m : Machine) (k : Nat) :
    m.run watch k = ⟨endingOf (m.answers k), m.transcript watch k, m.afterSteps k⟩ := by
  suffices h : ∀ written, runFrom watch k written m =
      ⟨endingOf (m.answers k), written.toList ++ m.transcript watch k, m.afterSteps k⟩ from h #[]
  induction k generalizing m with
  | zero =>
    intro written
    simp [runFrom, answers, endingOf, afterSteps, transcript]
  | succ k ih =>
    intro written
    have hagain := step_step (m := m)
    have hrest := not_ready_step (m := m)
    rw [runFrom, observedStep_eq, answers, afterSteps, transcript]
    rcases hstep : m.step with ⟨r, n⟩
    rw [hstep] at hagain hrest
    -- what the run leaves out behind its end changes nothing and writes nothing
    cases r with
    | ran output => simp [ih n (written ++ m.shown watch), endingOf]
    | stopped =>
      have hafter := (answers_of_fixed (hagain (by simp)) k).2
      have hnothing := transcript_of_not_ready watch (hrest (by simp)) k
      simp [hafter, hnothing, endingOf]
    | failed e =>
      have hafter := (answers_of_fixed (hagain (by simp)) k).2
      have hnothing := transcript_of_not_ready watch (hrest (by simp)) k
      simp [hafter, hnothing, endingOf]

/-! ## Counted instructions -/

/-- A step that carries out an instruction is counted, also if the instruction fails. -/
theorem steps_of_ready (h : m.ready) : m.step.2.steps = m.steps + 1 := by
  rw [step_of_ready h]
  cases hrun : instruction.run m with
  | ok e n =>
    obtain ⟨op, -, hrule⟩ := instruction_ok_iff.mp hrun
    have hn : n.steps = m.steps := hrule.keeps.2.2
    cases e <;> simp [settle, hn]
  | error why n =>
    have hn : n.steps = m.steps := by
      rcases instruction_error hrun with rfl | rfl | ⟨op, -, hleft⟩
      · rfl
      · rfl
      · exact hleft.keeps.2.2
    simp [settle, hn]

theorem afterSteps_of_not_ready (h : ¬ m.ready) (k : Nat) : m.afterSteps k = m :=
  (answers_of_fixed (Prod.ext rfl (step_of_not_ready h).2 : m.step = (m.step.1, m)) k).2

theorem steps_le_afterSteps (m : Machine) (k : Nat) : m.steps ≤ (m.afterSteps k).steps := by
  induction k generalizing m with
  | zero => exact Nat.le_refl _
  | succ k ih =>
    have hrest := ih m.step.2
    rw [afterSteps]
    by_cases h : m.ready
    · rw [steps_of_ready h] at hrest
      omega
    · rw [(step_of_not_ready h).2] at hrest ⊢
      exact hrest

/-- The instructions of a run come first: of `k` steps, those within the count carry one out, and
the others are refused. -/
theorem lt_steps_iff (m : Machine) (j k : Nat) :
    j < (m.afterSteps k).steps - m.steps ↔ j < k ∧ (m.afterSteps j).ready := by
  induction k generalizing m j with
  | zero => simp [afterSteps]
  | succ k ih =>
    by_cases hm : m.ready
    · have hcount := steps_of_ready hm
      have hle := steps_le_afterSteps m.step.2 k
      rw [afterSteps]
      cases j with
      | zero =>
        have hpos : 0 < (m.step.2.afterSteps k).steps - m.steps := by omega
        simp [afterSteps, hm, hpos]
      | succ j =>
        rw [afterSteps, Nat.add_lt_add_iff_right, ← ih m.step.2 j]
        omega
    · rw [afterSteps_of_not_ready hm, afterSteps_of_not_ready hm]
      simp [hm]

/-- What is written under observation, instruction by instruction. -/
theorem transcript_eq (watch : Observer) (m : Machine) (k : Nat) :
    m.transcript watch k =
      (List.range ((m.afterSteps k).steps - m.steps)).flatMap fun j =>
        watch (m.afterSteps j) ++ (m.afterSteps j).step.1.output := by
  induction k generalizing m with
  | zero => simp [transcript, afterSteps]
  | succ k ih =>
    by_cases hm : m.ready
    · have hcount := steps_of_ready hm
      have hle := steps_le_afterSteps m.step.2 k
      have hnext : (m.step.2.afterSteps k).steps - m.steps =
          (m.step.2.afterSteps k).steps - m.step.2.steps + 1 := by omega
      rw [transcript, ih, shown, if_pos hm, afterSteps, hnext, List.range_succ_eq_map,
        List.flatMap_cons, List.flatMap_map]
      rfl
    · rw [transcript_of_not_ready watch hm, afterSteps_of_not_ready hm]
      simp

end Machine

/-! ## Traces -/

theorem Palette.paint_off (c : Colour) (text : Bytes) : Palette.paint ⟨false⟩ c text = text := rfl

/-- Without colours the painted pieces of a trace line make up the plain line. -/
theorem Trace.observer_off (m : Machine) :
    Trace.observer ⟨false⟩ m = Trace.line m ++ [10] := by
  unfold Trace.observer Trace.paintedLine Trace.line
  simp only [Palette.paint_off, Bytes.cat, List.flatten_cons, List.flatten_nil, List.append_nil,
    List.append_assoc]

namespace Machine

/-- A run that writes a trace without colours goes through the machines of the run without one and
ends as it does, with the same top and the same error. It writes, for every instruction that is
carried out, the line of the machine it starts from and then what the instruction writes; one that
fails is among them, and a step that is refused is not. -/
theorem a_trace_shows_every_instruction_and_changes_nothing (m : Machine) (budget : Nat) :
    let plain := m.run .silent budget
    let traced := m.run (Trace.observer ⟨false⟩) budget
    let executed := plain.machine.steps - m.steps
    (∀ k, (m.run .silent k).machine = m.afterSteps k ∧
      (m.run (Trace.observer ⟨false⟩) k).machine = m.afterSteps k) ∧
    traced.machine = plain.machine ∧ traced.ending = plain.ending ∧
    (∀ k, k < executed ↔
      k < budget ∧ (m.afterSteps k).status = .running ∧ (m.afterSteps k).atLimit = false) ∧
    plain.output = (List.range executed).flatMap (fun k => (m.afterSteps k).step.1.output) ∧
    traced.output = (List.range executed).flatMap fun k =>
      Trace.line (m.afterSteps k) ++ [10] ++ (m.afterSteps k).step.1.output := by
  intro plain traced executed
  have hplain : plain = ⟨_, _, _⟩ := run_observed .silent m budget
  have htraced : traced = ⟨_, _, _⟩ := run_observed (Trace.observer ⟨false⟩) m budget
  have hexecuted : executed = (m.afterSteps budget).steps - m.steps := by
    simp only [executed, hplain]
  refine ⟨?_, ?_, ?_, ?_, ?_, ?_⟩
  · intro k
    rw [run_observed, run_observed]
    exact ⟨rfl, rfl⟩
  · rw [htraced, hplain]
  · rw [htraced, hplain]
  · intro k
    rw [hexecuted, lt_steps_iff, ready_iff]
  · rw [hexecuted, hplain]
    exact transcript_eq .silent m budget
  · rw [hexecuted, htraced]
    simp only [transcript_eq, Trace.observer_off]

end Machine

end TagMachine
