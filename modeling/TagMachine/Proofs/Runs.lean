import TagMachine.Proofs.Lockstep

/-!
Runs, step by step. A step that is not carried out changes nothing and is answered the same when it
is asked for again. So a run comes to what its steps come to: it writes what they write, it leaves
the machine they leave, and it ends as the last one does.
-/

namespace TagMachine

namespace StepResult

/-- What a step writes. -/
def output : StepResult → Bytes
  | .ran output => output
  | _ => []

/-- How a run ends whose last step comes to this. -/
def ending : StepResult → Ending
  | .ran _ => .unfinished
  | .stopped => .stopped
  | .failed e => .failed e

end StepResult

namespace Machine

variable {m n : Machine}

/-- The machine after a number of steps. -/
def afterSteps (m : Machine) : Nat → Machine
  | 0 => m
  | k + 1 => m.step.2.afterSteps k

/-- What a number of steps come to, one after the other. -/
def answers (m : Machine) : Nat → List StepResult
  | 0 => []
  | k + 1 => m.step.1 :: m.step.2.answers k

/-! ## What no step changes -/

/-- No instruction changes what the host has set up. -/
theorem Performs.keeps {op : Opcode} {e : Effect} (h : Performs m op e n) :
    n.args = m.args ∧ n.limit = m.limit ∧ n.steps = m.steps := by
  cases h <;> simp [called, tailCalled, returned, recovered]

theorem Leaves.keeps {op : Opcode} (h : Leaves m op n) :
    n.args = m.args ∧ n.limit = m.limit ∧ n.steps = m.steps := by
  cases h <;> simp

/-- Arguments and step limit stay what they are, whatever a host asks for. -/
theorem invariant_setup (args : List Value) (limit : Option Nat) :
    Invariant fun m => m.args = args ∧ m.limit = limit where
  counted _ h := h
  fetched _ h := h
  pushed h _ _ := by simpa using h
  performs h hrule := by
    obtain ⟨hargs, hlimit, -⟩ := hrule.keeps
    rw [hargs, hlimit]
    exact h
  leaves h hleft := by
    obtain ⟨hargs, hlimit, -⟩ := hleft.keeps
    rw [hargs, hlimit]
    exact h
  installed _ h _ _ := by simpa using h
  load _ h := h

theorem limit_step (m : Machine) : m.step.2.limit = m.limit :=
  ((invariant_setup m.args m.limit).step ⟨rfl, rfl⟩).2

theorem limit_afterSteps (m : Machine) (k : Nat) : (m.afterSteps k).limit = m.limit := by
  induction k generalizing m with
  | zero => rfl
  | succ k ih => rw [afterSteps, ih, limit_step]

/-- A step that is carried out is counted. -/
theorem steps_of_ran {output : Bytes} (h : m.step = (.ran output, n)) : n.steps = m.steps + 1 := by
  obtain ⟨-, op, k, -, hrule, rfl⟩ := step_ran_iff.mp h
  have hsteps : k.steps = m.steps := hrule.keeps.2.2
  rw [counted, hsteps]

theorem steps_step_le (m : Machine) : m.step.2.steps ≤ m.steps + 1 := by
  rcases step_leaves m with hm | ⟨k, status, hm, hk⟩
  · rw [hm]
    omega
  · have hsteps : k.steps = m.steps := by
      rcases hk with rfl | rfl | ⟨op, e, hrule⟩ | ⟨op, hleft⟩
      · rfl
      · rfl
      · exact hrule.keeps.2.2
      · exact hleft.keeps.2.2
    have hstep : m.step.2.steps = m.steps + 1 := by rw [hm, counted, hsteps]
    omega

theorem steps_afterSteps_le (m : Machine) (k : Nat) : (m.afterSteps k).steps ≤ m.steps + k := by
  induction k generalizing m with
  | zero => exact Nat.le_refl _
  | succ k ih =>
    have hstep := m.steps_step_le
    have hrest := ih m.step.2
    rw [afterSteps]
    omega

/-! ## What a run comes to -/

/-- A step that is not carried out comes to the same again. -/
theorem step_step (h : ∀ output, m.step.1 ≠ .ran output) : m.step.2.step = m.step := by
  by_cases hready : m.ready
  · rw [step_of_ready hready] at h ⊢
    generalize instruction.run m = r at h
    cases r with
    | error why n => rfl
    | ok e n =>
      cases e with
      | halt => rfl
      | went output => exact absurd rfl (h output)
  · rw [(step_of_not_ready hready).2]

/-- A machine that a step leaves as it is gives the same answer for ever. -/
theorem answers_of_fixed {r : StepResult} (h : m.step = (r, m)) (k : Nat) :
    m.answers k = List.replicate k r ∧ m.afterSteps k = m := by
  induction k with
  | zero => exact ⟨rfl, rfl⟩
  | succ k ih =>
    obtain ⟨hanswers, hafter⟩ := ih
    rw [answers, afterSteps, h, hanswers]
    exact ⟨rfl, hafter⟩

theorem answers_add (m : Machine) (j k : Nat) :
    m.answers (j + k) = m.answers j ++ (m.afterSteps j).answers k := by
  induction j generalizing m with
  | zero => simp [answers, afterSteps]
  | succ j ih =>
    rw [Nat.add_right_comm, answers, answers, afterSteps, ih]
    rfl

theorem afterSteps_add (m : Machine) (j k : Nat) :
    m.afterSteps (j + k) = (m.afterSteps j).afterSteps k := by
  induction j generalizing m with
  | zero => rw [Nat.zero_add, afterSteps]
  | succ j ih =>
    rw [Nat.add_right_comm, afterSteps, ih]
    rfl

/-- The last of the steps is one from the machine that the others leave. -/
theorem afterSteps_succ (m : Machine) (k : Nat) :
    m.afterSteps (k + 1) = (m.afterSteps k).step.2 := by
  rw [afterSteps_add]
  rfl

@[simp] theorem length_answers (m : Machine) (k : Nat) : (m.answers k).length = k := by
  induction k generalizing m with
  | zero => rfl
  | succ k ih => simp [answers, ih]

/-- Fewer steps give the first of the answers. -/
theorem take_answers (m : Machine) {j k : Nat} (h : j ≤ k) :
    (m.answers k).take j = m.answers j := by
  obtain ⟨l, rfl⟩ := Nat.exists_eq_add_of_le h
  rw [answers_add, List.take_left' (by simp)]

/-- How a run ends whose steps come to these answers: with the first that is not carried out. -/
def endingOf : List StepResult → Ending
  | [] => .unfinished
  | .ran _ :: rest => endingOf rest
  | .stopped :: _ => .stopped
  | .failed e :: _ => .failed e

theorem endingOf_append {as bs : List StepResult} (h : ∀ a ∈ as, ∃ output, a = .ran output) :
    endingOf (as ++ bs) = endingOf bs := by
  induction as with
  | nil => rfl
  | cons a as ih =>
    obtain ⟨output, rfl⟩ := h a List.mem_cons_self
    exact ih fun a ha => h a (List.mem_cons_of_mem _ ha)

theorem observedStep_silent (m : Machine) :
    m.observedStep .silent = (m.step.1, m.step.1.output, m.step.2) := by
  unfold observedStep
  rcases m.step with ⟨r, n⟩
  cases r <;> simp [Observer.silent, StepResult.output]

/-- A run comes to what its steps come to. -/
theorem run_silent (m : Machine) (k : Nat) :
    m.run .silent k =
      ⟨endingOf (m.answers k), (m.answers k).flatMap StepResult.output, m.afterSteps k⟩ := by
  suffices h : ∀ written, runFrom .silent k written m =
      ⟨endingOf (m.answers k), written.toList ++ (m.answers k).flatMap StepResult.output,
        m.afterSteps k⟩ from h #[]
  induction k generalizing m with
  | zero =>
    intro written
    simp [runFrom, answers, endingOf, afterSteps]
  | succ k ih =>
    intro written
    have hagain := step_step (m := m)
    rw [runFrom, observedStep_silent, answers, afterSteps]
    rcases hstep : m.step with ⟨r, n⟩
    rw [hstep] at hagain
    cases r with
    | ran output => simp [ih n (written ++ output), endingOf, StepResult.output]
    -- the steps that the run leaves out come to the same as the one it ends with
    | stopped =>
      obtain ⟨hrest, hafter⟩ := answers_of_fixed (hagain (by simp)) k
      simp [hrest, hafter, endingOf, StepResult.output]
    | failed e =>
      obtain ⟨hrest, hafter⟩ := answers_of_fixed (hagain (by simp)) k
      simp [hrest, hafter, endingOf, StepResult.output]

/-! ## Two runs -/

/-- Similar machines with equal room give the same answers, step by step. -/
theorem Similar.afterSteps {d : Difference} (h : Similar d m n) (hd : d ≠ .room) (k : Nat)
    (hlimit : d = .limit → ∀ j < k, (m.afterSteps j).status = .running →
      (n.afterSteps j).atLimit = (m.afterSteps j).atLimit)
    (hpeek : d = .residue → ∀ j < k, ¬ (m.afterSteps j).Peeks) :
    n.answers k = m.answers k ∧ Similar d (m.afterSteps k) (n.afterSteps k) := by
  induction k generalizing m n with
  | zero => exact ⟨rfl, h⟩
  | succ k ih =>
    rcases h.step (fun hl => hlimit hl 0 (Nat.succ_pos k)) (fun hr => hpeek hr 0 (Nat.succ_pos k))
      with ⟨hanswer, hnext⟩ | ⟨hroom, -⟩
    · obtain ⟨hrest, hlast⟩ := ih hnext
        (fun hl j hj => hlimit hl (j + 1) (Nat.succ_lt_succ hj))
        (fun hr j hj => hpeek hr (j + 1) (Nat.succ_lt_succ hj))
      rw [answers, answers, hanswer, hrest]
      exact ⟨rfl, hlast⟩
    · exact absurd hroom hd

end Machine

end TagMachine
