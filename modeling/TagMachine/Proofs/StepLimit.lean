import TagMachine.Proofs.Runs

/-!
The step limit. A run with a limit is a run without one, cut short where the limit is used up. Once
a machine has come to an end, by a stop, a fault or its limit, it stays there until it starts over.
-/

namespace TagMachine

/-- The program has come to an end, by a stop or by a fault. -/
def StepResult.isFinal : StepResult → Bool
  | .stopped | .failed (.fault _) => true
  | _ => false

/-- The request makes a machine start over. -/
def Request.restarts : Request → Bool
  | .reset | .load _ => true
  | _ => false

namespace Machine

variable {m n : Machine} {r : StepResult}

/-- The `k`-th step is the first that stops or faults, and it comes to `r`. -/
def EndsAt (m : Machine) (k : Nat) (r : StepResult) : Prop :=
  ∃ before, m.answers k = before ++ [r] ∧ r.isFinal ∧ ∀ a ∈ before, ¬ a.isFinal

/-- Every step and every run from here on comes to `r`, writes nothing and changes nothing. -/
def Rests (m : Machine) (r : StepResult) : Prop :=
  m.step = (r, m) ∧ ∀ watch budget, m.run watch (budget + 1) = ⟨r.ending, [], m⟩

/-- The machine with a step limit. -/
def limitedTo (m : Machine) (limit : Nat) : Machine := { m with limit := some limit }

/-! ## Machines at rest -/

theorem rests_of_not_ready (h : ¬ m.ready) : m.Rests m.step.1 := by
  obtain ⟨hran, hm⟩ := step_of_not_ready h
  refine ⟨Prod.ext rfl hm, ?_⟩
  intro watch budget
  rw [run, runFrom, observedStep, if_neg h]
  rcases hstep : m.step with ⟨r, n⟩
  rw [hstep] at hran hm
  obtain rfl : n = m := hm
  cases r with
  | ran output => exact absurd rfl (hran output)
  | stopped => rfl
  | failed e => rfl

/-- What a machine that cannot go on answers depends on its status and its limit only. -/
theorem step_congr_of_not_ready (h : ¬ m.ready) (hstatus : n.status = m.status)
    (hfull : n.atLimit = m.atLimit) : ¬ n.ready ∧ n.step.1 = m.step.1 := by
  have hn : ¬ n.ready := by
    rw [ready_iff] at h ⊢
    rw [hstatus, hfull]
    exact h
  refine ⟨hn, ?_⟩
  rw [ready_iff] at h
  unfold step
  rw [hstatus, hfull]
  cases hs : m.status with
  | stopped => rfl
  | faulted f => rfl
  | running =>
    have hused : m.atLimit = true := by simpa [hs] using h
    simp [hused]

/-- An install does not change whether and why a machine cannot go on. -/
theorem install_keeps (m : Machine) (resume : Int32) :
    (m.serve (.install resume)).status = m.status ∧
      (m.serve (.install resume)).atLimit = m.atLimit := by
  have hkeeps : (m.serve (.install resume)).status = m.status ∧
      (m.serve (.install resume)).limit = m.limit ∧
        (m.serve (.install resume)).steps = m.steps := by
    unfold serve
    dsimp only
    cases hrun : (installHandler resume).run m with
    | ok u n =>
      obtain ⟨-, -, rfl⟩ := installHandler_ok_iff.mp hrun
      simp
    | error why n =>
      obtain ⟨done, -, -, -, -, -, rfl⟩ := installHandler_error hrun
      simp
  obtain ⟨hstatus, hlimit, hsteps⟩ := hkeeps
  exact ⟨hstatus, atLimit_congr hlimit hsteps⟩

/-- Only a request that starts the machine over changes what it answers. -/
theorem serve_of_not_ready (h : ¬ m.ready) {request : Request} (hgoes : ¬ request.restarts) :
    ¬ (m.serve request).ready ∧ (m.serve request).step.1 = m.step.1 := by
  obtain ⟨hstep, hrun⟩ := rests_of_not_ready h
  cases request with
  | step =>
    unfold serve
    rw [hstep]
    exact ⟨h, by rw [hstep]⟩
  | run watch budget =>
    have hm : (m.run watch budget).machine = m := by
      cases budget with
      | zero => rfl
      | succ budget => rw [hrun]
    unfold serve
    dsimp only
    rw [hm]
    exact ⟨h, rfl⟩
  | install resume =>
    obtain ⟨hstatus, hfull⟩ := m.install_keeps resume
    exact step_congr_of_not_ready h hstatus hfull
  | reset => exact absurd rfl hgoes
  | load program => exact absurd rfl hgoes

theorem rests_serveAll (h : ¬ m.ready) {requests : List Request}
    (hgo : ∀ q ∈ requests, ¬ q.restarts) : (m.serveAll requests).Rests m.step.1 := by
  induction requests generalizing m with
  | nil => exact rests_of_not_ready h
  | cons q requests ih =>
    obtain ⟨hnext, hanswer⟩ := serve_of_not_ready h (hgo q List.mem_cons_self)
    have hrest := ih hnext fun q hq => hgo q (List.mem_cons_of_mem _ hq)
    rw [hanswer] at hrest
    exact hrest

/-! ## Ends -/

theorem status_of_isFinal (h : m.step.1.isFinal) : m.step.2.status ≠ .running := by
  by_cases hready : m.ready
  · rw [step_of_ready hready] at h ⊢
    generalize instruction.run m = result at h
    cases result with
    | error why n => simp [settle]
    | ok e n =>
      cases e with
      | halt => simp [settle]
      | went output => cases h
  -- a machine that only has used up its limit still runs, but that is no end
  · rw [(step_of_not_ready hready).2]
    unfold step at h
    intro hs
    simp only [hs] at h
    rw [ready_iff] at hready
    have hused : m.atLimit = true := by simpa [hs] using hready
    simp [hused, StepResult.isFinal] at h

theorem step_step_of_isFinal (h : m.step.1.isFinal) : m.step.2.step = m.step := by
  apply step_step
  intro output hran
  rw [hran] at h
  cases h

/-- A machine that has come to an end stays there. -/
theorem rests_of_isFinal (h : m.step.1.isFinal) {requests : List Request}
    (hgo : ∀ q ∈ requests, ¬ q.restarts) : (m.step.2.serveAll requests).Rests m.step.1 := by
  have hready : ¬ m.step.2.ready := by
    rw [ready_iff]
    exact fun hr => status_of_isFinal h hr.1
  have hrests := rests_serveAll hready hgo
  rw [step_step_of_isFinal h] at hrests
  exact hrests

theorem ran_of_not_isFinal (hlimit : m.limit = none) (h : ¬ m.step.1.isFinal) :
    ∃ output, m.step.1 = .ran output := by
  have hfull : m.atLimit = false := by
    unfold atLimit
    rw [hlimit]
  have hne : m.step.1 ≠ .failed .stepLimit := by
    unfold step
    rw [hfull]
    cases m.status with
    | stopped => simp
    | faulted f => simp
    | running =>
      generalize instruction.run m = result
      rcases result with ⟨_ | _, n⟩ | ⟨why, n⟩ <;> simp [settle]
  generalize m.step.1 = r at h hne ⊢
  cases r with
  | ran output => exact ⟨output, rfl⟩
  | stopped => exact absurd rfl h
  | failed e =>
    cases e with
    | fault f => exact absurd rfl h
    | stepLimit => exact absurd rfl hne

theorem all_ran_of_not_isFinal {k : Nat} (hlimit : m.limit = none)
    (h : ∀ a ∈ m.answers k, ¬ a.isFinal) : ∀ a ∈ m.answers k, ∃ output, a = .ran output := by
  induction k generalizing m with
  | zero => simp [answers]
  | succ k ih =>
    rw [answers, List.forall_mem_cons] at h ⊢
    exact ⟨ran_of_not_isFinal hlimit h.1, ih (by rw [limit_step, hlimit]) h.2⟩

/-- A machine whose steps are all carried out runs on and counts them. -/
theorem afterSteps_of_all_ran {k : Nat} (hs : m.status = .running)
    (h : ∀ a ∈ m.answers k, ∃ output, a = .ran output) :
    (m.afterSteps k).status = .running ∧ (m.afterSteps k).steps = m.steps + k := by
  induction k generalizing m with
  | zero => exact ⟨hs, rfl⟩
  | succ k ih =>
    rw [answers, List.forall_mem_cons] at h
    obtain ⟨⟨output, hran⟩, hrest⟩ := h
    have hstep : m.step = (.ran output, m.step.2) := Prod.ext hran rfl
    have hnext : m.step.2.status = .running := by
      obtain ⟨-, op, k, -, -, hn⟩ := step_ran_iff.mp hstep
      rw [hn, counted]
    obtain ⟨hstatus, hsteps⟩ := ih hnext hrest
    rw [afterSteps]
    refine ⟨hstatus, ?_⟩
    rw [hsteps, steps_of_ran hstep]
    omega

/-- A machine ends after the `k`-th step, or never, exactly if none of `k` steps stops or faults. -/
theorem endsAfter_iff (m : Machine) (k : Nat) :
    (∀ j r, m.EndsAt j r → k < j) ↔ ∀ a ∈ m.answers k, ¬ a.isFinal := by
  constructor
  · intro h a ha hfinal
    cases hfind : (m.answers k).find? StepResult.isFinal with
    | none => exact List.find?_eq_none.mp hfind a ha hfinal
    | some r =>
      obtain ⟨hr, before, after, hsplit, hbefore⟩ := List.find?_eq_some_iff_append.mp hfind
      have hlength : k = before.length + (after.length + 1) := by
        have := congrArg List.length hsplit
        simpa using this
      have hends : m.EndsAt (before.length + 1) r := by
        refine ⟨before, ?_, hr, by simpa using hbefore⟩
        rw [← take_answers m (k := k) (by omega), hsplit, List.take_length_add_append]
        rfl
      have := h _ r hends
      omega
  · rintro h j r ⟨before, hj, hr, -⟩
    refine Nat.lt_of_not_le ?_
    intro hle
    have hmem : r ∈ m.answers k := by
      apply List.mem_of_mem_take (i := j)
      rw [take_answers m hle, hj]
      simp
    exact h r hmem hr

/-- The step that a machine ends with is the last one that is carried out or tried. -/
theorem EndsAt.exists_step {k : Nat} (h : m.EndsAt k r) :
    ∃ j, k = j + 1 ∧ (m.afterSteps j).step.1 = r ∧ r.isFinal ∧ ∀ a ∈ m.answers j, ¬ a.isFinal := by
  obtain ⟨before, hk, hr, hbefore⟩ := h
  have hlength : k = before.length + 1 := by
    have := congrArg List.length hk
    simpa using this
  subst hlength
  rw [answers_add] at hk
  obtain ⟨hfirst, hlast⟩ := List.append_inj hk (by simp)
  rw [← hfirst] at hbefore
  exact ⟨before.length, rfl, by simpa [answers] using hlast, hr, hbefore⟩

/-- A machine that has come to an end is not running any more. -/
theorem EndsAt.status {k j : Nat} (h : m.EndsAt k r) (hj : k ≤ j) :
    (m.afterSteps j).status ≠ .running := by
  obtain ⟨i, rfl, hr, hfinal, -⟩ := h.exists_step
  obtain ⟨l, rfl⟩ := Nat.exists_eq_add_of_le hj
  subst hr
  have hfixed := step_step_of_isFinal hfinal
  rw [afterSteps_add, afterSteps_succ, (answers_of_fixed hfixed l).2]
  exact status_of_isFinal hfinal

/-! ## With a limit and without -/

/-- Machines that differ in their limits only have the same slots. -/
theorem Similar.eq_limitedTo {limit : Nat} (h : Similar .limit m n)
    (hlimit : n.limit = some limit) :
    n = m.limitedTo limit := by
  have hslots : n.slots = m.slots := by
    apply Array.ext_getElem?
    intro i
    rw [← slot?_natCast, ← slot?_natCast]
    exact h.slot? (by simp) (by simp)
  have hsame := h.same
  rw [hslots, hlimit] at hsame
  exact hsame

theorem similar_limit (program : List Int32) (capacity : Int) (args : List Value) (limit : Int) :
    Similar .limit (new program capacity 0 args) (new program capacity limit args) where
  same := rfl
  limit := Or.inl rfl
  room := Or.inr rfl
  capacity_le := Nat.le_refl _
  slots := fun _ _ _ => rfl
  handler := by simp

theorem limit_new (program : List Int32) (capacity : Int) (args : List Value) {limit : Nat}
    (h : 0 < limit) : (new program capacity limit args).limit = some limit := by
  simp [new, h]

/-- As long as the limit is not used up it does not show. -/
theorem Similar.limitedTo_afterSteps {limit k : Nat} (h : Similar .limit m n)
    (hnone : m.limit = none) (hsome : n.limit = some limit) (hzero : n.steps = 0)
    (hrunning : ∀ j < k, (m.afterSteps j).status = .running → j < limit) :
    n.answers k = m.answers k ∧ n.afterSteps k = (m.afterSteps k).limitedTo limit := by
  have hfull : ∀ j < k, (m.afterSteps j).status = .running →
      (n.afterSteps j).atLimit = (m.afterSteps j).atLimit := by
    intro j hj hs
    have hlt := hrunning j hj hs
    have hsteps := n.steps_afterSteps_le j
    unfold Machine.atLimit
    rw [limit_afterSteps, limit_afterSteps, hnone, hsome]
    simp only [decide_eq_false_iff_not]
    omega
  obtain ⟨hanswers, hafter⟩ := h.afterSteps (by simp) k (fun _ => hfull) (by simp)
  exact ⟨hanswers, hafter.eq_limitedTo (by rw [limit_afterSteps, hsome])⟩

/-- A run ends as the step does that the machine ends with. -/
theorem EndsAt.ending {k budget : Nat} (h : m.EndsAt k r) (hlimit : m.limit = none)
    (hle : k ≤ budget) : (m.run .silent budget).ending = r.ending := by
  obtain ⟨j, rfl, hr, hfinal, hbefore⟩ := h.exists_step
  obtain ⟨l, rfl⟩ := Nat.exists_eq_add_of_le hle
  rw [run_silent, Nat.add_assoc, answers_add,
    endingOf_append (all_ran_of_not_isFinal hlimit hbefore), Nat.add_comm 1 l, answers, hr]
  cases r with
  | ran output => cases hfinal
  | stopped => rfl
  | failed e => rfl

/-- A program that does not end within the limit fills it. -/
theorem full_of_not_isFinal {limit : Nat} (hlimit : m.limit = none) (hs : m.status = .running)
    (hzero : m.steps = 0) (h : ∀ a ∈ m.answers limit, ¬ a.isFinal) :
    let full := (m.afterSteps limit).limitedTo limit
    full.steps = limit ∧ full.status = .running ∧ ¬ full.ready ∧
      full.step = (.failed .stepLimit, full) := by
  intro full
  obtain ⟨hstatus, hsteps⟩ := afterSteps_of_all_ran hs (all_ran_of_not_isFinal hlimit h)
  rw [hzero, Nat.zero_add] at hsteps
  have hfull : full.atLimit := by
    simp only [full, atLimit, limitedTo, hsteps, Nat.le_refl, decide_true]
  refine ⟨hsteps, hstatus, ?_, step_of_atLimit hstatus hfull⟩
  rw [ready_iff, hfull]
  simp

/-- A run with a step limit is a run without one as long as the program ends within the limit, and
is cut short at the limit if it does not. Either way the machine then stays as it is, and gives the
same answer to every step and every run, until it starts over. -/
theorem a_step_limit_only_cuts_a_run_short (program : List Int32) (capacity : Int)
    (args : List Value) (limit : Nat) (hlimit : 0 < limit) :
    let unlimited := new program capacity 0 args
    let limited := new program capacity limit args
    (∀ k r, unlimited.EndsAt k r → k ≤ limit → ∀ budget,
      let whole := unlimited.run .silent budget
      limited.run .silent budget = { whole with machine := whole.machine.limitedTo limit } ∧
        (k ≤ budget → whole.ending = r.ending)) ∧
    ((∀ k r, unlimited.EndsAt k r → limit < k) →
      let full := (unlimited.afterSteps limit).limitedTo limit
      full.steps = limit ∧ full.halted = false ∧
        (∀ budget, limit < budget → limited.run .silent budget =
          ⟨.failed .stepLimit, (unlimited.answers limit).flatMap StepResult.output, full⟩) ∧
        ∀ requests : List Request, (∀ q ∈ requests, ¬ q.restarts) →
          (full.serveAll requests).Rests (.failed .stepLimit)) ∧
    ∀ m : Machine, m.step.1.isFinal → ∀ requests : List Request, (∀ q ∈ requests, ¬ q.restarts) →
      (m.step.2.serveAll requests).Rests m.step.1 := by
  intro unlimited limited
  have hnone : unlimited.limit = none := rfl
  have hsome : limited.limit = some limit := limit_new program capacity args hlimit
  have hsimilar : Similar .limit unlimited limited := similar_limit program capacity args limit
  refine ⟨?_, ?_, ?_⟩
  · intro k r hends hle budget whole
    -- behind its end the program runs no more, so that the limit is not looked at
    have hrunning : ∀ j < budget, (unlimited.afterSteps j).status = .running → j < limit := by
      intro j _ hs
      refine Nat.lt_of_lt_of_le (Nat.lt_of_not_le ?_) hle
      intro hover
      exact hends.status hover hs
    obtain ⟨hanswers, hafter⟩ := hsimilar.limitedTo_afterSteps hnone hsome rfl hrunning
    refine ⟨?_, hends.ending hnone⟩
    simp only [whole]
    rw [run_silent, run_silent, hanswers, hafter]
  · intro hlate full
    have hnot : ∀ a ∈ unlimited.answers limit, ¬ a.isFinal := (endsAfter_iff _ _).mp hlate
    obtain ⟨hsteps, hstatus, hready, hstep⟩ := full_of_not_isFinal hnone rfl rfl hnot
    obtain ⟨hanswers, hafter⟩ := hsimilar.limitedTo_afterSteps hnone hsome rfl fun j hj _ => hj
    refine ⟨hsteps, ?_, ?_, ?_⟩
    · unfold halted
      rw [hstatus]
    · intro budget hbudget
      -- the answers are those up to the limit, and then the same refusal again and again
      obtain ⟨l, rfl⟩ := Nat.exists_eq_add_of_lt hbudget
      obtain ⟨hrest, hlast⟩ := answers_of_fixed hstep (l + 1)
      rw [run_silent, Nat.add_assoc, answers_add, afterSteps_add, hanswers, hafter, hrest, hlast,
        endingOf_append (all_ran_of_not_isFinal hnone hnot)]
      simp [List.replicate_succ, endingOf, StepResult.output, full]
    · intro requests hgo
      have hrests := rests_serveAll hready hgo
      rw [hstep] at hrests
      exact hrests
  · intro m hfinal requests hgo
    exact rests_of_isFinal hfinal hgo

/-- A program that prints a 5 and stops with its third step. -/
def printing : List Int32 := [0, 5, 22, 25]

/-- A limit of three is just enough. A limit of two is used up before the stop, and shows in nothing
that came before. -/
theorem a_step_limit_of_two_cuts_a_run_of_three_short :
    let unlimited := new printing 4 0 []
    let full := (unlimited.afterSteps 2).limitedTo 2
    let whole := unlimited.run .silent 9
    unlimited.EndsAt 3 .stopped ∧
      (new printing 4 (3 : Nat) []).run .silent 9 =
        { whole with machine := whole.machine.limitedTo 3 } ∧ whole.ending = .stopped ∧
      (new printing 4 (2 : Nat) []).run .silent 9 = ⟨.failed .stepLimit, [53, 32], full⟩ ∧
      (full.serveAll [.step, .install 0]).Rests (.failed .stepLimit) ∧
      ((unlimited.afterSteps 2).step.2.serveAll [.step, .install 0]).Rests .stopped := by
  intro unlimited full whole
  have hends : unlimited.EndsAt 3 .stopped :=
    ⟨[.ran [], .ran [53, 32]], by decide +kernel, by decide, by decide⟩
  have hlate : ∀ k r, unlimited.EndsAt k r → 2 < k := (endsAfter_iff _ 2).mpr (by decide +kernel)
  obtain ⟨henough, -, hrests⟩ := a_step_limit_only_cuts_a_run_short printing 4 [] 3 (by decide)
  obtain ⟨-, hshort, -⟩ := a_step_limit_only_cuts_a_run_short printing 4 [] 2 (by decide)
  obtain ⟨hwhole, hending⟩ := henough 3 .stopped hends (by decide) 9
  obtain ⟨-, -, hcut, hfull⟩ := hshort hlate
  have houtput : (unlimited.answers 2).flatMap StepResult.output = [53, 32] := by decide +kernel
  refine ⟨hends, hwhole, hending (by decide), ?_, hfull _ (by simp [Request.restarts]), ?_⟩
  · rw [hcut 9 (by decide), houtput]
  · have hlast : (unlimited.afterSteps 2).step.1 = .stopped := by decide +kernel
    have hstays := hrests (unlimited.afterSteps 2) (by rw [hlast]; rfl) [.step, .install 0]
      (by simp [Request.restarts])
    rw [hlast] at hstays
    exact hstays

end Machine

end TagMachine
