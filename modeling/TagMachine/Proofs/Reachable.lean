import TagMachine.Proofs.StepRules

/-!
The machines that a host can reach. A host steps a machine, runs it, installs handlers, resets it
and loads other programs, in any order and whatever the answers are. An invariant is shown for all
of them at once: it is enough that every rule keeps it.
-/

namespace TagMachine

/-- What a host can ask of a machine. -/
inductive Request where
  | step
  /-- A run; one that does not end by itself is looked at after `budget` steps. -/
  | run (watch : Observer) (budget : Nat)
  | install (resume : Int32)
  | reset
  | load (program : List Int32)

namespace Machine

variable {m n : Machine}

/-- The machine after a request, whether it succeeded or not. -/
def serve (m : Machine) : Request → Machine
  | .step => m.step.2
  | .run watch budget => (m.run watch budget).machine
  | .install resume =>
    match (installHandler resume).run m with
    | .ok _ n => n
    | .error _ n => n
  | .reset => m.reset
  | .load program => m.load program

/-- The machine after all requests, in order. -/
def serveAll (m : Machine) (requests : List Request) : Machine := requests.foldl serve m

/-- What is written on the way does not matter to the machine. -/
theorem observedStep_machine (watch : Observer) (m : Machine) :
    (m.observedStep watch).2.2 = m.step.2 := by
  unfold observedStep
  rcases m.step with ⟨result, n⟩
  cases result <;> rfl

/-- A reset is the same program loaded again. -/
theorem reset_eq_load (m : Machine) : m.reset = m.load m.code.toList := by
  simp [load]

/-- The steps of a run are steps of the machine, so a run keeps what each of them keeps. -/
theorem run_keeps {I : Machine → Prop} (hI : ∀ {m : Machine}, I m → I m.step.2) (watch : Observer)
    (budget : Nat) (h : I m) : I (m.run watch budget).machine := by
  unfold Machine.run
  generalize #[] = written
  induction budget generalizing m written with
  | zero => exact h
  | succ budget ih =>
    have hstep : I (m.observedStep watch).2.2 := by
      rw [observedStep_machine]
      exact hI h
    unfold runFrom
    rcases hobs : m.observedStep watch with ⟨result, output, n⟩
    rw [hobs] at hstep
    cases result with
    | ran out => exact ih hstep _
    | stopped => exact hstep
    | failed e => exact hstep

/-! ## The rules keep an invariant -/

/-- A property that no instruction, trap or request can break. -/
structure Invariant (I : Machine → Prop) : Prop where
  counted {m : Machine} (status : Status) : I m → I (m.counted status)
  fetched {m : Machine} (k : Nat) : I m → I (m.fetched k)
  /-- The part of a handler record that still found room. -/
  pushed {m : Machine} {resume : Int32} {done rest : List Value} :
    I m → recordSlots m.hr resume = done ++ rest → m.Fits done → I (m.pushedAll done)
  performs {m n : Machine} {op : Opcode} {e : Effect} : I m → Performs m op e n → I n
  leaves {m n : Machine} {op : Opcode} : I m → Leaves m op n → I n
  installed {m : Machine} (resume : Int32) :
    I m → 0 ≤ m.sp + 1 → m.sp + 3 < m.capacity → I (m.installed resume)
  load {m : Machine} (program : List Int32) : I m → I (m.load program)

namespace Invariant

variable {I : Machine → Prop}

theorem step (hI : Invariant I) (h : I m) : I m.step.2 := by
  rcases step_leaves m with hm | ⟨k, status, hm, hk⟩
  · rw [hm]
    exact h
  · have h1 : I (m.fetched 1) := hI.fetched 1 h
    rw [hm]
    apply hI.counted
    rcases hk with rfl | rfl | ⟨op, e, hrule⟩ | ⟨op, hleft⟩
    · exact h
    · exact h1
    · exact hI.performs h1 hrule
    · exact hI.leaves h1 hleft

theorem run (hI : Invariant I) (watch : Observer) (budget : Nat) (h : I m) :
    I (m.run watch budget).machine :=
  run_keeps hI.step watch budget h

theorem install (hI : Invariant I) (resume : Int32) (h : I m) : I (m.serve (.install resume)) := by
  unfold serve
  dsimp only
  cases hrun : (installHandler resume).run m with
  | ok u n =>
    obtain ⟨hlo, hhi, rfl⟩ := installHandler_ok_iff.mp hrun
    exact hI.installed resume h hlo hhi
  | error why n =>
    obtain ⟨done, v, rest, hrecord, hfits, -, rfl⟩ := installHandler_error hrun
    exact hI.pushed h hrecord hfits

/-- A request keeps every invariant. -/
theorem serve (hI : Invariant I) (r : Request) (h : I m) : I (m.serve r) := by
  cases r with
  | step => exact hI.step h
  | run watch budget => exact hI.run watch budget h
  | install resume => exact hI.install resume h
  | reset =>
    have hload := hI.load m.code.toList h
    rw [← reset_eq_load] at hload
    exact hload
  | load program => exact hI.load program h

/-- So do any number of them. -/
theorem serveAll (hI : Invariant I) (requests : List Request) (h : I m) :
    I (m.serveAll requests) := by
  induction requests generalizing m with
  | nil => exact h
  | cons r requests ih => exact ih (hI.serve r h)

end Invariant

end Machine

end TagMachine
