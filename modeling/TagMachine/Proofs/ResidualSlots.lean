import TagMachine.Proofs.Runs

/-!
What the slots above the top of the stack hold. A reset keeps it, so a program starts over what the
one before it left behind. As long as INCSP does not raise the top and LDI does not load from above
it, nothing of that shows: a used machine runs like a new one.
-/

namespace TagMachine

/-- What a host sees of a run: how it ended, what was written and where it left the top. -/
def Run.report (r : Run) : Ending × Bytes × Int := (r.ending, r.output, r.machine.sp)

namespace Machine

variable {m n : Machine}

/-- None of a number of steps looks above the top of the stack. -/
def NeverPeeks (m : Machine) (k : Nat) : Prop := ∀ j < k, ¬ (m.afterSteps j).Peeks

instance (m : Machine) (k : Nat) : Decidable (m.NeverPeeks k) :=
  inferInstanceAs (Decidable (∀ j < k, _))

theorem similar_residue (hsame : n = { m with slots := n.slots }) (hcap : n.capacity = m.capacity)
    (hhr : m.hr = none) (hslots : ∀ i ≤ m.sp, n.slot? i = m.slot? i) : Similar .residue m n where
  same := by
    rw [hsame]
  limit := by
    rw [hsame]
    exact Or.inr rfl
  room := Or.inr hcap
  capacity_le := Nat.le_of_eq hcap.symm
  slots := fun i _ htop => hslots i (htop rfl)
  handler := fun _ => hhr

/-- All that can be seen of machines that differ above the top only is the same after any steps that
do not look there. -/
theorem Similar.residue (h : Similar .residue m n) {k : Nat} (hpeek : m.NeverPeeks k) :
    n.answers k = m.answers k ∧
      n.afterSteps k = { m.afterSteps k with slots := (n.afterSteps k).slots } ∧
      ∀ i ≤ (m.afterSteps k).sp, (n.afterSteps k).slot? i = (m.afterSteps k).slot? i := by
  obtain ⟨hanswers, hafter⟩ := h.afterSteps (by simp) k (by simp) fun _ => hpeek
  refine ⟨hanswers, hafter.eq_withSlots (by simp), ?_⟩
  intro i hi
  exact hafter.slot? (by simp) fun _ => hi

theorem Similar.run_report (h : Similar .residue m n) {k : Nat} (hpeek : m.NeverPeeks k) :
    (n.run .silent k).report = (m.run .silent k).report := by
  obtain ⟨hanswers, hafter, -⟩ := h.residue hpeek
  have hsp : (n.afterSteps k).sp = (m.afterSteps k).sp := by rw [hafter]
  rw [run_silent, run_silent]
  unfold Run.report
  rw [hanswers, hsp]

/-- A program loaded on a used machine is as on a new one, but for what the slots hold. -/
theorem similar_load (first program : List Int32) (capacity limit : Int) (args : List Value)
    (requests : List Request) :
    Similar .residue (new program capacity limit args)
      (((new first capacity limit args).serveAll requests).load program) := by
  have hsetup := (invariant_setup args (new first capacity limit args).limit).serveAll requests
    (m := new first capacity limit args) ⟨rfl, rfl⟩
  have hsafe := (invariant_safe _).serveAll requests (safe_new first capacity limit args)
  generalize (new first capacity limit args).serveAll requests = used at hsetup hsafe
  obtain ⟨hargs, hlimit⟩ := hsetup
  refine similar_residue ?_ ?_ rfl ?_
  · unfold load reset
    rw [hargs, hlimit]
    rfl
  · have hnew := (safe_new program capacity limit args).slots
    rw [hnew]
    exact hsafe.slots
  · -- the stack is empty on both
    intro i hi
    have hi : i ≤ -1 := hi
    rw [slot?_of_neg (by omega), slot?_of_neg (by omega)]

/-- Nothing of what lies above the top of the stack shows in the steps of a machine, as long as they
do not look there. So a run after a reset or a load shows nothing of the runs before. -/
theorem what_lies_above_the_top_does_not_show :
    (∀ (m n : Machine) (k : Nat), n = { m with slots := n.slots } → n.capacity = m.capacity →
      m.hr = none → (∀ i ≤ m.sp, n.slot? i = m.slot? i) → m.NeverPeeks k →
        n.answers k = m.answers k ∧
          n.afterSteps k = { m.afterSteps k with slots := (n.afterSteps k).slots } ∧
          ∀ i ≤ (m.afterSteps k).sp, (n.afterSteps k).slot? i = (m.afterSteps k).slot? i) ∧
    ∀ (first : List Int32) (capacity limit : Int) (args : List Value) (requests : List Request)
      (used : Machine), used = (new first capacity limit args).serveAll requests →
        (∀ program budget, (new program capacity limit args).NeverPeeks budget →
          ((used.load program).run .silent budget).report =
            ((new program capacity limit args).run .silent budget).report) ∧
        ∀ budget, (new used.code.toList capacity limit args).NeverPeeks budget →
          (used.reset.run .silent budget).report =
            ((new used.code.toList capacity limit args).run .silent budget).report := by
  constructor
  · intro m n k hsame hcap hhr hslots hpeek
    exact (similar_residue hsame hcap hhr hslots).residue hpeek
  · rintro first capacity limit args requests used rfl
    constructor
    · intro program budget hpeek
      exact (similar_load first program capacity limit args requests).run_report hpeek
    · intro budget hpeek
      rw [reset_eq_load]
      exact (similar_load first _ capacity limit args requests).run_report hpeek

/-- A program that fills three slots. -/
def filling : List Int32 := [0, 7, 9, 9, 25]

/-- A program that stores a 5 above the top, passes another one to a function and prints the
result. -/
def calling : List Int32 := [0, 2, 0, 5, 12, 9, 19, 1, 11, 22, 25, 21, 0]

/-- Neither a 7 above the operands of the store nor the three that the other program left show. -/
theorem calling_does_not_show_what_lies_above :
    let fresh := new calling 6 0 []
    let used := (new filling 6 0 []).serveAll [.run .silent 9]
    let storing := fresh.afterSteps 2
    let other := storing.withSlot 3 (.int 7)
    storing.NeverPeeks 6 ∧ fresh.NeverPeeks 8 ∧ used.slot? 2 = some (.int 7) ∧
      other.answers 6 = storing.answers 6 ∧
      ((used.load calling).run .silent 8).report = (fresh.run .silent 8).report ∧
      (fresh.run .silent 8).ending = .stopped ∧ (fresh.run .silent 8).output = [53, 32] ∧
      (used.reset.run .silent 9).report = ((new used.code.toList 6 0 []).run .silent 9).report := by
  intro fresh used storing other
  have hstoring : storing.NeverPeeks 6 := by decide +kernel
  have hfresh : fresh.NeverPeeks 8 := by decide +kernel
  obtain ⟨hsteps, hruns⟩ := what_lies_above_the_top_does_not_show
  obtain ⟨hload, hreset⟩ := hruns filling 6 0 [] [.run .silent 9] used rfl
  have hleft : used.slot? 2 = some (.int 7) := by rfl
  have hother : other = { storing with slots := other.slots } := by rfl
  refine ⟨hstoring, hfresh, hleft, ?_, hload calling 8 hfresh, by decide +kernel,
    by decide +kernel, hreset 9 (by decide +kernel)⟩
  refine (hsteps storing other 6 hother (by simp [other, capacity])
    (by decide +kernel) ?_ hstoring).1
  intro i hi
  have htop : storing.sp = 1 := by decide +kernel
  exact slot?_withSlot_ne (by omega) _

end Machine

end TagMachine
