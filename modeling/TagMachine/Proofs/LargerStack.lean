import TagMachine.Proofs.LiveRecords
import TagMachine.Proofs.Runs

/-!
The size of the stack. A machine with more slots does what one with fewer does, move by move, until
the smaller one answers that something lies out of bounds.
-/

namespace TagMachine

/-- What a move comes to. -/
inductive Answer where
  | stepped (r : StepResult)
  | installed
  | refused (why : Trap)
  deriving DecidableEq, Repr

/-- The stack is out of bounds, in a step or in an install. -/
def Answer.overruns : Answer → Bool
  | .stepped r => r.overruns
  | .installed => false
  | .refused why => why.trapClass == .stackBounds

/-- A move as a request. -/
def Move.request : Move → Request
  | .step => .step
  | .install resume => .install resume

namespace Machine

variable {d : Difference} {m n : Machine}

/-- The answer to a move. -/
def answer (m : Machine) : Move → Answer
  | .step => .stepped m.step.1
  | .install resume =>
    match (installHandler resume).run m with
    | .ok _ _ => .installed
    | .error why _ => .refused why

/-- The answers to all moves, in order. -/
def answersTo (m : Machine) : List Move → List Answer
  | [] => []
  | move :: moves => m.answer move :: (m.serve move.request).answersTo moves

/-- The machine after all moves, whatever the answers are. -/
def afterMoves (m : Machine) (moves : List Move) : Machine := m.serveAll (moves.map Move.request)

theorem Agrees.installHandler (h : Similar d m n) (hd : d ≠ .residue) (resume : Int32) :
    Agrees d ((installHandler resume).run m) ((installHandler resume).run n) := by
  obtain ⟨-, -, -, -, -, hhr, -⟩ := h.registers
  rw [installHandler_eq, installHandler_eq, hhr]
  refine (pushAll h _).bind ?_
  intro _ m n _ h
  refine .ok ?_
  obtain ⟨slots, limit, rfl⟩ := h.exists_eq
  exact h.set fun hres => absurd hres hd

/-- A move that fits on the smaller stack comes to the same on the larger one. -/
theorem Similar.answer (h : Similar .room m n) {move : Move} (hfits : ¬ (m.answer move).overruns) :
    n.answer move = m.answer move ∧
      Similar .room (m.serve move.request) (n.serve move.request) := by
  cases move with
  | step =>
    rcases h.step (by simp) (by simp) with ⟨hanswer, hnext⟩ | ⟨-, hout⟩
    · exact ⟨congrArg Answer.stepped hanswer, hnext⟩
    · exact absurd hout hfits
  | install resume =>
    have hinstall := Agrees.installHandler h (by simp) resume
    unfold Machine.answer at hfits ⊢
    unfold Machine.serve Move.request
    dsimp only at hfits ⊢
    generalize (installHandler resume).run m = r at hinstall hfits ⊢
    generalize (installHandler resume).run n = r' at hinstall ⊢
    cases hinstall with
    | ok hnext => exact ⟨rfl, hnext⟩
    | error hnext => exact ⟨rfl, hnext⟩
    | overrun _ hclass => exact absurd (beq_iff_eq.mpr hclass) hfits

theorem Similar.answersTo (h : Similar .room m n) {moves : List Move}
    (hfits : ∀ a ∈ m.answersTo moves, ¬ a.overruns) :
    n.answersTo moves = m.answersTo moves ∧
      Similar .room (m.afterMoves moves) (n.afterMoves moves) := by
  induction moves generalizing m n with
  | nil => exact ⟨rfl, h⟩
  | cons move moves ih =>
    unfold Machine.answersTo at hfits ⊢
    obtain ⟨hanswer, hnext⟩ := h.answer (hfits _ List.mem_cons_self)
    obtain ⟨hrest, hlast⟩ := ih hnext fun a ha => hfits a (List.mem_cons_of_mem _ ha)
    rw [hanswer, hrest]
    exact ⟨rfl, hlast⟩

theorem similar_new (program : List Int32) (limit : Int) (args : List Value) {small large : Int}
    (hle : capacityFor small ≤ capacityFor large) :
    Similar .room (new program small limit args) (new program large limit args) where
  same := rfl
  limit := Or.inr rfl
  room := Or.inl rfl
  capacity_le := by simpa [new, capacity] using hle
  slots := by
    intro i hi _
    obtain ⟨hlo, hhi⟩ := hi
    simp only [new, capacity, Array.size_replicate] at hhi
    unfold slot?
    rw [if_pos hlo, if_pos hlo]
    simp only [new]
    rw [Array.getElem?_replicate, Array.getElem?_replicate, if_pos (by omega), if_pos (by omega)]
  handler := by simp

/-- Whatever steps and installs are asked for: as long as nothing is out of bounds on the smaller of
two stacks, the larger one gives the same answers and leaves the same registers and the same values
in the slots that both have. -/
theorem a_larger_stack_changes_no_run_that_fitted (program : List Int32) (small large limit : Int)
    (args : List Value) (moves : List Move) (hle : capacityFor small ≤ capacityFor large)
    (hfits : ∀ a ∈ (new program small limit args).answersTo moves, ¬ a.overruns) :
    let m := (new program small limit args).afterMoves moves
    let n := (new program large limit args).afterMoves moves
    (new program large limit args).answersTo moves =
      (new program small limit args).answersTo moves ∧
      n = { m with slots := n.slots } ∧
      ∀ i : Nat, i < capacityFor small → ∃ v, m.slot? i = some v ∧ n.slot? i = some v := by
  intro m n
  obtain ⟨hanswers, hsimilar⟩ := (similar_new program limit args hle).answersTo hfits
  have hsafe : Safe (capacityFor small) m :=
    (invariant_safe _).serveAll _ (safe_new program small limit args)
  refine ⟨hanswers, hsimilar.eq_withSlots (by simp), ?_⟩
  intro i hi
  have hslot : m.HasSlot i := (hsafe.hasSlot_iff i).mpr ⟨by omega, by omega⟩
  obtain ⟨v, hv⟩ := exists_slot? hslot
  exact ⟨v, hv, (hsimilar.slots i hslot (by simp)).trans hv⟩

/-- A program that divides 6 by zero. -/
def divided : List Int32 := [0, 6, 0, 0, 4, 25]

/-- Five slots are just enough for a handler record and the operands of a division: it recovers
there as it does on nine. -/
theorem a_larger_stack_changes_no_division_that_fitted :
    let moves := [.install 5, .step, .step, .step, .step]
    let m := (new divided 5 0 []).afterMoves moves
    let n := (new divided 9 0 []).afterMoves moves
    (∀ a ∈ (new divided 5 0 []).answersTo moves, ¬ a.overruns) ∧ m.status = .stopped ∧
      (new divided 9 0 []).answersTo moves = (new divided 5 0 []).answersTo moves ∧
      n = { m with slots := n.slots } ∧
      ∀ i : Nat, i < 5 → ∃ v, m.slot? i = some v ∧ n.slot? i = some v := by
  intro moves m n
  have hfits : ∀ a ∈ (new divided 5 0 []).answersTo moves, ¬ a.overruns := by decide +kernel
  exact ⟨hfits, by decide +kernel,
    a_larger_stack_changes_no_run_that_fitted divided 5 9 0 [] moves (by decide) hfits⟩

end Machine

end TagMachine
