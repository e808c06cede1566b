import Mathlib.Data.List.Induction
import TagMachine.Proofs.Footprint

/-!
How long a handler record lives. Only an install and a recovered division move the handler register,
so an instruction that lowers the top of the stack into the newest record leaves the register
behind. Here is exactly what an instruction must not do for the newest record to stay under the top,
and what happens to a program that does it.
-/

namespace TagMachine

/-- What a host can ask of a machine while its program runs. -/
inductive Move where
  | step
  | install (resume : Int32)
  deriving DecidableEq, Repr

namespace Machine

variable {m n : Machine}

/-- The machine after a move, if it succeeds. A step of a machine that has stopped does. -/
def moved? (m : Machine) : Move → Option Machine
  | .step =>
    match m.step with
    | (.failed _, _) => none
    | (_, n) => some n
  | .install resume =>
    match (installHandler resume).run m with
    | .ok _ n => some n
    | .error _ _ => none

/-- The machine after all moves, if they all succeed. -/
def after? (m : Machine) (moves : List Move) : Option Machine := moves.foldlM moved? m

/-- The newest handler record lies wholly under the top of the stack. -/
def RecordLive (m : Machine) : Prop := ∀ h, m.hr = some h → h + 2 ≤ m.sp

/-- The next instruction spares the newest handler record. -/
structure SparesRecord (m : Machine) : Prop where
  /-- The top does not sink into the record. -/
  kept : ¬ m.DividesByZero → ∀ h, m.hr = some h → h + 2 ≤ m.sp + m.rise
  /-- The record that a division by zero goes back to ends below the one that took it. -/
  linked : m.DividesByZero → ∀ h resume b, m.search = .found h resume (some b) → b + 3 ≤ h

/-! ## One move -/

theorem moved?_step_iff :
    m.moved? .step = some n ↔ m.step = (.stopped, n) ∨ ∃ output, m.step = (.ran output, n) := by
  unfold moved?
  dsimp only
  rcases m.step with ⟨result, k⟩
  cases result <;> simp

theorem moved?_install_iff {resume : Int32} :
    m.moved? (.install resume) = some n ↔
      0 ≤ m.sp + 1 ∧ m.sp + 3 < m.capacity ∧ n = m.installed resume := by
  rw [← installHandler_ok_iff (u := ())]
  unfold moved?
  dsimp only
  cases (installHandler resume).run m <;> simp

/-- A stop changes no slot, and neither the top nor the handler register. -/
theorem step_stopped (h : m.step = (.stopped, n)) :
    n.sp = m.sp ∧ n.hr = m.hr ∧ n.slots = m.slots := by
  by_cases hr : m.ready
  · rw [step_of_ready hr] at h
    cases hi : instruction.run m with
    | error why k => simp [hi, settle] at h
    | ok e k =>
      obtain ⟨op, hop, hrule⟩ := instruction_ok_iff.mp hi
      cases e with
      | went output => simp [hi, settle] at h
      | halt =>
        simp only [hi, settle, Prod.mk.injEq, true_and] at h
        subst h
        generalize he : Effect.halt = e at hrule
        cases hrule with
        | stop => exact ⟨rfl, rfl, rfl⟩
        | _ => cases he
  · have hm := (step_of_not_ready hr).2
    rw [h] at hm
    subst hm
    exact ⟨rfl, rfl, rfl⟩

theorem recordLive_installed (resume : Int32) (h : 0 ≤ m.sp + 1) :
    (m.installed resume).RecordLive := by
  intro r hr
  simp only [installed_keeps, Option.some.injEq] at hr ⊢
  omega

/-- A step keeps the newest record live exactly if its instruction spares it. -/
theorem recordLive_step_iff {output : Bytes} (h : m.step = (.ran output, n)) :
    n.RecordLive ↔ m.SparesRecord := by
  obtain ⟨-, op, k, hop, hrule, rfl⟩ := step_ran_iff.mp h
  unfold RecordLive
  simp only [counted_keeps]
  by_cases hz : m.DividesByZero
  · -- the new top is right below record `r`, and its link is the new register
    obtain ⟨r, resume, before, hs, rfl⟩ := hrule.of_dividesByZero hop hz
    simp only [recovered]
    constructor
    · intro hlive
      refine ⟨fun hnz => absurd hz hnz, ?_⟩
      intro _ r' resume' b hs'
      rw [hs] at hs'
      cases hs'
      have := hlive b rfl
      omega
    · rintro hspares b rfl
      have := hspares.linked hz r resume b hs
      omega
  · -- the register stays, so only where the top goes matters
    obtain ⟨hsp, hhr⟩ := hrule.sp_hr hop hz
    rw [hsp, hhr]
    constructor
    · intro hlive
      exact ⟨fun _ => hlive, fun hz' => absurd hz' hz⟩
    · intro hspares
      exact hspares.kept hz

/-- A live record that takes a division is cut off with all its slots. -/
theorem RecordLive.recovered_top {output : Bytes} (hlive : m.RecordLive)
    (h : m.step = (.ran output, n)) (hz : m.DividesByZero) : n.sp + 3 ≤ m.sp := by
  obtain ⟨-, op, k, hop, hrule, rfl⟩ := step_ran_iff.mp h
  obtain ⟨r, resume, before, hs, rfl⟩ := hrule.of_dividesByZero hop hz
  obtain ⟨newest, hr, hle, -⟩ := search_found hs
  have := hlive newest hr
  simp only [counted_keeps, recovered]
  omega

/-! ## Any number of moves -/

theorem after?_append (m : Machine) (moves : List Move) (move : Move) :
    m.after? (moves ++ [move]) = (m.after? moves).bind (·.moved? move) := by
  simp [after?]

/-- While every instruction spares the newest record, it stays live. -/
theorem recordLive_after? {start : Machine} (hstart : start.hr = none) (moves : List Move)
    (hspares : ∀ past m n output, past ++ [.step] <+: moves → start.after? past = some m →
      m.step = (.ran output, n) → m.SparesRecord) :
    ∀ past, past <+: moves → ∀ m, start.after? past = some m → m.RecordLive := by
  intro past
  -- the last move decides, so the induction takes moves off the end
  induction past using List.reverseRecOn with
  | nil =>
    intro _ m hm
    obtain rfl : start = m := by simpa [after?] using hm
    intro h hh
    rw [hstart] at hh
    cases hh
  | append_singleton past move ih =>
    intro hpre n hn
    rw [after?_append, Option.bind_eq_some_iff] at hn
    obtain ⟨m, hm, hmove⟩ := hn
    have hlive : m.RecordLive := ih ((List.prefix_append past [move]).trans hpre) m hm
    cases move with
    | step =>
      rcases moved?_step_iff.mp hmove with hstop | ⟨output, hran⟩
      · obtain ⟨hsp, hhr, -⟩ := step_stopped hstop
        unfold RecordLive
        rw [hsp, hhr]
        exact hlive
      · exact (recordLive_step_iff hran).mpr (hspares past m n output hpre hm hran)
    | install resume =>
      -- a new record is live, whatever became of the others
      obtain ⟨hlo, -, rfl⟩ := moved?_install_iff.mp hmove
      exact recordLive_installed resume hlo

/-- The newest handler record is live all along a run of successful steps and installs exactly if
every instruction of the run spares it. As long as it is live, a recovered division cuts off the
record that took it, so it never raises the top. -/
theorem records_live_exactly_while_they_are_spared (program : List Int32) (capacity maxSteps : Int)
    (args : List Value) (moves : List Move) :
    let start := new program capacity maxSteps args
    ((∀ past m, past <+: moves → start.after? past = some m → m.RecordLive) ↔
      ∀ past m n output, past ++ [.step] <+: moves → start.after? past = some m →
        m.step = (.ran output, n) → m.SparesRecord) ∧
    ∀ past m n output, past ++ [.step] <+: moves → start.after? past = some m → m.RecordLive →
      m.step = (.ran output, n) → m.DividesByZero → n.sp + 3 ≤ m.sp := by
  intro start
  refine ⟨⟨?_, ?_⟩, ?_⟩
  · intro hlive past m n output hpre hm hran
    have hn : start.after? (past ++ [.step]) = some n := by
      rw [after?_append, hm]
      exact moved?_step_iff.mpr (Or.inr ⟨output, hran⟩)
    exact (recordLive_step_iff hran).mp (hlive _ n hpre hn)
  · intro hspares past m hpre hm
    exact recordLive_after? rfl moves hspares past hpre m hm
  · intro past m n output _ _ hlive hran hz
    exact hlive.recovered_top hran hz

/-- A program that drops a handler record and divides its own 1 by its own 0 in the same slots. -/
def dropped : List Int32 := [15, -3, 0, 1, 0, 0, 4, 25]

/-- The register still points at the dropped record, and the division takes the two operands for a
tag and an address: the run goes on at 0, without a fault. -/
theorem a_dropped_record_takes_a_division :
    let start := new dropped 8 0 []
    (∃ m, start.after? [.install 7, .step] = some m ∧ ¬ m.RecordLive) ∧
      (start.after? [.install 7, .step, .step, .step, .step]).map (fun n => (n.pc, n.sp, n.hr)) =
        some (0, -1, none) := by
  intro start
  refine ⟨⟨_, rfl, ?_⟩, by decide +kernel⟩
  intro hlive
  have := hlive 0 rfl
  revert this
  decide

end Machine

end TagMachine
