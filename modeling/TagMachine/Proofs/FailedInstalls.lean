import TagMachine.Proofs.FaultedSteps

/-!
Installs that run out of room. A handler record is pushed slot by slot, and a slot that finds no
room fails the install. What was pushed before it stays on the stack, so an install leaves the
machine with its record or as it was, unless just one or two slots are free.
-/

namespace TagMachine.Machine

variable {m n : Machine} {c : Nat} {resume : Int32}

/-- What an install that goes through leaves: its record lies on top of the stack and is the
newest. -/
structure Installs (m : Machine) (resume : Int32) (n : Machine) : Prop where
  top : n.sp = m.sp + 3
  newest : n.hr = some (m.sp + 1).toNat
  stack : n.live = m.live ++ recordSlots m.hr resume
  registers : n.pc = m.pc ∧ n.bp = m.bp

/-- The registers and the live slots are what they were. -/
structure Untouched (m n : Machine) : Prop where
  registers : n.pc = m.pc ∧ n.sp = m.sp ∧ n.bp = m.bp ∧ n.hr = m.hr
  stack : n.live = m.live

/-- An install goes through, or it fails and leaves everything as it was. -/
def AllOrNothing (m : Machine) (resume : Int32) : Prop :=
  (∃ n, (installHandler resume).run m = .ok () n ∧ m.Installs resume n) ∨
    ∃ why n, (installHandler resume).run m = .error why n ∧ m.Untouched n

/-- How many slots are free above the top. -/
def free (m : Machine) : Nat := (m.capacity - 1 - m.sp).toNat

theorem Safe.free_eq (hm : Safe c m) : (m.free : Int) = m.capacity - 1 - m.sp := by
  have hlt := hm.top_lt
  have hslots := hm.slots
  unfold free
  omega

/-- An install goes through exactly if three slots are free. -/
theorem Safe.installs_iff (hm : Safe c m) :
    (∃ n, (installHandler resume).run m = .ok () n ∧ m.Installs resume n) ↔ 3 ≤ m.free := by
  have hfree := hm.free_eq
  have hge := hm.top_ge
  constructor
  · rintro ⟨n, h, -⟩
    obtain ⟨-, hhi, -⟩ := installHandler_ok_iff.mp h
    omega
  · intro hroom
    have hlo : 0 ≤ m.sp + 1 := by omega
    have hhi : m.sp + 3 < m.capacity := by omega
    have hfits : m.Fits (recordSlots m.hr resume) := Or.inr ⟨hlo, hhi⟩
    refine ⟨m.installed resume, installHandler_ok_iff.mpr ⟨hlo, hhi, rfl⟩, by simp, by simp, ?_,
      by simp⟩
    rw [← live_pushedAll hfits]
    rfl

/-- An install that fails has filled the stack with the first slots of its record. -/
theorem Safe.install_fails {why : Trap} (hm : Safe c m)
    (h : (installHandler resume).run m = .error why n) :
    why = .overflow m.capacity m.capacity ∧ n.pc = m.pc ∧ n.bp = m.bp ∧ n.hr = m.hr ∧
      n.sp = m.capacity - 1 ∧ n.live = m.live ++ (recordSlots m.hr resume).take m.free := by
  have hoverflow : why = .overflow (n.sp + 1) n.capacity := by
    rw [installHandler_eq, bind_error_iff] at h
    rcases h with h | ⟨-, k, -, h⟩
    · exact pushAll_overflow h
    · cases h
  obtain ⟨done, v, rest, hrecord, hfits, hfull, rfl⟩ := installHandler_error h
  simp only [pushedAll_keeps] at hfull
  obtain ⟨htop, -, hlive⟩ := hm.pushedAll_full hrecord hfits hfull
  refine ⟨?_, by simp, by simp, by simp, htop, hlive⟩
  rw [hoverflow, htop, Int.sub_add_cancel]
  simp

/-- A failed install is undone exactly if it has pushed nothing. -/
theorem Safe.untouched_iff {why : Trap} (hm : Safe c m)
    (h : (installHandler resume).run m = .error why n) : m.Untouched n ↔ m.free = 0 := by
  have hfree := hm.free_eq
  obtain ⟨-, hpc, hbp, hhr, hsp, hlive⟩ := hm.install_fails h
  constructor
  · intro huntouched
    have := huntouched.registers.2.1
    omega
  · intro hnone
    refine ⟨⟨hpc, by omega, hbp, hhr⟩, ?_⟩
    rw [hlive, hnone, List.take_zero, List.append_nil]

/-- One or two free slots are filled by an install that fails. -/
theorem Safe.allOrNothing_iff (hm : Safe c m) :
    m.AllOrNothing resume ↔ m.free = 0 ∨ 3 ≤ m.free := by
  unfold AllOrNothing
  rw [hm.installs_iff]
  constructor
  · rintro (hroom | ⟨why, n, h, huntouched⟩)
    · exact Or.inr hroom
    · exact Or.inl ((hm.untouched_iff h).mp huntouched)
  · rintro (hnone | hroom)
    · right
      cases h : (installHandler resume).run m with
      | ok u n =>
        obtain ⟨-, hhi, -⟩ := installHandler_ok_iff.mp h
        have hfree := hm.free_eq
        omega
      | error why n => exact ⟨why, n, rfl, (hm.untouched_iff h).mpr hnone⟩
    · exact Or.inl hroom

/-- An install takes three free slots. With fewer it fails, and what fitted of its record stays on
the stack: it is all or nothing exactly if no slot was free or enough were. -/
theorem an_install_is_all_or_nothing_unless_it_stops_halfway (program : List Int32)
    (capacity maxSteps : Int) (args : List Value) (requests : List Request) (resume : Int32) :
    let m := (new program capacity maxSteps args).serveAll requests
    (m.AllOrNothing resume ↔ m.free = 0 ∨ 3 ≤ m.free) ∧
    ((∃ n, (installHandler resume).run m = .ok () n ∧ m.Installs resume n) ↔ 3 ≤ m.free) ∧
    ∀ why n, (installHandler resume).run m = .error why n →
      why = .overflow m.capacity m.capacity ∧ n.pc = m.pc ∧ n.bp = m.bp ∧ n.hr = m.hr ∧
        n.sp = m.capacity - 1 ∧ n.live = m.live ++ (recordSlots m.hr resume).take m.free := by
  intro m
  have hm : Safe (capacityFor capacity) m :=
    (invariant_safe _).serveAll requests (safe_new program capacity maxSteps args)
  refine ⟨hm.allOrNothing_iff, hm.installs_iff, ?_⟩
  intro why n h
  exact hm.install_fails h

/-- A 5 on a stack of three slots: a failed install leaves two slots of its record on top of it, and
the next instruction prints one of them. -/
theorem a_failed_install_covers_the_top :
    let m := (new [0, 5, 22, 25] 3 0 []).serveAll [.step]
    let n := m.serve (.install 7)
    ¬ m.AllOrNothing 7 ∧ (m.sp, n.sp) = (0, 2) ∧ n.hr = none ∧
      m.step.1 = .ran (Bytes.ofString "5 ") ∧ n.step.1 = .ran (Bytes.ofString "7 ") := by
  intro m n
  have hm : Safe 3 m := (invariant_safe _).serveAll [.step] (safe_new [0, 5, 22, 25] 3 0 [])
  have hfree : m.free = 2 := by decide +kernel
  refine ⟨?_, by decide +kernel, by decide +kernel, by decide +kernel, by decide +kernel⟩
  rw [hm.allOrNothing_iff, hfree]
  decide

end TagMachine.Machine
