import Mathlib.Algebra.Ring.Int.Defs
import Mathlib.Algebra.Ring.Nat
import TagMachine.Proofs.LiveRecords

/-!
Nested handlers. Each install pushes a record on top of the ones before it and links it to them, so
a division by zero goes to the handler that was installed last, the next one to the handler before
it, and so on, as long as the program keeps off the records. The links are slots like any others, so
that is an invariant of the whole run.
-/

namespace TagMachine.Machine

/-! ## Runs that nest handlers -/

/-- A handler that was installed: the address it goes on at, and the top of the stack under its
record. -/
structure Handler where
  resume : Int32
  top : Int
  deriving DecidableEq, Repr

namespace Handler

/-- Where the record of a handler starts. -/
def record (h : Handler) : Nat := (h.top + 1).toNat

/-- The slot belongs to the record of a handler. -/
def Holds (h : Handler) (i : Int) : Prop := h.top < i ∧ i ≤ h.top + 3

end Handler

/-- The record of the first of some handlers, which is the newest. -/
def newest (handlers : List Handler) : Option Nat := handlers.head?.map Handler.record

/-- The next instruction keeps off the records of handlers: it does not pop, rearrange or overwrite
a slot of one. -/
structure KeepsOff (handlers : List Handler) (m : Machine) : Prop where
  touched : ∀ h ∈ handlers, ∀ i, h.Holds i → ¬ (m.sp - m.depth < i ∧ i ≤ m.sp)
  stored : m.opcode? = some .sti → ∀ a, m.intAt (m.sp - 1) = .ok a → ∀ h ∈ handlers, ¬ h.Holds a

/-- Runs of successful installs and steps. `Nesting start handlers k m`: on the way from `start` to
`m` the handlers were installed, the newest first in the list, and behind the last install `k`
divisions by zero were recovered. Until then none was, and what the program does beside dividing by
zero keeps off the records that no division has used up. -/
inductive Nesting (start : Machine) : List Handler → Nat → Machine → Prop
  | start : Nesting start [] 0 start
  | install {handlers : List Handler} {m n : Machine} {resume : Int32} :
      Nesting start handlers 0 m → m.moved? (.install resume) = some n →
      Nesting start (⟨resume, m.sp⟩ :: handlers) 0 n
  | step {handlers : List Handler} {k : Nat} {m n : Machine} : Nesting start handlers k m →
      m.moved? .step = some n → (m.ready → ¬ m.DividesByZero ∧ KeepsOff (handlers.drop k) m) →
      Nesting start handlers k n
  | recover {handlers : List Handler} {k : Nat} {m n : Machine} : Nesting start handlers k m →
      m.ready → m.DividesByZero → m.moved? .step = some n → Nesting start handlers (k + 1) n

variable {m n start : Machine} {handlers : List Handler} {k : Nat} {limit : Int}

/-! ## The records on the stack -/

/-- The records of handlers lie one below the other up to slot `limit`, and each one links to the
next. -/
inductive Chained (m : Machine) : (limit : Int) → List Handler → Prop
  | nil {limit : Int} : Chained m limit []
  | cons {limit : Int} {h : Handler} {handlers : List Handler} : -1 ≤ h.top → h.top + 3 ≤ limit →
      m.slot? (h.top + 1) = some (.int (Int32.ofInt divisionTag)) →
      m.slot? (h.top + 2) = some (.int h.resume) →
      m.slot? (h.top + 3) = some (linkValue (newest handlers)) → Chained m h.top handlers →
      Chained m limit (h :: handlers)

/-- Handlers that wait for a division by zero: their records are the live chain. -/
structure Waiting (handlers : List Handler) (m : Machine) : Prop where
  register : m.hr = newest handlers
  records : Chained m m.sp handlers

theorem Chained.end_le (hc : Chained m limit handlers) {h : Handler} (hh : h ∈ handlers) :
    h.top + 3 ≤ limit := by
  induction hc with
  | nil => cases hh
  | cons _ hlimit _ _ _ _ ih =>
    rcases List.mem_cons.mp hh with rfl | hh
    · exact hlimit
    · have := ih hh
      omega

theorem Chained.top_ge (hc : Chained m limit handlers) {h : Handler} (hh : h ∈ handlers) :
    -1 ≤ h.top := by
  induction hc with
  | nil => cases hh
  | cons hlow _ _ _ _ _ ih =>
    rcases List.mem_cons.mp hh with rfl | hh
    · exact hlow
    · exact ih hh

/-- Records whose slots are still the same are still chained, wherever the limit is now. -/
theorem Chained.moved {limit' : Int} (hc : Chained m limit handlers)
    (hlimit : ∀ h ∈ handlers, h.top + 3 ≤ limit')
    (hslot : ∀ h ∈ handlers, ∀ i, h.Holds i → n.slot? i = m.slot? i) :
    Chained n limit' handlers := by
  induction hc generalizing limit' with
  | nil => exact .nil
  | @cons _ h handlers hlow _ htag hresume hlink hrest ih =>
    have hhere := hslot h (List.mem_cons_self ..)
    refine .cons hlow (hlimit h (List.mem_cons_self ..)) ?_ ?_ ?_ ?_
    · rw [hhere _ ⟨by omega, by omega⟩, htag]
    · rw [hhere _ ⟨by omega, by omega⟩, hresume]
    · rw [hhere _ ⟨by omega, by omega⟩, hlink]
    · refine ih ?_ ?_
      · intro g hg
        exact hrest.end_le hg
      · intro g hg
        exact hslot g (List.mem_cons_of_mem _ hg)

/-- A stored link that fits into 32 bits leads where it says. -/
theorem linksTo_of_slot? {h : Nat} {before : Option Nat}
    (hslot : m.slot? (h + 2) = some (linkValue before))
    (hlow : ∀ b, before = some b → b < h ∧ b < 2 ^ 31) : m.LinksTo h before := by
  cases before with
  | none => exact Or.inl ⟨rfl, intAt_ok_iff.mpr ⟨_, hslot, rfl⟩⟩
  | some b =>
    obtain ⟨hlt, hfits⟩ := hlow b rfl
    refine Or.inr ⟨b, rfl, hlt, intAt_ok_iff.mpr ⟨_, hslot, ?_⟩⟩
    rw [Int32.toInt_ofNat_of_lt hfits]

/-- The newest of the waiting handlers takes the division, and the register goes back to the one
before it. -/
theorem Waiting.search {h : Handler} (hw : Waiting (h :: handlers) m)
    (hlinks : ∀ g ∈ handlers, g.top + 1 < 2 ^ 31) :
    m.search = .found h.record h.resume.toInt (newest handlers) := by
  obtain ⟨hreg, hrecords⟩ := hw
  cases hrecords with
  | cons hlow _ htag hresume hlink hrest =>
    have hrecord : (h.record : Int) = h.top + 1 := by
      unfold Handler.record
      omega
    unfold Machine.search
    rw [hreg]
    refine searchFrom_of_record ?_ ?_ ?_
    · rw [hrecord]
      exact intAt_ok_iff.mpr ⟨_, htag, rfl⟩
    · rw [show (h.record : Int) + 1 = h.top + 2 by omega]
      exact intAt_ok_iff.mpr ⟨_, hresume, rfl⟩
    · -- the record before lies below this one, and its index fits into the link
      refine linksTo_of_slot? ?_ ?_
      · rw [show (h.record : Int) + 2 = h.top + 3 by omega]
        exact hlink
      · intro b hb
        obtain ⟨g, hg, rfl⟩ := Option.map_eq_some_iff.mp hb
        have hmem := List.mem_of_head? hg
        have hend := hrest.end_le hmem
        have hge := hrest.top_ge hmem
        have hfits := hlinks g hmem
        unfold Handler.record
        omega

/-! ## One move -/

theorem waiting_installed {resume : Int32} (hw : Waiting handlers m) (hlo : 0 ≤ m.sp + 1)
    (hhi : m.sp + 3 < m.capacity) : Waiting (⟨resume, m.sp⟩ :: handlers) (m.installed resume) := by
  have hbelow : ∀ i ≤ m.sp, (m.installed resume).slot? i = m.slot? i := fun i hi =>
    slot?_pushedAll_of_le hi (recordSlots m.hr resume)
  obtain ⟨htag, hresume, hlink⟩ := slot?_installed hlo hhi
  constructor
  · simp only [installed_keeps]
    rfl
  · simp only [installed_keeps]
    have hge : -1 ≤ m.sp := by omega
    refine .cons hge (Int.le_refl _) htag hresume ?_ ?_
    · rw [hlink, hw.register]
    · refine hw.records.moved (fun h hh => hw.records.end_le hh) ?_
      intro h hh i hi
      have := hw.records.end_le hh
      obtain ⟨-, hi⟩ := hi
      exact hbelow i (by omega)

/-- An instruction that keeps off the records leaves the handlers waiting. -/
theorem Waiting.step {output : Bytes} (hw : Waiting handlers m) (h : m.step = (.ran output, n))
    (hz : ¬ m.DividesByZero) (hoff : KeepsOff handlers m) : Waiting handlers n := by
  obtain ⟨-, op, next, hop, hrule, rfl⟩ := step_ran_iff.mp h
  -- all records end below the slots that the instruction touches
  have hbelow : ∀ h ∈ handlers, h.top + 3 ≤ m.sp - m.depth := by
    intro h hh
    have hend := hw.records.end_le hh
    have := hoff.touched h hh (h.top + 3) ⟨by omega, by omega⟩
    omega
  obtain ⟨-, hhr⟩ := hrule.sp_hr hop hz
  have htop := hrule.depth_le hop hz
  constructor
  · simp only [counted_keeps]
    rw [hhr, hw.register]
  · simp only [counted_keeps]
    refine hw.records.moved ?_ ?_
    · intro h hh
      have := hbelow h hh
      omega
    · intro h hh i hi
      have hlow := hbelow h hh
      rw [slot?_counted]
      refine hrule.slot?_below hop ?_ ?_
      · obtain ⟨-, hi⟩ := hi
        omega
      · intro hsti haddr
        exact hoff.stored hsti i haddr h hh hi

theorem Waiting.stopped (hw : Waiting handlers m) (h : m.step = (.stopped, n)) :
    Waiting handlers n := by
  obtain ⟨hsp, hhr, hslots⟩ := step_stopped h
  constructor
  · rw [hhr, hw.register]
  · rw [hsp]
    refine hw.records.moved (fun h hh => hw.records.end_le hh) ?_
    intro h _ i _
    unfold slot?
    rw [hslots]

/-- A division by zero goes to the newest of the waiting handlers. -/
theorem Waiting.recover {h : Handler} (hw : Waiting (h :: handlers) m)
    (hlinks : ∀ g ∈ handlers, g.top + 1 < 2 ^ 31) (hready : m.ready) (hz : m.DividesByZero) :
    m.step = (.ran [],
      ((m.fetched 1).recovered h.record h.resume.toInt (newest handlers)).counted .running) := by
  rw [step_of_dividesByZero hready hz, hw.search hlinks]

theorem Waiting.recovered {h : Handler} {resume : Int} (hw : Waiting (h :: handlers) m) :
    Waiting handlers
      (((m.fetched 1).recovered h.record resume (newest handlers)).counted .running) := by
  constructor
  · rfl
  · cases hw.records with
    | cons hlow _ _ _ _ hrest =>
      have hsp : (h.record : Int) - 1 = h.top := by
        unfold Handler.record
        omega
      simp only [counted_keeps, Machine.recovered, hsp]
      exact hrest.moved (fun g hg => hrest.end_le hg) (fun _ _ _ _ => rfl)

/-- With no handler a division by zero ends the run. -/
theorem step_unhandled (hr : m.hr = none) (hready : m.ready) (hz : m.DividesByZero) :
    m.step = (.failed (.fault ⟨m.pc, m.wordAt m.pc, .unhandledDivision⟩),
      (m.fetched 1).counted (.faulted ⟨m.pc, m.wordAt m.pc, .unhandledDivision⟩)) := by
  have hnone : m.search = .nothing := by
    unfold search
    rw [hr]
  rw [step_of_dividesByZero hready hz, hnone]
  unfold fetched
  dsimp only
  rw [hr]

/-! ## The whole run -/

theorem mem_tail_of_mem_drop {h : Handler} (hh : h ∈ handlers.drop (k + 1)) :
    h ∈ handlers.tail := by
  rw [← List.drop_one]
  exact List.drop_subset_drop_left _ (Nat.le_add_left 1 k) hh

/-- Along a run the handlers that no division has used up wait, in the order they were installed
in. -/
theorem Nesting.waiting (h : Nesting start handlers k m) (hstart : start.hr = none)
    (hlinks : ∀ h ∈ handlers.tail, h.top + 1 < 2 ^ 31) :
    k ≤ handlers.length ∧ Waiting (handlers.drop k) m := by
  induction h with
  | start => exact ⟨Nat.le_refl _, hstart, .nil⟩
  | install _ hmove ih =>
    obtain ⟨-, hwaiting⟩ := ih fun h hh => hlinks h (List.mem_of_mem_tail hh)
    obtain ⟨hlo, hhi, rfl⟩ := moved?_install_iff.mp hmove
    exact ⟨Nat.zero_le _, waiting_installed hwaiting hlo hhi⟩
  | @step handlers k m n _ hmove hoff ih =>
    obtain ⟨hle, hwaiting⟩ := ih hlinks
    refine ⟨hle, ?_⟩
    rcases moved?_step_iff.mp hmove with hstop | ⟨output, hran⟩
    · exact hwaiting.stopped hstop
    · obtain ⟨hz, hkeeps⟩ := hoff (step_ran_iff.mp hran).1
      exact hwaiting.step hran hz hkeeps
  | @recover handlers k m n hrun hready hz hmove ih =>
    obtain ⟨hle, hwaiting⟩ := ih hlinks
    rcases Nat.lt_or_eq_of_le hle with hlt | rfl
    · rw [List.drop_eq_getElem_cons hlt] at hwaiting
      have hstep := hwaiting.recover (fun g hg => hlinks g (mem_tail_of_mem_drop hg)) hready hz
      unfold moved? at hmove
      simp only [hstep, Option.some.injEq] at hmove
      subst hmove
      exact ⟨hlt, hwaiting.recovered⟩
    · -- no handler is left, so the step would have failed
      have hnone : m.hr = none := by
        rw [hwaiting.register, List.drop_length]
        rfl
      simp [moved?, step_unhandled hnone hready hz] at hmove

/-- Let handlers be installed one after the other on a machine without one, while the program runs
and keeps off their records. Behind the last install, a division by zero goes to the newest handler
that has not taken one yet: the run goes on at its address, with the stack cut down to where it was
installed, the handler before it in charge, and all slots as they were. A division for which no
handler is left ends the run. A link takes one word, so the records that are linked to have indices
below 2^31 here. -/
theorem handlers_recover_newest_first (start m : Machine) (handlers : List Handler) (k : Nat)
    (hstart : start.hr = none) (hlinks : ∀ h ∈ handlers.tail, h.top + 1 < 2 ^ 31)
    (hrun : Nesting start handlers k m) (hready : m.ready) (hzero : m.DividesByZero) :
    k ≤ handlers.length ∧
    (∀ h, handlers[k]? = some h → ∃ n, m.step = (.ran [], n) ∧ n.pc = h.resume.toInt ∧
      n.sp = h.top ∧ n.hr = handlers[k + 1]?.map Handler.record ∧ n.slots = m.slots) ∧
    (k = handlers.length → ∃ f n, m.step = (.failed (.fault f), n) ∧
      f.cause = .unhandledDivision ∧ n.sp = m.sp ∧ n.halted ∧
        n.step = (.failed (.fault f), n)) := by
  obtain ⟨hle, hwaiting⟩ := hrun.waiting hstart hlinks
  refine ⟨hle, ?_, ?_⟩
  · intro h hh
    obtain ⟨hlt, rfl⟩ := List.getElem?_eq_some_iff.mp hh
    rw [List.drop_eq_getElem_cons hlt] at hwaiting
    have hge := hwaiting.records.top_ge (List.mem_cons_self ..)
    refine ⟨_, hwaiting.recover (fun g hg => hlinks g (mem_tail_of_mem_drop hg)) hready hzero, rfl,
      ?_, ?_, rfl⟩
    · simp only [counted_keeps, Machine.recovered, Handler.record]
      omega
    · simp only [counted_keeps, Machine.recovered, newest, List.head?_drop]
  · rintro rfl
    have hnone : m.hr = none := by
      rw [hwaiting.register, List.drop_length]
      rfl
    exact ⟨_, _, step_unhandled hnone hready hzero, rfl, by simp, rfl, rfl⟩

/-- One more step of a run, by an instruction that touches nothing under the top. -/
theorem Nesting.quiet (output : Bytes) (hrun : Nesting start handlers k m)
    (h : m.step.1 = .ran output) (hd : m.depth ≤ 0) (hsti : m.opcode? ≠ some .sti)
    (hdiv : m.opcode? ≠ some .div) : Nesting start handlers k m.step.2 := by
  refine hrun.step (moved?_step_iff.mpr (Or.inr ⟨output, by rw [← h]⟩)) ?_
  intro _
  refine ⟨fun hz => absurd hz.1 hdiv, ?_, fun hop => absurd hop hsti⟩
  intro g _ i _
  omega

/-- A program that divides by zero three times: from the start, at 8 and at 14. -/
def dividing : List Int32 := [0, 5, 0, 1, 0, 0, 4, 25, 0, 2, 0, 0, 4, 25, 0, 3, 0, 0, 4]

/-- One more handler on a run that has recovered nothing yet. -/
theorem Nesting.installed {top : Int} (resume : Int32) (hrun : Nesting start handlers 0 m)
    (htop : m.sp = top) (hlo : 0 ≤ m.sp + 1) (hhi : m.sp + 3 < m.capacity) :
    Nesting start (⟨resume, top⟩ :: handlers) 0 (m.installed resume) := by
  subst htop
  exact hrun.install (moved?_install_iff.mpr ⟨hlo, hhi, rfl⟩)

/-- Two handlers with a 5 between their records. The first division has gone to the one at 8, which
divides again: now the one at 14 takes it, on the empty stack. -/
theorem handlers_recover_the_outer_one_second :
    let start := new dividing 12 0 []
    let inner := (start.installed 14).step.2.installed 8
    let m := inner.step.2.step.2.step.2.step.2.step.2
    m.ready ∧ m.DividesByZero ∧
      ∃ n, m.step = (.ran [], n) ∧ n.pc = 14 ∧ n.sp = -1 ∧ n.hr = none ∧ n.slots = m.slots := by
  intro start inner m
  have hinner : Nesting start [⟨8, 3⟩, ⟨14, -1⟩] 0 inner := by
    refine Nesting.installed 8 ?_ (by decide +kernel) (by decide +kernel) (by decide +kernel)
    refine Nesting.quiet [] ?_ (by decide +kernel) (by decide +kernel) (by decide +kernel)
      (by decide +kernel)
    exact Nesting.start.installed 14 rfl (by decide +kernel) (by decide +kernel)
  have hfirst : Nesting start [⟨8, 3⟩, ⟨14, -1⟩] 1 inner.step.2.step.2.step.2 := by
    have hran : inner.step.2.step.2.step.1 = .ran [] := by decide +kernel
    have hdivides : inner.step.2.step.2.DividesByZero := by
      refine dividesByZero_of_intAt (a := 1) ?_ ?_ ?_ <;> decide +kernel
    refine Nesting.recover ?_ (by decide +kernel) hdivides
      (moved?_step_iff.mpr (Or.inr ⟨[], by rw [← hran]⟩))
    refine Nesting.quiet [] (Nesting.quiet [] hinner ?_ ?_ ?_ ?_) ?_ ?_ ?_ ?_ <;> decide +kernel
  have hsecond : Nesting start [⟨8, 3⟩, ⟨14, -1⟩] 1 m := by
    refine Nesting.quiet [] (Nesting.quiet [] hfirst ?_ ?_ ?_ ?_) ?_ ?_ ?_ ?_ <;> decide +kernel
  have hready : m.ready := by decide +kernel
  have hzero : m.DividesByZero := by
    refine dividesByZero_of_intAt (a := 2) ?_ ?_ ?_ <;> decide +kernel
  obtain ⟨-, htakes, -⟩ :=
    handlers_recover_newest_first start m _ 1 rfl (by decide +kernel) hsecond hready hzero
  exact ⟨hready, hzero, htakes ⟨14, -1⟩ rfl⟩

end TagMachine.Machine
