import Mathlib.Data.List.Perm.Subperm
import TagMachine.Proofs.FaultedSteps
import TagMachine.Proofs.Footprint

/-!
The search for a handler, walked record by record. A program can write over the records, so the
links may lead anywhere; a walk follows only those that lead down, and it ends. Where it ends says
what a division by zero comes to.
-/

namespace TagMachine.Machine

variable {m n : Machine} {c : Nat} {passed : List Nat} {next : Option Nat} {h : Nat}

/-! ## Walks along the records -/

/-- A walk from the newest record has passed records of another kind, the last one first, and their
links lead to `next`. -/
inductive Passes (m : Machine) : List Nat → Option Nat → Prop
  | newest : Passes m [] m.hr
  | skip {passed : List Nat} {h : Nat} {before : Option Nat} {tag : Int} :
      Passes m passed (some h) → m.intAt h = .ok tag → tag ≠ divisionTag → m.LinksTo h before →
      Passes m (h :: passed) before

/-- A walk that has come so far goes no further. -/
def Final (m : Machine) : Option Nat → Prop
  | none => True
  | some h => ∀ tag before, m.intAt h = .ok tag → tag ≠ divisionTag → ¬ m.LinksTo h before

/-- The records lead to the one at `h`, and it takes the division. -/
structure Takes (m : Machine) (h : Nat) (resume : Int) (before : Option Nat) : Prop where
  passes : ∃ passed, m.Passes passed (some h)
  tag : m.intAt h = .ok divisionTag
  address : m.intAt (h + 1) = .ok resume
  link : m.LinksTo h before

/-- The records lead to the end of the chain. -/
def Exhausted (m : Machine) : Prop := ∃ passed, m.Passes passed none

namespace Passes

/-- A walk moves down the stack. -/
theorem descends (hp : m.Passes passed next) :
    passed.Pairwise (· < ·) ∧ ∀ h, next = some h → ∀ r ∈ passed, h < r := by
  induction hp with
  | newest => exact ⟨.nil, fun _ _ _ hr => by cases hr⟩
  | @skip passed h before tag _ _ _ hlink ih =>
    obtain ⟨hsorted, hbelow⟩ := ih
    refine ⟨List.pairwise_cons.mpr ⟨hbelow h rfl, hsorted⟩, ?_⟩
    rintro b rfl r hr
    have hlt := hlink.lt
    rcases List.mem_cons.mp hr with rfl | hr
    · exact hlt
    · have := hbelow h rfl r hr
      omega

theorem walked (hp : m.Passes passed (some h)) : m.Walked h := by
  generalize hnext : some h = next at hp
  induction hp generalizing h with
  | newest => exact .newest hnext.symm
  | skip _ htag hother hlink ih =>
    subst hnext
    exact .next (ih rfl) htag hother hlink

/-- The records that a walk has passed lie in the stack, and a walk is never longer than it. -/
theorem inside (hm : Safe c m) (hp : m.Passes passed next) :
    (∀ h ∈ passed, h + 3 ≤ c) ∧ passed.length ≤ c := by
  have hall : ∀ h ∈ passed, h + 3 ≤ c := by
    induction hp with
    | newest => simp
    | @skip passed h before tag hrest _ _ _ ih =>
      obtain ⟨r, hr, hle⟩ := hrest.walked.le_newest
      have hroom := hm.record r hr
      exact List.forall_mem_cons.mpr ⟨by omega, ih⟩
  refine ⟨hall, ?_⟩
  -- the records are different indices below the capacity
  have hnodup : passed.Nodup := hp.descends.1.imp Nat.ne_of_lt
  have hsubset : passed ⊆ List.range c := by
    intro h hh
    have := hall h hh
    exact List.mem_range.mpr (by omega)
  calc passed.length ≤ (List.range c).length := (List.subperm_of_subset hnodup hsubset).length_le
    _ = c := List.length_range

/-- What is searched for is found on the rest of the walk. -/
theorem search (hp : m.Passes passed next) : m.search = next.elim .nothing m.searchFrom := by
  induction hp with
  | newest =>
    unfold Machine.search
    cases m.hr <;> rfl
  | @skip passed h before tag _ htag hother hlink ih =>
    obtain ⟨b, hprevious, rfl⟩ := previous_of_linksTo hlink
    rw [ih, Option.elim_some, searchFrom]
    simp only [htag, if_neg hother, hprevious]
    cases b <;> rfl

/-- A walk ends: each record that it passes lies below the one before. -/
theorem exists_final (hp : m.Passes passed next) :
    ∃ passed' next', m.Passes passed' next' ∧ m.Final next' := by
  cases next with
  | none => exact ⟨passed, none, hp, trivial⟩
  | some h =>
    induction h using Nat.strongRecOn generalizing passed with
    | ind h ih =>
      by_cases hfinal : m.Final (some h)
      · exact ⟨passed, some h, hp, hfinal⟩
      · simp only [Final, not_forall, not_not] at hfinal
        obtain ⟨tag, before, htag, hother, hlink⟩ := hfinal
        have hon := hp.skip htag hother hlink
        cases before with
        | none => exact ⟨h :: passed, none, hon, trivial⟩
        | some b => exact ih b hlink.lt hon

end Passes

/-! ## Where a search ends -/

theorem search_of_takes {resume : Int} {before : Option Nat} (ht : m.Takes h resume before) :
    m.search = .found h resume before := by
  obtain ⟨passed, hp⟩ := ht.passes
  rw [hp.search]
  exact searchFrom_of_record ht.tag ht.address ht.link

theorem search_of_exhausted (he : m.Exhausted) : m.search = .nothing := by
  obtain ⟨passed, hp⟩ := he
  exact hp.search

/-- The record at `h` cannot be used: one of its slots is no int, or its link leads nowhere. -/
def Unreadable (m : Machine) (h : Nat) (why : Trap) : Prop :=
  (∃ i fault, (h ≤ i ∧ i ≤ h + 2) ∧ m.intAt i = .error fault ∧ why = .handlerRecord h fault) ∨
    ∃ p, why = .handlerLink h p

theorem unreadable_of_previous {why : Trap} (hprevious : m.previous h = .error why) :
    m.Unreadable h why := by
  rcases previous_error hprevious with ⟨fault, hlink, rfl⟩ | hastray
  · exact Or.inl ⟨h + 2, fault, by omega, hlink, rfl⟩
  · exact Or.inr hastray

/-- A record that ends a walk takes the division or is unreadable. -/
theorem Final.searchFrom (hf : m.Final (some h)) :
    (∃ resume before, m.intAt h = .ok divisionTag ∧ m.intAt (h + 1) = .ok resume ∧
      m.LinksTo h before) ∨
    ∃ why, m.Unreadable h why ∧ m.searchFrom h = .corrupt h why := by
  rw [Machine.searchFrom]
  cases htag : m.intAt h with
  | error fault => exact Or.inr ⟨_, Or.inl ⟨h, fault, by omega, htag, rfl⟩, rfl⟩
  | ok tag =>
    dsimp only
    by_cases hdiv : tag = divisionTag
    · rw [if_pos hdiv, resumeAt]
      subst hdiv
      cases haddress : m.intAt (h + 1) with
      | error fault => exact Or.inr ⟨_, Or.inl ⟨h + 1, fault, by omega, haddress, rfl⟩, rfl⟩
      | ok resume =>
        cases hprevious : m.previous h with
        | ok before => exact Or.inl ⟨resume, _, rfl, rfl, previous_ok hprevious⟩
        | error why => exact Or.inr ⟨why, unreadable_of_previous hprevious, rfl⟩
    · rw [if_neg hdiv]
      cases hprevious : m.previous h with
      | ok before => exact absurd (previous_ok hprevious) (hf tag _ htag hdiv)
      | error why => exact Or.inr ⟨why, unreadable_of_previous hprevious, rfl⟩

theorem intAt_error {i : Int} {fault : SlotFault} (h : m.intAt i = .error fault)
    (hslot : m.HasSlot i) : ∃ kind, fault = .notInt i kind := by
  obtain ⟨v, hv⟩ := exists_slot? hslot
  unfold intAt at h
  rw [hv] at h
  cases v <;> cases h <;> exact ⟨_, rfl⟩

/-- A search that ends elsewhere has read a slot that is no int, or a link that leads nowhere. -/
theorem Safe.search_of_broken (hm : Safe c m)
    (htakes : ∀ h resume before, ¬ m.Takes h resume before) (hends : ¬ m.Exhausted) :
    ∃ h why, m.search = .corrupt h why ∧
      ((∃ i kind, why = .handlerRecord h (.notInt i kind)) ∨ ∃ p, why = .handlerLink h p) := by
  obtain ⟨passed, next, hp, hf⟩ := (Passes.newest (m := m)).exists_final
  cases next with
  | none => exact absurd ⟨passed, hp⟩ hends
  | some h =>
    rw [hp.search, Option.elim_some]
    rcases hf.searchFrom with ⟨resume, before, htag, haddress, hlink⟩ | ⟨why, hwhy, hs⟩
    · exact absurd ⟨⟨passed, hp⟩, htag, haddress, hlink⟩ (htakes h resume before)
    · refine ⟨h, why, hs, ?_⟩
      rcases hwhy with ⟨i, fault, hi, herror, rfl⟩ | hastray
      · -- the slots of a record that a walk comes to are there
        obtain ⟨r, hr, hle⟩ := hp.walked.le_newest
        have hroom := hm.record r hr
        obtain ⟨kind, rfl⟩ := intAt_error herror ((hm.hasSlot_iff i).mpr ⟨by omega, by omega⟩)
        exact Or.inl ⟨i, kind, rfl⟩
      · exact Or.inr hastray

/-! ## Runs without an install -/

theorem Performs.hr_none {op : Opcode} {e : Effect} (h : Performs m op e n) (hr : m.hr = none) :
    n.hr = none := by
  cases h with
  | recover _ _ hs =>
    obtain ⟨r, hsome, -⟩ := search_found hs
    rw [hr] at hsome
    cases hsome
  | _ => simp [called, tailCalled, returned, hr]

/-- No step makes a handler. -/
theorem step_hr_none (hr : m.hr = none) : m.step.2.hr = none := by
  rcases step_leaves m with hstill | ⟨k, status, hk, hrule⟩
  · rw [hstill, hr]
  · rw [hk]
    simp only [counted_keeps]
    rcases hrule with rfl | rfl | ⟨op, e, hrule⟩ | ⟨op, hleft⟩
    · exact hr
    · exact hr
    · exact hrule.hr_none hr
    · cases hk : k.hr with
      | none => rfl
      | some r =>
        obtain ⟨h, hsome, -⟩ := (hleft.walked hk).le_newest
        cases hr.symm.trans hsome

/-- Only an install makes a handler. -/
theorem serveAll_hr_none {requests : List Request} (hnone : ∀ resume, .install resume ∉ requests)
    (hr : m.hr = none) : (m.serveAll requests).hr = none := by
  induction requests generalizing m with
  | nil => exact hr
  | cons r requests ih =>
    refine ih (fun resume h => hnone resume (List.mem_cons_of_mem _ h)) ?_
    cases r with
    | step => exact step_hr_none hr
    | run watch budget => exact run_keeps (I := fun m => m.hr = none) step_hr_none watch budget hr
    | install resume => exact absurd (List.mem_cons_self ..) (hnone resume)
    | reset => rfl
    | load program => rfl

/-! ## Divisions by zero -/

/-- A program can write over the records of its handlers, yet the search for one ends and is exact:
a walk passes records of other kinds along links that lead down the stack, no more of them than the
stack has slots. A record that takes the division cuts the stack and sets the registers, and nothing
else changes; a walk to the end of the chain ends the run with the stack as it was; any other search
is a fault of a slot that is there. Without an install there is no record to begin with. -/
theorem a_division_by_zero_goes_where_the_records_lead (program : List Int32)
    (capacity maxSteps : Int) (args : List Value) (requests : List Request) :
    let m := (new program capacity maxSteps args).serveAll requests
    let uninstalled := ∀ resume, Request.install resume ∉ requests
    (∃ passed next, m.Passes passed next ∧ m.Final next) ∧
    (∀ passed next, m.Passes passed next →
      passed.Pairwise (· < ·) ∧ (∀ h ∈ passed, h + 3 ≤ m.capacity) ∧ passed.length ≤ m.capacity) ∧
    (uninstalled → m.hr = none) ∧
    (m.ready → m.DividesByZero →
      (∀ h resume before, m.Takes h resume before →
        m.step = (.ran [],
          { m with pc := resume, sp := h - 1, hr := before, steps := m.steps + 1 })) ∧
      (m.Exhausted ∨ uninstalled → ∃ f n, m.step = (.failed (.fault f), n) ∧
        f.cause.trapClass = .unhandledDivision ∧ n.halted ∧ n.sp = m.sp ∧ n.bp = m.bp ∧
        n.slots = m.slots) ∧
      ((∀ h resume before, ¬ m.Takes h resume before) → ¬ m.Exhausted →
        ∃ f n, m.step = (.failed (.fault f), n) ∧ ¬ n.halted ∧
          ((∃ h i kind, f.cause = .handlerRecord h (.notInt i kind) ∧
              f.cause.trapClass = .typeMismatch) ∨
            ∃ h p, f.cause = .handlerLink h p ∧ f.cause.trapClass = .stackBounds))) := by
  intro m uninstalled
  have hm : Safe (capacityFor capacity) m :=
    (invariant_safe _).serveAll requests (safe_new program capacity maxSteps args)
  have huninstalled : uninstalled → m.hr = none := fun hnone => serveAll_hr_none hnone rfl
  refine ⟨(Passes.newest (m := m)).exists_final, ?_, huninstalled, ?_⟩
  · intro passed next hp
    rw [hm.slots]
    exact ⟨hp.descends.1, hp.inside hm⟩
  intro hready hzero
  have hstatus : m.status = .running := ((ready_iff m).mp hready).1
  rw [step_of_dividesByZero hready hzero]
  refine ⟨?_, ?_, ?_⟩
  · intro h resume before htakes
    rw [search_of_takes htakes]
    have hrecovered : ((m.fetched 1).recovered h resume before).status = .running := hstatus
    dsimp only
    rw [← counted_of_status hrecovered]
    rfl
  · intro hend
    have hexhausted : m.Exhausted := by
      rcases hend with h | h
      · exact h
      · refine ⟨[], ?_⟩
        rw [← huninstalled h]
        exact .newest
    rw [search_of_exhausted hexhausted]
    exact ⟨_, _, rfl, rfl, rfl, rfl, rfl, rfl⟩
  · intro htakes hend
    obtain ⟨h, why, hs, hwhy⟩ := hm.search_of_broken htakes hend
    rw [hs]
    refine ⟨_, _, rfl, ?_⟩
    rcases hwhy with ⟨i, kind, rfl⟩ | ⟨p, rfl⟩
    · exact ⟨Bool.false_ne_true, Or.inl ⟨h, i, kind, rfl, rfl⟩⟩
    · exact ⟨Bool.false_ne_true, Or.inr ⟨h, p, rfl, rfl⟩⟩

/-- Stores `value` into `slot` and divides by zero. -/
def overwriting (slot value : Int32) : List Int32 := [0, slot, 0, value, 12, 15, -1, 0, 1, 0, 0, 4]

/-- A program that turns its newer record into one of another kind: the older one takes the
division. -/
theorem a_renamed_record_is_passed :
    let requests : List Request :=
      [.install 20, .install 30, .step, .step, .step, .step, .step, .step]
    let m := (new (overwriting 3 2) 12 0 []).serveAll requests
    m.ready ∧ m.DividesByZero ∧ m.Takes 0 20 none ∧
      m.step = (.ran [], { m with pc := 20, sp := -1, hr := none, steps := m.steps + 1 }) := by
  intro requests m
  have hready : m.ready := by decide +kernel
  have hzero : m.DividesByZero := by
    refine dividesByZero_of_intAt (a := 1) ?_ ?_ ?_ <;> decide +kernel
  have htakes : m.Takes 0 20 none := by
    have hnewest : m.Passes [] (some 3) := by
      have hr : m.hr = some 3 := by decide +kernel
      rw [← hr]
      exact .newest
    have hlinked : m.LinksTo 3 (some 0) := Or.inr ⟨0, rfl, by decide, by decide +kernel⟩
    have hother : m.intAt (3 : Nat) = .ok 2 := by decide +kernel
    have hpassed : m.Passes [3] (some 0) := hnewest.skip hother (by decide) hlinked
    exact ⟨⟨[3], hpassed⟩, by decide +kernel, by decide +kernel, Or.inl ⟨rfl, by decide +kernel⟩⟩
  obtain ⟨-, -, -, hdivides⟩ :=
    a_division_by_zero_goes_where_the_records_lead (overwriting 3 2) 12 0 [] requests
  exact ⟨hready, hzero, htakes, (hdivides hready hzero).1 0 20 none htakes⟩

end TagMachine.Machine
