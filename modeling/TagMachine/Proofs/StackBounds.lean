import TagMachine.Proofs.HandlerChain
import TagMachine.Proofs.Reachable

/-!
Where the registers can point. The top of the stack and the newest handler record lie inside the
stack on every machine that a host can reach, so none of the accesses that an instruction makes
without a check of its own can miss the stack.
-/

namespace TagMachine.Machine

variable {m n : Machine} {c : Nat}

/-! ## The number of slots -/

theorem capacity_called (m : Machine) (argc target : Int) :
    (m.called argc target).capacity = m.capacity := by
  simp [called, capacity, size_moveUp]

theorem capacity_tailCalled (m : Machine) (argc pop target : Int) :
    (m.tailCalled argc pop target).capacity = m.capacity := by
  simp [tailCalled, capacity, size_moveDown]

theorem capacity_returned (m : Machine) (base : Int) (result : Value) (bp pc : Int) :
    (m.returned base result bp pc).capacity = m.capacity := by
  simp [returned, capacity]

/-- No instruction adds or drops a slot. -/
theorem Performs.capacity {op : Opcode} {e : Effect} (h : Performs m op e n) :
    n.capacity = m.capacity := by
  cases h with
  | push => simp only [pushed_keeps, fetched_keeps]
  | call =>
    rw [capacity_called]
    rfl
  | tailCall => exact capacity_tailCalled m _ _ _
  | ret => exact capacity_returned m _ _ _ _
  | arguments => simp only [pushedAll_keeps]
  | _ => simp [Machine.capacity, Machine.recovered, Machine.fetched]

theorem Leaves.capacity {op : Opcode} (h : Leaves m op n) : n.capacity = m.capacity := by
  cases h with
  | arguments => simp only [pushedAll_keeps]
  | _ => rfl

/-! ## The registers -/

/-- The top of the stack and the newest handler record lie inside a stack of `c` slots. -/
structure Safe (c : Nat) (m : Machine) : Prop where
  slots : m.capacity = c
  top_ge : -1 ≤ m.sp
  top_lt : m.sp < c
  record : ∀ h, m.hr = some h → h + 3 ≤ c

namespace Safe

theorem hasSlot_iff (hm : Safe c m) (i : Int) : m.HasSlot i ↔ 0 ≤ i ∧ i < c := by
  rw [Machine.hasSlot_iff, hm.slots]

/-- A machine with the same slots and the same handler is safe if its top is. -/
theorem of_top (hm : Safe c m) (hcap : n.capacity = m.capacity) (hhr : n.hr = m.hr)
    (hge : -1 ≤ n.sp) (hlt : n.sp < c) : Safe c n where
  slots := by rw [hcap, hm.slots]
  top_ge := hge
  top_lt := hlt
  record := by
    intro h hn
    rw [hhr] at hn
    exact hm.record h hn

/-- A handler register that moved down the stack points into it. -/
theorem of_record (hm : Safe c m) {before : Option Nat} {sp pc : Int} (hge : -1 ≤ sp) (hlt : sp < c)
    (hbefore : ∀ b, before = some b → ∃ h, m.hr = some h ∧ b ≤ h) :
    Safe c { m with sp, pc, hr := before } where
  slots := hm.slots
  top_ge := hge
  top_lt := hlt
  record := by
    intro b hb
    obtain ⟨h, hr, hle⟩ := hbefore b hb
    have := hm.record h hr
    omega

/-- A recovered division cuts the stack below a record of the chain, and the one before it becomes
the newest. -/
theorem recovered (hm : Safe c m) {h : Nat} {resume : Int} {before : Option Nat}
    (hs : m.search = .found h resume before) : Safe c (m.recovered h resume before) := by
  obtain ⟨r, hr, hle, hlink⟩ := search_found hs
  have hroom := hm.record r hr
  refine hm.of_record (by omega) (by omega) ?_
  rintro b rfl
  have := hlink.lt
  exact ⟨r, hr, by omega⟩

theorem pushedAll (hm : Safe c m) {vs : List Value} (hfits : m.Fits vs) :
    Safe c (m.pushedAll vs) := by
  have hge := hm.top_ge
  rcases hfits with rfl | ⟨hlo, hhi⟩
  · exact hm
  · rw [hm.slots] at hhi
    refine hm.of_top (by simp) (by simp) ?_ ?_ <;> simp only [pushedAll_keeps] <;> omega

theorem performs (hm : Safe c m) {op : Opcode} {e : Effect} (h : Performs m op e n) : Safe c n := by
  have hcap := h.capacity
  have hge := hm.top_ge
  have hlt := hm.top_lt
  cases h with
  | push ho hroom =>
    rw [hm.hasSlot_iff] at hroom
    refine hm.of_top hcap ?_ ?_ ?_ <;> simp only [pushed_keeps, fetched_keeps] <;> omega
  | recover hl hr hs => exact hm.recovered hs
  | binary hl hr hv | store hl hr hv =>
    -- the slot under the top was read, so the new top is in the stack
    have hslot := (hm.hasSlot_iff _).mp (hasSlot_of_slot? hl)
    refine hm.of_top hcap (by simp) ?_ ?_ <;> simp only <;> omega
  | branch hop hv hz ht =>
    have hslot := (hm.hasSlot_iff _).mp (hasSlot_of_slot? hv)
    refine hm.of_top hcap rfl ?_ ?_ <;> simp only <;> omega
  | moveTop hk hlo hhi =>
    rw [hm.slots] at hhi
    exact hm.of_top hcap rfl hlo hhi
  | call hargc htarget hn hfirst hroom =>
    rw [hm.slots] at hroom
    refine hm.of_top hcap rfl ?_ ?_ <;> simp only [called, fetched_keeps] <;> omega
  | tailCall hargc hpop htarget hn hp hfirst hsp =>
    -- the test is on the first argument after the move, and the top is no lower than below it
    refine hm.of_top hcap rfl ?_ ?_ <;> simp only [tailCalled] <;> omega
  | ret hk hresult hk0 hbase hbp hpc =>
    refine hm.of_top hcap (by simp [returned]) ?_ ?_ <;> simp only [returned] <;> omega
  | arguments hfits => exact hm.pushedAll hfits
  | not | swap | load | goto | print | stop =>
    refine hm.of_top hcap ?_ ?_ ?_ <;> simp [hge, hlt]

theorem leaves (hm : Safe c m) {op : Opcode} (h : Leaves m op n) : Safe c n := by
  have hcap := h.capacity
  have hge := hm.top_ge
  have hlt := hm.top_lt
  cases h with
  | operands => exact hm.of_top hcap rfl hge hlt
  | condition hop hv hw =>
    have hslot := (hm.hasSlot_iff _).mp (hasSlot_of_slot? hv)
    refine hm.of_top hcap rfl ?_ ?_ <;> simp only <;> omega
  | arguments hargs hfits hfull => exact hm.pushedAll hfits
  | unhandled hs =>
    refine hm.of_record hge hlt ?_
    intro b hb
    cases hb
  | corrupt hs =>
    obtain ⟨r, hr, hle⟩ := search_corrupt hs
    refine hm.of_record hge hlt ?_
    rintro b ⟨⟩
    exact ⟨r, hr, hle⟩

theorem installed (hm : Safe c m) (resume : Int32) (hroom : m.sp + 3 < c) :
    Safe c (m.installed resume) where
  slots := by
    rw [← hm.slots]
    simp only [installed_keeps]
  top_ge := by
    have := hm.top_ge
    simp only [installed_keeps]
    omega
  top_lt := by
    simp only [installed_keeps]
    omega
  record := by
    simp only [installed_keeps]
    rintro h ⟨⟩
    have := hm.top_ge
    omega

end Safe

theorem safe_new (program : List Int32) (capacity maxSteps : Int) (args : List Value) :
    Safe (capacityFor capacity) (new program capacity maxSteps args) where
  slots := by simp [new, Machine.capacity]
  top_ge := Int.le_refl _
  top_lt := by
    simp only [new]
    omega
  record := by simp [new]

/-- Nothing that a host asks of a machine moves a register out of the stack. -/
theorem invariant_safe (c : Nat) : Invariant (Safe c) where
  counted _ h := ⟨h.slots, h.top_ge, h.top_lt, h.record⟩
  fetched _ h := ⟨h.slots, h.top_ge, h.top_lt, h.record⟩
  pushed h _ hfits := h.pushedAll hfits
  performs h hrule := h.performs hrule
  leaves h hleft := h.leaves hleft
  installed resume h hlo hhi := h.installed resume (by rw [← h.slots]; exact hhi)
  load program h := by
    refine ⟨h.slots, Int.le_refl _, ?_, ?_⟩
    · simp only [load, reset]
      omega
    · simp [load, reset]

end TagMachine.Machine
