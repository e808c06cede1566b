import TagMachine.Proofs.Footprint

/-!
Two machines in step. An instruction does not notice what the slots above the top of the stack hold,
how many more slots there are, or how many steps are left. A second machine may differ from a first
one in any of these ways: each instruction comes to the same on both, and leaves them with the same
difference. Only a stack that is too small shows.
-/

namespace TagMachine

/-- The step was refused because it needs a slot that is not there. -/
def StepResult.overruns : StepResult → Bool
  | .failed (.fault f) => f.cause.trapClass == .stackBounds
  | _ => false

namespace Machine

/-- What may be different on a second machine. -/
inductive Difference where
  /-- What the slots above the top of the stack hold. -/
  | residue
  /-- How many slots there are: the second machine may have more. -/
  | room
  /-- How many steps a run may take. -/
  | limit

/-- The second machine differs from the first in one way at most. Handlers are kept out where the
slots above the top differ: a record may lie there. -/
structure Similar (d : Difference) (m n : Machine) : Prop where
  same : n = { m with slots := n.slots, limit := n.limit }
  limit : d = .limit ∨ n.limit = m.limit
  room : d = .room ∨ n.capacity = m.capacity
  capacity_le : m.capacity ≤ n.capacity
  slots : ∀ i, m.HasSlot i → (d = .residue → i ≤ m.sp) → n.slot? i = m.slot? i
  handler : d = .residue → m.hr = none

/-- What one part of an instruction comes to on two machines: the same, unless the smaller stack was
too small for it. -/
inductive Agrees (d : Difference) {α : Type} :
    EStateM.Result Trap Machine α → EStateM.Result Trap Machine α → Prop
  | ok {a : α} {m n : Machine} : Similar d m n → Agrees d (.ok a m) (.ok a n)
  | error {why : Trap} {m n : Machine} : Similar d m n → Agrees d (.error why m) (.error why n)
  | overrun {why : Trap} {m : Machine} {r : EStateM.Result Trap Machine α} : d = .room →
      why.trapClass = .stackBounds → Agrees d (.error why m) r

variable {d : Difference} {m n : Machine} {α β : Type}

/-! ## Similar machines -/

theorem slot?_eq_none {i : Int} (h : ¬ m.HasSlot i) : m.slot? i = none := by
  rw [← slot?_isSome_iff] at h
  simpa using h

theorem hasSlot_congr (h : n.capacity = m.capacity) (i : Int) : n.HasSlot i ↔ m.HasSlot i := by
  rw [hasSlot_iff, hasSlot_iff, h]

theorem atLimit_congr (hlimit : n.limit = m.limit) (hsteps : n.steps = m.steps) :
    n.atLimit = m.atLimit := by
  unfold atLimit
  rw [hlimit, hsteps]

namespace Similar

theorem exists_eq (h : Similar d m n) : ∃ slots limit, n = { m with slots, limit } :=
  ⟨_, _, h.same⟩

theorem registers (h : Similar d m n) :
    n.code = m.code ∧ n.args = m.args ∧ n.pc = m.pc ∧ n.sp = m.sp ∧ n.bp = m.bp ∧ n.hr = m.hr ∧
      n.steps = m.steps ∧ n.status = m.status := by
  rw [h.same]
  exact ⟨rfl, rfl, rfl, rfl, rfl, rfl, rfl, rfl⟩

/-- Where the limit may not differ, only the slots do. -/
theorem eq_withSlots (h : Similar d m n) (hd : d ≠ .limit) : n = { m with slots := n.slots } := by
  have hsame := h.same
  rw [h.limit.resolve_left hd] at hsame
  exact hsame

theorem args (h : Similar d m n) : n.args = m.args := h.registers.2.1

theorem sp (h : Similar d m n) : n.sp = m.sp := h.registers.2.2.2.1

theorem word? (h : Similar d m n) (k : Nat) : n.word? k = m.word? k := by
  rw [h.same]
  rfl

theorem hasSlot (h : Similar d m n) {i : Int} (hi : m.HasSlot i) : n.HasSlot i := by
  have := h.capacity_le
  obtain ⟨hlo, hhi⟩ := hi
  exact ⟨hlo, by omega⟩

/-- With equal room every slot is the same, but for those above the top where that may differ. -/
theorem slot? (h : Similar d m n) (hd : d ≠ .room) {i : Int} (htop : d = .residue → i ≤ m.sp) :
    n.slot? i = m.slot? i := by
  by_cases hslot : m.HasSlot i
  · exact h.slots i hslot htop
  · have hcap := h.room.resolve_left hd
    rw [slot?_eq_none hslot, slot?_eq_none (mt (hasSlot_congr hcap i).mp hslot)]

/-- Registers may be set alike, if no slot comes under the top that was not there before. -/
theorem set (h : Similar d m n) {pc sp bp : Int} {hr : Option Nat}
    (hlow : d = .residue → sp ≤ m.sp ∧ hr = none) :
    Similar d { m with pc, sp, bp, hr } { n with pc, sp, bp, hr } where
  same := by
    obtain ⟨slots, limit, rfl⟩ := h.exists_eq
    rfl
  limit := h.limit
  room := h.room
  capacity_le := h.capacity_le
  slots := by
    intro i hi htop
    refine h.slots i hi ?_
    intro hd
    have := htop hd
    have := (hlow hd).1
    dsimp only at *
    omega
  handler := fun hd => (hlow hd).2

theorem jumped (h : Similar d m n) (pc : Int) : Similar d { m with pc } { n with pc } := by
  obtain ⟨slots, limit, rfl⟩ := h.exists_eq
  exact h.set fun hd => ⟨Int.le_refl _, h.handler hd⟩

theorem lowered (h : Similar d m n) {sp : Int} (hlow : d = .residue → sp ≤ m.sp) :
    Similar d { m with sp } { n with sp } := by
  obtain ⟨slots, limit, rfl⟩ := h.exists_eq
  exact h.set fun hd => ⟨hlow hd, h.handler hd⟩

theorem fetched (h : Similar d m n) (k : Nat) : Similar d (m.fetched k) (n.fetched k) := by
  obtain ⟨slots, limit, rfl⟩ := h.exists_eq
  exact h.jumped (m.pc + k)

theorem counted (h : Similar d m n) (status : Status) :
    Similar d (m.counted status) (n.counted status) where
  same := by
    obtain ⟨slots, limit, rfl⟩ := h.exists_eq
    rfl
  limit := h.limit
  room := h.room
  capacity_le := h.capacity_le
  slots := h.slots
  handler := h.handler

/-- Writing the same value to the same slot keeps machines similar, wherever the slot is. -/
theorem withSlot (h : Similar d m n) (i : Int) (v : Value) :
    Similar d (m.withSlot i v) (n.withSlot i v) where
  same := by
    obtain ⟨slots, limit, rfl⟩ := h.exists_eq
    unfold Machine.withSlot
    split <;> rfl
  limit := by simpa using h.limit
  room := by simpa [Machine.capacity] using h.room
  capacity_le := by simpa [Machine.capacity] using h.capacity_le
  slots := by
    intro j hj htop
    have hslot : m.HasSlot j := by simpa [HasSlot, Machine.capacity] using hj
    by_cases hji : j = i
    · subst hji
      rw [slot?_withSlot_self hslot, slot?_withSlot_self (h.hasSlot hslot)]
    · rw [slot?_withSlot_ne hji, slot?_withSlot_ne hji]
      exact h.slots j hslot (by simpa using htop)
  handler := by simpa using h.handler

/-- One more value on both stacks. -/
theorem pushed (h : Similar d m n) (v : Value) : Similar d (m.pushed v) (n.pushed v) where
  same := by
    obtain ⟨slots, limit, rfl⟩ := h.exists_eq
    unfold Machine.pushed Machine.withSlot
    split <;> rfl
  limit := by simpa using h.limit
  room := by simpa using h.room
  capacity_le := by simpa using h.capacity_le
  slots := by
    intro i hi htop
    have hi : m.HasSlot i := by simpa [HasSlot] using hi
    simp only [pushed_keeps] at htop
    have hwritten := slot?_withSlot_self (v := v) (h.hasSlot hi)
    unfold Machine.pushed
    rw [h.sp]
    by_cases hnew : i = m.sp + 1
    · subst hnew
      exact hwritten.trans (slot?_withSlot_self hi v).symm
    · -- any other slot under the new top was under the old one
      have hold : n.slot? i = m.slot? i := h.slots i hi fun hd => by
        have := htop hd
        omega
      exact (slot?_withSlot_ne hnew v).trans (hold.trans (slot?_withSlot_ne hnew v).symm)
  handler := by simpa using h.handler

/-- The two topmost values give way to the same one. -/
theorem merged (h : Similar d m n) (v : Value) :
    Similar d { m.withSlot (m.sp - 1) v with sp := m.sp - 1 }
      { n.withSlot (n.sp - 1) v with sp := n.sp - 1 } := by
  rw [h.sp]
  refine (h.withSlot (m.sp - 1) v).lowered fun _ => ?_
  simp only [withSlot_keeps]
  omega

/-- A return puts the same registers and the same result back. -/
theorem returned (h : Similar d m n) {base : Int} (result : Value) (bp pc : Int)
    (hbase : base ≤ m.sp) :
    Similar d (m.returned base result bp pc) (n.returned base result bp pc) := by
  have hwritten := h.withSlot base result
  unfold Machine.returned
  obtain ⟨slots, limit, hn⟩ := hwritten.exists_eq
  rw [hn] at hwritten ⊢
  refine hwritten.set fun hd => ⟨?_, hwritten.handler hd⟩
  simpa using hbase

/-- A call moves the same arguments and saves the same registers on both machines. -/
theorem called (h : Similar d m n) (argc target : Int) (hn : 0 ≤ argc)
    (hfirst : 0 ≤ m.sp - argc + 1) (hroom : m.sp + 2 < m.capacity) :
    Similar d (m.called argc target) (n.called argc target) where
  same := by
    obtain ⟨slots, limit, rfl⟩ := h.exists_eq
    rfl
  limit := h.limit
  room := by
    rw [capacity_called, capacity_called]
    exact h.room
  capacity_le := by
    rw [capacity_called, capacity_called]
    exact h.capacity_le
  slots := by
    intro i hi htop
    have hcap := h.capacity_le
    have hi : m.HasSlot i := by simpa [HasSlot, capacity_called] using hi
    replace htop : d = .residue → i ≤ m.sp + 2 := htop
    rw [slot?_called target i hn hfirst hroom,
      slot?_called target i hn (by rw [h.sp]; exact hfirst) (by rw [h.sp]; omega)]
    obtain ⟨-, -, hpc, hsp, hbp, -⟩ := h.registers
    rw [hpc, hsp, hbp]
    split
    · rfl
    · split
      · rfl
      · split
        -- a moved argument was under the top, and so was what stays
        · obtain ⟨hlo, hhi⟩ := hi
          exact h.slots (i - 2) ⟨by omega, by omega⟩ fun _ => by omega
        · refine h.slots i hi fun hd => ?_
          have := htop hd
          omega
  handler := h.handler

theorem tailCalled (h : Similar d m n) (argc pop target : Int) (hn : 0 ≤ argc)
    (hp : 0 ≤ pop) (hfirst : 0 ≤ m.sp - argc + 1 - pop) (hsp : m.sp < m.capacity) :
    Similar d (m.tailCalled argc pop target) (n.tailCalled argc pop target) where
  same := by
    obtain ⟨slots, limit, rfl⟩ := h.exists_eq
    rfl
  limit := h.limit
  room := by
    rw [capacity_tailCalled, capacity_tailCalled]
    exact h.room
  capacity_le := by
    rw [capacity_tailCalled, capacity_tailCalled]
    exact h.capacity_le
  slots := by
    intro i hi htop
    have hcap := h.capacity_le
    have hi : m.HasSlot i := by simpa [HasSlot, capacity_tailCalled] using hi
    replace htop : d = .residue → i ≤ m.sp - pop := htop
    rw [slot?_tailCalled target i hn hp hfirst hsp,
      slot?_tailCalled target i hn hp (by rw [h.sp]; exact hfirst) (by rw [h.sp]; omega), h.sp]
    split
    · exact h.slots (i + pop) ⟨by omega, by omega⟩ fun _ => by omega
    · refine h.slots i hi fun hd => ?_
      have := htop hd
      omega
  handler := h.handler

end Similar

/-! ## Parts of instructions -/

theorem get_bind_run (f : Machine → Exec α) (m : Machine) :
    ((get : Exec Machine) >>= f).run m = (f m).run m := rfl

namespace Agrees

/-- What does not fit on the stack is refused on both machines, or the second has more room. -/
theorem refused (h : Similar d m n) (why : Nat → Trap) {r : EStateM.Result Trap Machine α}
    (hwhy : ∀ c, (why c).trapClass = .stackBounds)
    (hr : n.capacity = m.capacity → r = .error (why m.capacity) n) :
    Agrees d (.error (why m.capacity) m) r := by
  rcases h.room with hroom | heq
  · exact .overrun hroom (hwhy _)
  · rw [hr heq]
    exact .error h

theorem bind {x : Exec α} {f : α → Exec β} (hx : Agrees d (x.run m) (x.run n))
    (hf : ∀ a m' n', x.run m = .ok a m' → Similar d m' n' →
      Agrees d ((f a).run m') ((f a).run n')) :
    Agrees d ((x >>= f).run m) ((x >>= f).run n) := by
  rw [EStateM.run_bind, EStateM.run_bind]
  generalize x.run m = r at hx hf
  generalize x.run n = r' at hx
  cases hx with
  | ok h => exact hf _ _ _ rfl h
  | error h => exact .error h
  | overrun hd hwhy => exact .overrun hd hwhy

theorem quiet {x : Exec Unit} (hx : Agrees d (x.run m) (x.run n)) :
    Agrees d ((do x; return Effect.quiet : Exec Effect).run m)
      ((do x; return Effect.quiet : Exec Effect).run n) :=
  hx.bind fun _ _ _ _ h => .ok h

theorem fetch (h : Similar d m n) : Agrees d (fetch.run m) (fetch.run n) := by
  obtain ⟨hcode, -, hpc, -⟩ := h.registers
  rw [fetch_run, fetch_run, h.word?, hcode, hpc]
  cases m.word? 0 with
  | some w => exact .ok (h.fetched 1)
  | none => exact .error h

/-- A slot reads the same on both machines, unless it lies above the top where that matters. -/
theorem getSlot (h : Similar d m n) {i : Int} (hi : d = .residue → m.HasSlot i → i ≤ m.sp) :
    Agrees d ((getSlot i).run m) ((getSlot i).run n) := by
  rw [getSlot_run, getSlot_run]
  by_cases hslot : m.HasSlot i
  · obtain ⟨v, hv⟩ := exists_slot? hslot
    rw [h.slots i hslot fun hd => hi hd hslot, hv]
    exact .ok h
  · rw [slot?_eq_none hslot]
    refine refused h (.readOutside i) (fun _ => rfl) ?_
    intro heq
    rw [slot?_eq_none (mt (hasSlot_congr heq i).mp hslot), heq]

theorem top (h : Similar d m n) : Agrees d (top.run m) (top.run n) := by
  rw [top_run, top_run, h.sp]
  exact getSlot h fun _ _ => Int.le_refl _

theorem setSlot (h : Similar d m n) (i : Int) (v : Value) :
    Agrees d ((setSlot i v).run m) ((setSlot i v).run n) := by
  rw [setSlot_run, setSlot_run]
  by_cases hslot : m.HasSlot i
  · rw [if_pos hslot, if_pos (h.hasSlot hslot)]
    exact .ok (h.withSlot i v)
  · rw [if_neg hslot]
    refine refused h (.writeOutside i) (fun _ => rfl) ?_
    intro heq
    rw [if_neg (mt (hasSlot_congr heq _).mp hslot), heq]

theorem push (h : Similar d m n) (v : Value) : Agrees d ((push v).run m) ((push v).run n) := by
  rw [push_run, push_run, h.sp]
  by_cases hslot : m.HasSlot (m.sp + 1)
  · rw [if_pos hslot, if_pos (h.hasSlot hslot)]
    exact .ok (h.pushed v)
  · rw [if_neg hslot]
    refine refused h (.overflow (m.sp + 1)) (fun _ => rfl) ?_
    intro heq
    rw [if_neg (mt (hasSlot_congr heq _).mp hslot), heq]

theorem pushAll (h : Similar d m n) (vs : List Value) :
    Agrees d ((pushAll vs).run m) ((pushAll vs).run n) := by
  induction vs generalizing m n with
  | nil => exact .ok h
  | cons v vs ih => exact (push h v).bind fun _ _ _ _ h => ih h

end Agrees

/-- An int reads the same on both machines, unless its slot is missing on the first. -/
theorem Similar.intAt (h : Similar d m n) {i : Int} (hi : d = .residue → m.HasSlot i → i ≤ m.sp) :
    n.intAt i = m.intAt i ∨ d = .room ∧ m.intAt i = .error (.outside i m.capacity) := by
  by_cases hslot : m.HasSlot i
  · left
    unfold Machine.intAt
    obtain ⟨v, hv⟩ := exists_slot? hslot
    rw [h.slots i hslot fun hd => hi hd hslot, hv]
    cases v <;> rfl
  · have hm : m.intAt i = .error (.outside i m.capacity) := by
      unfold Machine.intAt
      rw [slot?_eq_none hslot]
    rcases h.room with hroom | heq
    · exact Or.inr ⟨hroom, hm⟩
    · left
      rw [hm]
      unfold Machine.intAt
      rw [slot?_eq_none (mt (hasSlot_congr heq i).mp hslot), heq]

theorem Agrees.getInt (h : Similar d m n) {i : Int} {context : SlotFault → Trap}
    (hi : i ≤ m.sp) (hclass : ∀ why, (context why).trapClass = why.trapClass) :
    Agrees d ((getInt i context).run m) ((getInt i context).run n) := by
  unfold Machine.getInt
  rw [get_bind_run, get_bind_run]
  rcases h.intAt fun _ _ => hi with heq | ⟨hroom, hm⟩
  · rw [heq]
    cases m.intAt i with
    | ok x => exact .ok h
    | error why => exact .error h
  · rw [hm]
    exact .overrun hroom (hclass _)

/-! ## Handlers -/

/-- The search for a handler runs off the stack. -/
def Search.Overruns (s : Search) : Prop :=
  ∃ h why, s = .corrupt h why ∧ why.trapClass = .stackBounds

namespace Similar

theorem previous (h : Similar d m n) (hd : d ≠ .residue) (r : Nat) :
    n.previous r = m.previous r ∨
      d = .room ∧ ∃ why, m.previous r = .error why ∧ why.trapClass = .stackBounds := by
  unfold Machine.previous
  rcases h.intAt (i := r + 2) fun hres => absurd hres hd with hlink | ⟨hroom, hlink⟩
  · exact Or.inl (by rw [hlink])
  · rw [hlink]
    exact Or.inr ⟨hroom, _, rfl, rfl⟩

theorem resumeAt (h : Similar d m n) (hd : d ≠ .residue) (r : Nat) :
    n.resumeAt r = m.resumeAt r ∨ d = .room ∧ (m.resumeAt r).Overruns := by
  unfold Machine.resumeAt
  rcases h.intAt (i := r + 1) fun hres => absurd hres hd with hresume | ⟨hroom, hresume⟩
  · rw [hresume]
    cases m.intAt (r + 1) with
    | error why => exact Or.inl rfl
    | ok resume =>
      rcases h.previous hd r with hlink | ⟨hroom, why, hlink, hclass⟩
      · exact Or.inl (by rw [hlink])
      · rw [hlink]
        exact Or.inr ⟨hroom, r, why, rfl, hclass⟩
  · rw [hresume]
    exact Or.inr ⟨hroom, r, _, rfl, rfl⟩

theorem searchFrom (h : Similar d m n) (hd : d ≠ .residue) (r : Nat) :
    n.searchFrom r = m.searchFrom r ∨ d = .room ∧ (m.searchFrom r).Overruns := by
  induction r using Nat.strongRecOn with
  | ind r ih =>
    unfold Machine.searchFrom
    rcases h.intAt (i := r) fun hres => absurd hres hd with htag | ⟨hroom, htag⟩
    · rw [htag]
      cases m.intAt r with
      | error why => exact Or.inl rfl
      | ok tag =>
        dsimp only
        split
        · exact h.resumeAt hd r
        · rcases h.previous hd r with hlink | ⟨hroom, why, hlink, hclass⟩
          · rw [hlink]
            cases m.previous r with
            | error why => exact Or.inl rfl
            | ok before =>
              cases before with
              | none => exact Or.inl rfl
              -- a link leads below its record, which is where the induction is
              | some b => exact ih b b.isLt
          · rw [hlink]
            exact Or.inr ⟨hroom, r, why, rfl, hclass⟩
    · rw [htag]
      exact Or.inr ⟨hroom, r, _, rfl, rfl⟩

/-- The search for a handler ends alike on both machines, unless it runs off the first stack. -/
theorem search (h : Similar d m n) :
    n.search = m.search ∨ d = .room ∧ m.search.Overruns := by
  obtain ⟨-, -, -, -, -, hhr, -⟩ := h.registers
  unfold Machine.search
  rw [hhr]
  cases hr : m.hr with
  | none => exact Or.inl rfl
  | some r =>
    refine h.searchFrom ?_ r
    intro hd
    rw [h.handler hd] at hr
    cases hr

end Similar

theorem Agrees.unwind (h : Similar d m n) : Agrees d (unwind.run m) (unwind.run n) := by
  unfold Machine.unwind
  rw [get_bind_run, get_bind_run]
  rcases h.search with heq | ⟨hroom, r, why, hs, hclass⟩
  · rw [heq]
    obtain ⟨slots, limit, rfl⟩ := h.exists_eq
    cases hs : m.search with
    | found r resume before =>
      refine .ok (h.set ?_)
      -- where the slots above the top may differ there is no handler to find
      intro hd
      obtain ⟨r', hr, -⟩ := search_found hs
      rw [h.handler hd] at hr
      cases hr
    | nothing => exact .error (h.set fun _ => ⟨Int.le_refl _, rfl⟩)
    | corrupt r why =>
      refine .error (h.set ?_)
      intro hd
      obtain ⟨r', hr, -⟩ := search_corrupt hs
      rw [h.handler hd] at hr
      cases hr
  · rw [hs]
    exact .overrun hroom hclass

/-! ## Instructions -/

namespace Agrees

theorem binary (h : Similar d m n) (op : Operator) :
    Agrees d ((binary op).run m) ((binary op).run n) := by
  unfold Machine.binary
  rw [get_bind_run, get_bind_run, h.sp]
  refine (getSlot h fun _ _ => by omega).bind ?_
  intro l m n _ h
  refine (top h).bind ?_
  intro r m n _ h
  split
  · exact .ok (h.merged _)
  · exact unwind h
  · exact .error h

theorem negate (h : Similar d m n) : Agrees d (negate.run m) (negate.run n) := by
  unfold Machine.negate
  refine (top h).bind ?_
  intro v m n _ h
  cases v.isZero? with
  | none => exact .error h
  | some zero =>
    dsimp only
    rw [get_bind_run, get_bind_run, h.sp]
    exact setSlot h m.sp _

theorem swap (h : Similar d m n) : Agrees d (swap.run m) (swap.run n) := by
  unfold Machine.swap
  rw [get_bind_run, get_bind_run, h.sp]
  refine (getSlot h fun _ _ => by omega).bind ?_
  intro a m n _ h
  refine (top h).bind ?_
  intro b m n _ h
  refine .ok ?_
  dsimp only
  rw [h.sp]
  exact (h.withSlot (m.sp - 1) b).withSlot m.sp a

/-- LDI may not look above the top where the slots there differ. -/
theorem loadIndirect (h : Similar d m n)
    (hload : d = .residue → ∀ a, m.intAt m.sp = .ok a → m.HasSlot a → a ≤ m.sp) :
    Agrees d (loadIndirect.run m) (loadIndirect.run n) := by
  unfold Machine.loadIndirect
  rw [get_bind_run, get_bind_run, h.sp]
  refine (getInt h (Int.le_refl _) fun _ => rfl).bind ?_
  intro a m' n' ha hnext
  obtain ⟨haddr, rfl⟩ := getInt_ok_iff.mp ha
  refine (getSlot hnext fun hd => hload hd a (intAt_ok_iff.mpr haddr)).bind ?_
  intro v m n _ h
  rw [get_bind_run, get_bind_run, h.sp]
  exact setSlot h m.sp v

theorem storeIndirect (h : Similar d m n) :
    Agrees d (storeIndirect.run m) (storeIndirect.run n) := by
  unfold Machine.storeIndirect
  rw [get_bind_run, get_bind_run, h.sp]
  refine (getInt h (by omega) fun _ => rfl).bind ?_
  intro a m n _ h
  refine (top h).bind ?_
  intro v m n _ h
  refine (setSlot h a v).bind ?_
  intro _ m n _ h
  exact .ok (h.merged v)

/-- INCSP may not raise the top where the slots above it differ. -/
theorem moveTop (h : Similar d m n)
    (hmove : d = .residue → ∀ k, m.word? 0 = some k → k.toInt ≤ 0) :
    Agrees d (moveTop.run m) (moveTop.run n) := by
  unfold Machine.moveTop
  refine (fetch h).bind ?_
  intro k m' n' hk h
  obtain ⟨hword, rfl⟩ := fetch_ok_iff.mp hk
  simp only [get_bind_run]
  rw [h.sp]
  have hcap := h.capacity_le
  by_cases hout : (m.fetched 1).sp + k.toInt < -1 ∨
    (m.fetched 1).capacity ≤ (m.fetched 1).sp + k.toInt
  · rw [if_pos hout]
    refine refused h (.stackMove k _) (fun _ => rfl) ?_
    intro heq
    rw [heq, if_pos hout]
    rfl
  · rw [if_neg hout, if_neg (by omega)]
    refine .ok (h.lowered ?_)
    intro hd
    have := hmove hd k hword
    omega

theorem branch (h : Similar d m n) (op : Opcode) (wanted : Bool) :
    Agrees d ((branch op wanted).run m) ((branch op wanted).run n) := by
  unfold Machine.branch
  refine (top h).bind ?_
  intro v m n _ h
  cases v.isZero? with
  | none => exact .error h
  | some zero =>
    have hpopped : Agrees d ((modify fun m => { m with sp := m.sp - 1 } : Exec Unit).run m)
        ((modify fun m => { m with sp := m.sp - 1 } : Exec Unit).run n) := by
      refine .ok ?_
      dsimp only
      rw [h.sp]
      exact h.lowered fun _ => by omega
    refine hpopped.bind ?_
    intro _ m n _ h
    refine (fetch h).bind ?_
    intro target m n _ h
    split
    · exact .ok (h.jumped _)
    · exact .ok h

theorem call (h : Similar d m n) : Agrees d (call.run m) (call.run n) := by
  unfold Machine.call
  refine (fetch h).bind ?_
  intro argc m n _ h
  refine (fetch h).bind ?_
  intro target m n _ h
  simp only [get_bind_run]
  rw [h.sp]
  have hcap := h.capacity_le
  by_cases hout : argc.toInt < 0 ∨ m.sp - argc.toInt + 1 < 0
  -- too few arguments are refused before any room is asked for
  · rw [if_pos hout, if_pos hout]
    exact .error h
  · rw [if_neg hout, if_neg hout]
    by_cases hfull : m.capacity ≤ m.sp + 2
    · rw [if_pos hfull]
      refine refused h (.callOverflow (m.sp + 2)) (fun _ => rfl) ?_
      intro heq
      rw [heq, if_pos hfull]
      rfl
    · rw [if_neg hfull, if_neg (by omega)]
      have hcalled := h.called argc.toInt target.toInt (by omega) (by omega) (by omega)
      unfold Machine.called at hcalled
      rw [h.sp] at hcalled
      exact .ok hcalled

theorem tailCall (h : Similar d m n) : Agrees d (tailCall.run m) (tailCall.run n) := by
  unfold Machine.tailCall
  refine (fetch h).bind ?_
  intro argc m n _ h
  refine (fetch h).bind ?_
  intro pop m n _ h
  refine (fetch h).bind ?_
  intro target m n _ h
  simp only [get_bind_run]
  rw [h.sp]
  have hcap := h.capacity_le
  by_cases hout : argc.toInt < 0 ∨ pop.toInt < 0 ∨ m.sp - argc.toInt + 1 - pop.toInt < 0 ∨
      m.capacity ≤ m.sp
  -- here the one test covers both, so its error may mean that there is no room
  · rw [if_pos hout]
    refine refused h (fun _ => .tailCall argc.toInt pop.toInt m.sp) (fun _ => rfl) ?_
    intro heq
    rw [heq, if_pos hout]
    rfl
  · rw [if_neg hout, if_neg (by omega)]
    have hcalled := h.tailCalled argc.toInt pop.toInt target.toInt (by omega) (by omega)
      (by omega) (by omega)
    unfold Machine.tailCalled at hcalled
    rw [h.sp] at hcalled
    exact .ok hcalled

theorem ret (h : Similar d m n) : Agrees d (ret.run m) (ret.run n) := by
  unfold Machine.ret
  refine (fetch h).bind ?_
  intro k m n _ h
  refine (top h).bind ?_
  intro result m n _ h
  simp only [get_bind_run]
  rw [h.sp]
  by_cases hout : k < 0 ∨ m.sp - k.toInt - 2 < 0
  · rw [if_pos hout]
    exact .error h
  · rw [if_neg hout]
    rw [Int32.lt_iff_toInt_lt, Int32.toInt_zero] at hout
    refine (getInt h (by omega) fun _ => rfl).bind ?_
    intro bp m' n' hbp hnext
    obtain ⟨-, rfl⟩ := getInt_ok_iff.mp hbp
    refine (getInt hnext (by omega) fun _ => rfl).bind ?_
    intro pc m' n' hpc hlast
    obtain ⟨-, rfl⟩ := getInt_ok_iff.mp hpc
    exact .ok (hlast.returned result bp pc (by omega))

theorem printValue (h : Similar d m n) : Agrees d (printValue.run m) (printValue.run n) := by
  unfold Machine.printValue
  refine (top h).bind ?_
  intro v m n _ h
  cases v with
  | int | float | char => exact .ok h
  | unset | array => exact .error h

theorem printChar (h : Similar d m n) : Agrees d (printChar.run m) (printChar.run n) := by
  unfold Machine.printChar
  refine (top h).bind ?_
  intro v m n _ h
  cases v with
  | char => exact .ok h
  | unset | int | float | array => exact .error h

/-- Every instruction comes to the same on both machines. -/
theorem perform (h : Similar d m n) (op : Opcode)
    (hmove : d = .residue → op = .incsp → ∀ k, m.word? 0 = some k → k.toInt ≤ 0)
    (hload : d = .residue → op = .ldi → ∀ a, m.intAt m.sp = .ok a → m.HasSlot a → a ≤ m.sp) :
    Agrees d ((perform op).run m) ((perform op).run n) := by
  unfold Machine.perform
  cases op <;> dsimp only
  case csti | cstf | cstc =>
    refine (fetch h).bind ?_
    intro w m n _ h
    exact (push h _).quiet
  case add | sub | mul | div | mod | eq | lt => exact (binary h _).quiet
  case not => exact (negate h).quiet
  case dup =>
    refine (top h).bind ?_
    intro v m n _ h
    exact (push h v).quiet
  case swap => exact (swap h).quiet
  case ldi => exact (loadIndirect h fun hd => hload hd rfl).quiet
  case sti => exact (storeIndirect h).quiet
  case getbp =>
    obtain ⟨-, -, -, -, hbp, -⟩ := h.registers
    rw [get_bind_run, get_bind_run, hbp]
    exact (push h _).quiet
  case getsp =>
    rw [get_bind_run, get_bind_run, h.sp]
    exact (push h _).quiet
  case incsp => exact (moveTop h fun hd => hmove hd rfl).quiet
  case goto =>
    refine (fetch h).bind ?_
    intro target m n _ h
    exact .ok (h.jumped _)
  case ifzero | ifnzro => exact (branch h _ _).quiet
  case call => exact (call h).quiet
  case tcall => exact (tailCall h).quiet
  case ret => exact (ret h).quiet
  case printi => exact (printValue h).bind fun _ _ _ _ h => .ok h
  case printc => exact (printChar h).bind fun _ _ _ _ h => .ok h
  case ldargs =>
    rw [get_bind_run, get_bind_run, h.args]
    exact (pushAll h _).quiet
  case stop => exact .ok h

end Agrees

/-! ## Steps -/

/-- The address on top of the stack, -1 where there is none. -/
def topAddress (m : Machine) : Int :=
  match m.intAt m.sp with
  | .ok a => a
  | .error _ => -1

/-- The next step looks above the top of the stack: INCSP raises the top, or LDI loads a slot that
lies above it. -/
def Peeks (m : Machine) : Prop :=
  m.ready ∧ (m.opcode? = some .incsp ∧ 0 < m.operand 0 ∨
    m.opcode? = some .ldi ∧ m.HasSlot m.topAddress ∧ m.sp < m.topAddress)

instance (m : Machine) : Decidable m.Peeks := inferInstanceAs (Decidable (_ ∧ (_ ∨ _)))

theorem Agrees.instruction (h : Similar d m n) (hready : m.ready)
    (hpeek : d = .residue → ¬ m.Peeks) :
    Agrees d (instruction.run m) (instruction.run n) := by
  unfold Machine.instruction
  refine (fetch h).bind ?_
  intro w m' n' hw hnext
  obtain ⟨hword, rfl⟩ := fetch_ok_iff.mp hw
  cases hop : Opcode.ofWord? w with
  | none => exact .error hnext
  | some op =>
    have hcode : m.opcode? = some op := by simp [opcode?, hword, hop]
    refine perform hnext op ?_ ?_
    · rintro hd rfl k hk
      refine Int.not_lt.mp fun hup => hpeek hd ⟨hready, Or.inl ⟨hcode, ?_⟩⟩
      rw [operand_eq hk]
      exact hup
    · rintro hd rfl a ha hslot
      have htop : m.topAddress = a := by
        unfold topAddress
        rw [show m.intAt m.sp = .ok a from ha]
      refine Int.not_lt.mp fun hup => hpeek hd ⟨hready, Or.inr ⟨hcode, ?_⟩⟩
      rw [htop]
      exact ⟨hslot, hup⟩

/-- What both machines come to is the same answer, and they stay similar. -/
theorem Agrees.settle {r r' : EStateM.Result Trap Machine Effect} (h : Agrees d r r') (pc : Int)
    (op : Int32) :
    (settle pc op r').1 = (settle pc op r).1 ∧ Similar d (settle pc op r).2 (settle pc op r').2 ∨
      d = .room ∧ (settle pc op r).1.overruns := by
  cases h with
  | @ok e m n h =>
    left
    cases e with
    | halt => exact ⟨rfl, h.counted .stopped⟩
    | went output =>
      have hcounted := h.counted m.status
      obtain ⟨slots, limit, rfl⟩ := h.exists_eq
      exact ⟨rfl, hcounted⟩
  | error h => exact Or.inl ⟨rfl, h.counted _⟩
  | overrun hd hclass => exact Or.inr ⟨hd, beq_iff_eq.mpr hclass⟩

theorem Similar.atLimit (h : Similar d m n) (hd : d ≠ .limit) : n.atLimit = m.atLimit := by
  obtain ⟨-, -, -, -, -, -, hsteps, -⟩ := h.registers
  exact atLimit_congr (h.limit.resolve_left hd) hsteps

/-- A step comes to the same on both machines, or it needs a slot that the first one does not
have. -/
theorem Similar.step (h : Similar d m n)
    (hlimit : d = .limit → m.status = .running → n.atLimit = m.atLimit)
    (hpeek : d = .residue → ¬ m.Peeks) :
    n.step.1 = m.step.1 ∧ Similar d m.step.2 n.step.2 ∨ d = .room ∧ m.step.1.overruns := by
  obtain ⟨hcode, -, hpc, -, -, -, -, hstatus⟩ := h.registers
  have hfull : m.status = .running → n.atLimit = m.atLimit := by
    intro hs
    by_cases hd : d = .limit
    · exact hlimit hd hs
    · exact h.atLimit hd
  by_cases hready : m.ready
  · have hready' : n.ready := by
      rw [ready_iff] at hready ⊢
      rw [hstatus, hfull hready.1]
      exact hready
    have hword : n.wordAt n.pc = m.wordAt m.pc := by
      unfold wordAt
      rw [hcode, hpc]
    rw [step_of_ready hready, step_of_ready hready', hword, hpc]
    exact (Agrees.instruction h hready hpeek).settle _ _
  · left
    unfold Machine.step
    rw [hstatus]
    cases hs : m.status with
    | faulted f => exact ⟨rfl, h⟩
    | stopped => exact ⟨rfl, h⟩
    | running =>
      have hused : m.atLimit := by simpa [ready_iff, hs] using hready
      dsimp only
      rw [hfull hs, if_pos hused, if_pos hused]
      exact ⟨rfl, h⟩

end Machine

end TagMachine
