import TagMachine.Proofs.StackBounds

/-!
A machine that checks every access. Some instructions read and write slots without a look at the
index, because a test they made before covers it. Here are the same instructions with a check at
each of these accesses, where an index outside the stack is a trap. They take the same steps, so no
such access ever misses the stack.
-/

namespace TagMachine.Machine

variable {m n : Machine}

/-! ## The instructions with their checks -/

/-- Copies slot `top - k` to slot `top - k + distance`, for one `k` after the other. -/
def checkedMove (top distance : Int) : List Nat → Exec Unit
  | [] => pure ()
  | k :: ks => do
    setSlot (top - k + distance) (← getSlot (top - k))
    checkedMove top distance ks

/-- CALL with every access checked. -/
def checkedCall : Exec Unit := do
  let n := (← fetch).toInt
  let target := (← fetch).toInt
  let m ← get
  if n < 0 ∨ m.sp - n + 1 < 0 then throw (.callArguments n (m.sp + 1))
  if m.capacity ≤ m.sp + 2 then throw (.callOverflow (m.sp + 2) m.capacity)
  checkedMove m.sp 2 (List.range n.toNat)
  setSlot (m.sp - n + 1) (.int (Int32.ofInt m.pc))
  setSlot (m.sp - n + 2) (.int (Int32.ofInt m.bp))
  modify fun k => { k with sp := m.sp + 2, bp := m.sp + 3 - n, pc := target }

/-- TCALL with every access checked. -/
def checkedTailCall : Exec Unit := do
  let n := (← fetch).toInt
  let p := (← fetch).toInt
  let target := (← fetch).toInt
  let m ← get
  if n < 0 ∨ p < 0 ∨ m.sp - n + 1 - p < 0 ∨ m.capacity ≤ m.sp then throw (.tailCall n p m.sp)
  checkedMove m.sp (-p) (List.range n.toNat).reverse
  modify fun k => { k with sp := m.sp - p, pc := target }

/-- RET with every access checked. -/
def checkedRet : Exec Unit := do
  let k ← fetch
  let result ← top
  let sp := (← get).sp
  let base := sp - k.toInt - 2
  if k < 0 ∨ base < 0 then throw (.returnDepth k sp)
  let bp ← getInt (base + 1) .savedBase
  let pc ← getInt base .returnAddress
  setSlot base result
  modify fun m => { m with sp := base, bp, pc }

/-- An operator with every access checked. -/
def checkedBinary (op : Operator) : Exec Unit := do
  let lhs ← getSlot ((← get).sp - 1)
  let rhs ← top
  match op.apply lhs rhs with
  | .ok result =>
    setSlot ((← get).sp - 1) result
    modify fun m => { m with sp := m.sp - 1 }
  | .error .intDivisionByZero => unwind
  | .error why => throw (.operator why)

/-- SWAP with every access checked. -/
def checkedSwap : Exec Unit := do
  let a ← getSlot ((← get).sp - 1)
  let b ← top
  setSlot ((← get).sp - 1) b
  setSlot (← get).sp a

/-- STI with every access checked. -/
def checkedStore : Exec Unit := do
  let addr ← getInt ((← get).sp - 1) .storeAddress
  let v ← top
  setSlot addr v
  setSlot ((← get).sp - 1) v
  modify fun m => { m with sp := m.sp - 1 }

/-- Carries out an instruction with every access checked. -/
def checkedPerform (op : Opcode) : Exec Effect :=
  match op with
  | .add => do checkedBinary .add; return .quiet
  | .sub => do checkedBinary .sub; return .quiet
  | .mul => do checkedBinary .mul; return .quiet
  | .div => do checkedBinary .div; return .quiet
  | .mod => do checkedBinary .mod; return .quiet
  | .eq => do checkedBinary .eq; return .quiet
  | .lt => do checkedBinary .lt; return .quiet
  | .swap => do checkedSwap; return .quiet
  | .sti => do checkedStore; return .quiet
  | .call => do checkedCall; return .quiet
  | .tcall => do checkedTailCall; return .quiet
  | .ret => do checkedRet; return .quiet
  -- the others make no access without a check
  | op => perform op

/-- Fetches and carries out one instruction with every access checked. -/
def checkedInstruction : Exec Effect := do
  let w ← fetch
  match Opcode.ofWord? w with
  | some op => checkedPerform op
  | none => throw (.illegalOpcode w)

/-- One step with every access checked. -/
def checkedStep (m : Machine) : StepResult × Machine :=
  match m.status with
  | .faulted f => (.failed (.fault f), m)
  | .stopped => (.stopped, m)
  | .running =>
    if m.atLimit then (.failed .stepLimit, m)
    else settle m.pc (m.wordAt m.pc) (checkedInstruction.run m)

/-- The slots from the bottom up to the top, if the top is in the stack. -/
def checkedLive (m : Machine) : Option (List Value) :=
  if 0 ≤ m.sp + 1 ∧ m.sp + 1 ≤ m.capacity then some (m.slots.toList.take (m.sp + 1).toNat) else none

/-! ## No check fails -/

section Same

variable {α β : Type} {x : Exec α} {f g : α → Exec β}

/-- Two sequences that start alike come to the same if their rests do. -/
theorem bind_run_congr (h : ∀ a k, x.run m = .ok a k → (f a).run k = (g a).run k) :
    (x >>= f).run m = (x >>= g).run m := by
  rw [EStateM.run_bind, EStateM.run_bind]
  cases hx : x.run m with
  | ok a k => exact h a k hx
  | error => rfl

end Same

/-- A block of copies whose slots all exist is the block of unchecked copies. -/
theorem checkedMove_run {top distance : Int} {source target : Nat → Nat} {ks : List Nat}
    (hs : ∀ k ∈ ks, top - k = source k) (ht : ∀ k ∈ ks, top - k + distance = target k)
    (hroom : ∀ k ∈ ks, source k < m.capacity ∧ target k < m.capacity) :
    (checkedMove top distance ks).run m =
      .ok ()
        { m with slots := ks.foldl (fun a k => copySlot a (source k) (target k)) m.slots } := by
  induction ks generalizing m with
  | nil => rfl
  | cons k ks ih =>
    obtain ⟨⟨hk, hk'⟩, hks⟩ := List.forall_mem_cons.mp hroom
    -- the read and the write of this copy both find their slots
    obtain ⟨v, hv⟩ : ∃ v, m.slots[source k]? = some v := ⟨_, Array.getElem?_eq_getElem hk⟩
    have hread : m.slot? (top - k) = some v := by
      rw [hs k (List.mem_cons_self ..), ← hv]
      simp [slot?]
    have hcopy : (setSlot (top - k + distance) v).run m =
        .ok () { m with slots := copySlot m.slots (source k) (target k) } := by
      rw [ht k (List.mem_cons_self ..), setSlot_run, if_pos ⟨by omega, by omega⟩]
      simp [withSlot, copySlot, hv]
    simp only [checkedMove, EStateM.run_bind, getSlot_run, hread, hcopy]
    rw [ih (fun j hj => hs j (List.mem_cons_of_mem _ hj))
      (fun j hj => ht j (List.mem_cons_of_mem _ hj))]
    · rfl
    · intro j hj
      have := hks j hj
      simp only [capacity, size_copySlot] at this ⊢
      exact this

/-- A write to a slot that exists does not trap. -/
theorem setSlot_withSlot {i : Int} (h : m.HasSlot i) (v : Value) :
    (setSlot i v).run m = .ok () (m.withSlot i v) := by
  rw [setSlot_run, if_pos h]

theorem hasSlot_withSlot {i j : Int} {v : Value} : (m.withSlot i v).HasSlot j ↔ m.HasSlot j := by
  simp [hasSlot_iff, capacity]

/-- Once CALL has made its tests, all its accesses are in the stack. -/
theorem checkedCall_block {argc target : Int} (hn : 0 ≤ argc) (hfirst : 0 ≤ m.sp - argc + 1)
    (hroom : m.sp + 2 < m.capacity) :
    (do
      checkedMove m.sp 2 (List.range argc.toNat)
      setSlot (m.sp - argc + 1) (.int (Int32.ofInt m.pc))
      setSlot (m.sp - argc + 2) (.int (Int32.ofInt m.bp))
      modify fun k => { k with sp := m.sp + 2, bp := m.sp + 3 - argc, pc := target } :
        Exec Unit).run m = .ok () (m.called argc target) := by
  have hmove : (checkedMove m.sp 2 (List.range argc.toNat)).run m =
      .ok () { m with slots := moveUp m.slots m.sp.toNat argc.toNat } := by
    apply checkedMove_run
    all_goals
      intro k hk
      have hk := List.mem_range.mp hk
      omega
  -- no write changes the number of slots, so the test made before all of them is still good
  have hsize : ∀ {k : Machine}, k.slots.size = m.slots.size → ∀ {i : Int}, 0 ≤ i → i ≤ m.sp + 2 →
      k.HasSlot i := by
    intro k hk i hlo hhi
    unfold capacity at hroom
    exact ⟨hlo, by unfold capacity; omega⟩
  rw [EStateM.run_bind, hmove]
  dsimp only
  rw [EStateM.run_bind, setSlot_withSlot (hsize (size_moveUp _ _ _) hfirst (by omega))]
  dsimp only
  rw [EStateM.run_bind, setSlot_withSlot (hsize (by simp [size_moveUp]) (by omega) (by omega))]
  have hnext : (m.sp - argc + 2).toNat = (m.sp - argc + 1).toNat + 1 := by omega
  have hpos : 0 ≤ m.sp - argc + 2 := by omega
  simp [withSlot, called, hfirst, hpos, hnext]

theorem checkedCall_run (m : Machine) : checkedCall.run m = call.run m := by
  unfold checkedCall call
  refine bind_run_congr fun argc k _ => bind_run_congr fun target k _ => bind_run_congr ?_
  intro m k hget
  obtain ⟨rfl, rfl⟩ := get_ok_iff.mp hget
  dsimp only
  by_cases hin : argc.toInt < 0 ∨ k.sp - argc.toInt + 1 < 0
  · rw [if_pos hin, if_pos hin]
    rfl
  by_cases hroom : k.capacity ≤ k.sp + 2
  · rw [if_neg hin, if_neg hin, if_pos hroom, if_pos hroom]
    rfl
  rw [if_neg hin, if_neg hin, if_neg hroom, if_neg hroom,
    checkedCall_block (by omega) (by omega) (by omega)]
  rfl

theorem checkedTailCall_run (m : Machine) : checkedTailCall.run m = tailCall.run m := by
  unfold checkedTailCall tailCall
  refine bind_run_congr fun argc k _ => bind_run_congr fun pop k _ =>
    bind_run_congr fun target k _ => bind_run_congr ?_
  intro m k hget
  obtain ⟨rfl, rfl⟩ := get_ok_iff.mp hget
  dsimp only
  by_cases hin : argc.toInt < 0 ∨ pop.toInt < 0 ∨ k.sp - argc.toInt + 1 - pop.toInt < 0 ∨
      k.capacity ≤ k.sp
  · rw [if_pos hin, if_pos hin]
    rfl
  have hmove : (checkedMove k.sp (-pop.toInt) (List.range argc.toInt.toNat).reverse).run k =
      .ok () { k with slots := moveDown k.slots k.sp.toNat argc.toInt.toNat pop.toInt.toNat } := by
    apply checkedMove_run
    all_goals
      intro j hj
      have hj := List.mem_range.mp (List.mem_reverse.mp hj)
      omega
  rw [if_neg hin, if_neg hin, EStateM.run_bind, hmove]
  rfl

theorem checkedRet_run (m : Machine) : checkedRet.run m = ret.run m := by
  unfold checkedRet ret
  refine bind_run_congr fun k _ _ => bind_run_congr fun result _ _ => bind_run_congr ?_
  intro m n hget
  obtain ⟨rfl, rfl⟩ := get_ok_iff.mp hget
  dsimp only
  by_cases hin : k < 0 ∨ n.sp - k.toInt - 2 < 0
  · rw [if_pos hin, if_pos hin]
    rfl
  rw [if_neg hin, if_neg hin]
  refine bind_run_congr fun bp n _ => bind_run_congr ?_
  intro pc n' hpc
  -- the return address was just read, so its slot is there to write
  obtain ⟨⟨w, hw, rfl⟩, rfl⟩ := getInt_ok_iff.mp hpc
  rw [EStateM.run_bind, setSlot_withSlot (hasSlot_of_slot? hw)]
  rfl

theorem checkedBinary_run (op : Operator) (m : Machine) :
    (checkedBinary op).run m = (binary op).run m := by
  unfold checkedBinary binary
  refine bind_run_congr ?_
  intro m k hget
  obtain ⟨rfl, rfl⟩ := get_ok_iff.mp hget
  refine bind_run_congr fun l n hl => bind_run_congr ?_
  intro r n' hr
  obtain ⟨hl, rfl⟩ := getSlot_ok_iff.mp hl
  obtain ⟨-, rfl⟩ := getSlot_ok_iff.mp hr
  cases op.apply l r with
  | ok v =>
    dsimp only
    rw [EStateM.run_bind, EStateM.run_get]
    dsimp only
    rw [EStateM.run_bind, setSlot_withSlot (hasSlot_of_slot? hl)]
    simp
  | error why => cases why <;> rfl

theorem checkedSwap_run (m : Machine) : checkedSwap.run m = swap.run m := by
  unfold checkedSwap swap
  refine bind_run_congr ?_
  intro m k hget
  obtain ⟨rfl, rfl⟩ := get_ok_iff.mp hget
  refine bind_run_congr fun a n ha => bind_run_congr ?_
  intro b n' hb
  obtain ⟨ha, rfl⟩ := getSlot_ok_iff.mp ha
  obtain ⟨hb, rfl⟩ := getSlot_ok_iff.mp hb
  rw [EStateM.run_bind, EStateM.run_get]
  dsimp only
  rw [EStateM.run_bind, setSlot_withSlot (hasSlot_of_slot? ha)]
  dsimp only
  rw [EStateM.run_bind, EStateM.run_get]
  dsimp only
  simp only [withSlot_keeps]
  rw [setSlot_withSlot (hasSlot_withSlot.mpr (hasSlot_of_slot? hb))]
  rfl

theorem checkedStore_run (m : Machine) : checkedStore.run m = storeIndirect.run m := by
  unfold checkedStore storeIndirect
  refine bind_run_congr ?_
  intro m k hget
  obtain ⟨rfl, rfl⟩ := get_ok_iff.mp hget
  refine bind_run_congr fun addr n haddr => bind_run_congr fun v n' hv => bind_run_congr ?_
  intro u n'' hset
  obtain ⟨⟨w, hw, rfl⟩, rfl⟩ := getInt_ok_iff.mp haddr
  obtain ⟨-, rfl⟩ := getSlot_ok_iff.mp hv
  obtain ⟨-, rfl⟩ := setSlot_ok_iff.mp hset
  rw [EStateM.run_bind, EStateM.run_get]
  dsimp only
  simp only [withSlot_keeps]
  -- the address was read from the slot that the value goes to
  rw [EStateM.run_bind, setSlot_withSlot (hasSlot_withSlot.mpr (hasSlot_of_slot? hw))]
  simp

theorem checkedPerform_run (op : Opcode) (m : Machine) :
    (checkedPerform op).run m = (perform op).run m := by
  unfold checkedPerform perform
  cases op <;> dsimp only <;> simp only [EStateM.run_bind, checkedBinary_run, checkedSwap_run,
    checkedStore_run, checkedCall_run, checkedTailCall_run, checkedRet_run]

/-- The machine that checks every access takes the same steps. -/
theorem checkedStep_eq (m : Machine) : m.checkedStep = m.step := by
  have hinstruction : checkedInstruction.run m = instruction.run m := by
    unfold checkedInstruction instruction
    refine bind_run_congr fun w k _ => ?_
    cases Opcode.ofWord? w with
    | some op => exact checkedPerform_run op k
    | none => rfl
  unfold checkedStep step
  cases m.status with
  | faulted f => rfl
  | stopped => rfl
  | running => simp only [hinstruction]

theorem checkedLive_eq {c : Nat} (hm : Safe c m) : m.checkedLive = some m.live := by
  have hge := hm.top_ge
  have hlt := hm.top_lt
  rw [← hm.slots] at hlt
  unfold checkedLive
  rw [if_pos (by omega)]
  simp [live]

/-! ## The law -/

/-- On every machine that a host can reach, the number of slots is the one it was made with, the top
of the stack and the newest handler record lie inside the stack, and no access that goes without a
check can miss it. -/
theorem no_access_ever_misses_the_stack (program : List Int32) (capacity maxSteps : Int)
    (args : List Value) (requests : List Request) :
    let m := (new program capacity maxSteps args).serveAll requests
    m.capacity = capacityFor capacity ∧ -1 ≤ m.sp ∧ m.sp < m.capacity ∧
      (∀ h, m.hr = some h → h + 3 ≤ m.capacity) ∧ m.checkedStep = m.step ∧
      m.checkedLive = some m.live := by
  intro m
  have hm : Safe (capacityFor capacity) m :=
    (invariant_safe _).serveAll requests (safe_new program capacity maxSteps args)
  rw [hm.slots]
  exact ⟨rfl, hm.top_ge, hm.top_lt, hm.record, checkedStep_eq m, checkedLive_eq hm⟩

end TagMachine.Machine
