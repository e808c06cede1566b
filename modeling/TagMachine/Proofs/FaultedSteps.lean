import TagMachine.Proofs.StackBounds

/-!
What a fault leaves. A step that ends in a fault has read words of its instruction and no more than
that, but for three instructions: LDARGS keeps what it has pushed, a conditional jump without a
target has popped its condition, and DIV has moved along the handler records.
-/

namespace TagMachine.Machine

variable {m n : Machine} {c : Nat}

/-! ## The stack as a list -/

theorem live_pushed (hroom : m.HasSlot (m.sp + 1)) (v : Value) :
    (m.pushed v).live = m.live ++ [v] := by
  obtain ⟨hlo, hhi⟩ := hroom
  obtain ⟨k, hk⟩ := Int.eq_ofNat_of_zero_le hlo
  have hlt : k < m.slots.toList.length := by
    simp only [capacity] at hhi
    simp only [Array.length_toList]
    omega
  have hset : (m.slots.toList.set k v).take (k + 1) = m.slots.toList.take k ++ [v] := by
    rw [List.take_add_one, List.take_set_of_le (Nat.le_refl k), List.getElem?_set_self hlt]
    rfl
  simp [live, pushed, withSlot, hk, hset]

theorem live_pushedAll {vs : List Value} (hfits : m.Fits vs) :
    (m.pushedAll vs).live = m.live ++ vs := by
  induction vs generalizing m with
  | nil => simp [pushedAll]
  | cons v vs ih =>
    obtain ⟨hroom, hrest⟩ := (fits_cons m v vs).mp hfits
    rw [pushedAll_cons, ih hrest, live_pushed hroom, List.append_assoc, List.singleton_append]

/-- Values of which only a part fits fill the stack up to its last slot. -/
theorem Safe.pushedAll_full {vs done rest : List Value} {v : Value} (hm : Safe c m)
    (hvs : vs = done ++ v :: rest) (hfits : m.Fits done)
    (hfull : ¬ (m.pushedAll done).HasSlot (m.sp + done.length + 1)) :
    (m.pushedAll done).sp = m.capacity - 1 ∧ (m.capacity - 1 - m.sp).toNat < vs.length ∧
      (m.pushedAll done).live = m.live ++ vs.take (m.capacity - 1 - m.sp).toNat := by
  have hlo := hm.top_ge
  have hhi := hm.top_lt
  rw [← hm.slots] at hhi
  -- what was pushed fits, and one more value does not
  have hlength : m.sp + done.length = m.capacity - 1 := by
    rw [Machine.hasSlot_iff] at hfull
    simp only [pushedAll_keeps] at hfull
    rcases hfits with rfl | ⟨-, hroom⟩
    · simp only [List.length_nil] at hfull ⊢
      omega
    · omega
  have hcount : (m.capacity - 1 - m.sp).toNat = done.length := by omega
  rw [live_pushedAll hfits, hcount, hvs, List.take_left]
  refine ⟨?_, ?_, rfl⟩
  · simp only [pushedAll_keeps]
    exact hlength
  · simp only [List.length_append, List.length_cons]
    omega

/-! ## What a trap spares -/

namespace Leaves

variable {op : Opcode}

theorem code_bp (h : Leaves m op n) : n.code = m.code ∧ n.bp = m.bp := by
  cases h <;> simp

theorem slot?_of_le (h : Leaves m op n) {i : Int} (hi : i ≤ m.sp) : n.slot? i = m.slot? i := by
  cases h with
  | arguments => exact slot?_pushedAll_of_le hi _
  | operands | condition | unhandled | corrupt => rfl

theorem pc_bounds (h : Leaves m op n) : m.pc ≤ n.pc ∧ n.pc ≤ m.pc + op.arity := by
  cases h with
  | operands hk =>
    simp only [fetched_keeps]
    omega
  | condition | unhandled | corrupt =>
    dsimp only
    omega
  | arguments =>
    simp only [pushedAll_keeps]
    omega

/-- Only LDARGS and the conditional jumps may have moved the top. -/
theorem stack_eq (h : Leaves m op n) (hargs : op ≠ .ldargs) (hbranch : ∀ b, ¬ Branches op b) :
    n.sp = m.sp ∧ n.slots = m.slots := by
  cases h with
  | condition hop => exact absurd hop (hbranch _)
  | arguments => exact absurd rfl hargs
  | operands | unhandled | corrupt => exact ⟨rfl, rfl⟩

theorem hr_eq (h : Leaves m op n) (hdiv : op ≠ .div) : n.hr = m.hr := by
  cases h with
  | unhandled | corrupt => exact absurd rfl hdiv
  | operands | condition | arguments => simp

theorem walked (h : Leaves m op n) {r : Nat} (hr : n.hr = some r) : m.Walked r := by
  cases h with
  | unhandled => cases hr
  | corrupt hs =>
    cases hr
    exact walked_of_corrupt hs
  | operands | condition | arguments => exact .newest (by simpa using hr)

end Leaves

/-! ## Faults -/

/-- The next step carries out instruction `op`. -/
def CarriesOut (m : Machine) (op : Opcode) : Prop := m.ready ∧ m.opcode? = some op

/-- The next step carries out a conditional jump, and the fault is that its target is missing. -/
def MissesTarget (m : Machine) (f : Fault) : Prop :=
  (m.CarriesOut .ifzero ∨ m.CarriesOut .ifnzro) ∧ f.cause = .outsideProgram (m.pc + 1) m.code.size

/-- How many words the instruction at `pc` takes; a word that is no instruction is taken alone. -/
def extent (m : Machine) : Nat := 1 + (m.opcode?.map Opcode.arity).getD 0

/-- What a step that ends in fault `f` leaves of machine `m`. -/
structure FaultLeaves (m : Machine) (f : Fault) (n : Machine) : Prop where
  code : n.code = m.code
  base : n.bp = m.bp
  below : ∀ i ≤ m.sp, n.slot? i = m.slot? i
  pc_ge : m.pc ≤ n.pc
  pc_le : n.pc ≤ m.pc + m.extent
  /-- LDARGS has filled the stack with the arguments, and there are more of them. -/
  arguments : m.CarriesOut .ldargs →
    n.sp = m.capacity - 1 ∧
      (m.capacity - 1 - m.sp).toNat < (m.args.flatMap argumentSlots).length ∧
      n.live = m.live ++ (m.args.flatMap argumentSlots).take (m.capacity - 1 - m.sp).toNat
  /-- A conditional jump has popped its condition when it finds that its target is missing. -/
  target : m.MissesTarget f → n.sp = m.sp - 1 ∧ n.slots = m.slots
  stack : ¬ m.CarriesOut .ldargs → ¬ m.MissesTarget f → n.sp = m.sp ∧ n.slots = m.slots
  handler : ¬ m.CarriesOut .div → n.hr = m.hr
  /-- A division has followed the links of the records. -/
  walked : m.CarriesOut .div → ∀ h, n.hr = some h → m.Walked h
  /-- A target is looked for behind a number only. -/
  missing : m.CarriesOut .ifzero ∨ m.CarriesOut .ifnzro →
    (m.MissesTarget f ↔ m.word? 1 = none ∧ ∃ v, m.slot? m.sp = some v ∧ v.isNumeric)

theorem CarriesOut.unique {op op' : Opcode} (h : m.CarriesOut op) (h' : m.CarriesOut op') :
    op' = op :=
  Option.some.inj (h'.2.symm.trans h.2)

theorem exists_branches_iff {op : Opcode} (hc : m.CarriesOut op) :
    (∃ wanted, Branches op wanted) ↔ m.CarriesOut .ifzero ∨ m.CarriesOut .ifnzro := by
  constructor
  · rintro ⟨wanted, hop⟩
    cases hop with
    | ifZero => exact Or.inl hc
    | ifNotZero => exact Or.inr hc
  · rintro (h | h)
    · obtain rfl := hc.unique h
      exact ⟨true, .ifZero⟩
    · obtain rfl := hc.unique h
      exact ⟨false, .ifNotZero⟩

/-- A fault is that of the instruction just carried out, or an earlier one that comes back. -/
theorem step_fault {f : Fault} (h : m.step = (.failed (.fault f), n)) :
    ¬ m.ready ∧ n = m ∨
      m.ready ∧ ∃ k, instruction.run m = .error f.cause k ∧ n = k.counted (.faulted f) := by
  by_cases hr : m.ready
  · rw [step_of_ready hr] at h
    cases hi : instruction.run m with
    | ok e k => cases e <;> simp [hi, settle] at h
    | error why k =>
      simp only [hi, settle, Prod.mk.injEq, StepResult.failed.injEq, RunError.fault.injEq] at h
      obtain ⟨rfl, rfl⟩ := h
      exact Or.inr ⟨hr, k, rfl, rfl⟩
  · have hstill := (step_of_not_ready hr).2
    rw [h] at hstill
    exact Or.inl ⟨hr, hstill⟩

/-- LDARGS stops with a full stack. -/
theorem arguments_of_trap {why : Trap} (hm : Safe c m)
    (h : (perform .ldargs).run m = .error why n) :
    n.sp = m.capacity - 1 ∧
      (m.capacity - 1 - m.sp).toNat < (m.args.flatMap argumentSlots).length ∧
      n.live = m.live ++ (m.args.flatMap argumentSlots).take (m.capacity - 1 - m.sp).toNat := by
  obtain ⟨done, v, rest, hargs, hfits, hfull, rfl⟩ := loadArguments_error h
  exact hm.pushedAll_full hargs hfits hfull

theorem FaultLeaves.counted {f : Fault} (h : m.FaultLeaves f n) (status : Status) :
    m.FaultLeaves f (n.counted status) :=
  ⟨h.code, h.base, h.below, h.pc_ge, h.pc_le, h.arguments, h.target, h.stack, h.handler, h.walked,
    h.missing⟩

/-- Where no instruction is carried out, at most the word at `pc` has been read. -/
theorem faultLeaves_fetched (f : Fault) (hidle : ∀ op, ¬ m.CarriesOut op) {j : Nat} (hj : j ≤ 1) :
    m.FaultLeaves f (m.fetched j) where
  code := rfl
  base := rfl
  below _ _ := rfl
  pc_ge := by
    simp only [fetched_keeps]
    omega
  pc_le := by
    simp only [fetched_keeps, extent]
    omega
  arguments h := absurd h (hidle _)
  target h := absurd h.1 (not_or.mpr ⟨hidle _, hidle _⟩)
  stack _ _ := ⟨rfl, rfl⟩
  handler _ := rfl
  walked h := absurd h (hidle _)
  missing h := absurd h (not_or.mpr ⟨hidle _, hidle _⟩)

theorem faultLeaves_self (f : Fault) (hidle : ∀ op, ¬ m.CarriesOut op) : m.FaultLeaves f m := by
  have h := faultLeaves_fetched f hidle (Nat.zero_le 1)
  rw [fetched_zero] at h
  exact h

/-- An instruction that traps leaves what a fault may leave. -/
theorem faultLeaves_of_trap {op : Opcode} {f : Fault} (hm : Safe c m) (hc : m.CarriesOut op)
    (h : (perform op).run (m.fetched 1) = .error f.cause n) : m.FaultLeaves f n := by
  have hleft := leaves_of_perform h
  obtain ⟨hge, hle⟩ := hleft.pc_bounds
  simp only [fetched_keeps] at hge hle
  have hbranch {wanted : Bool} (hop : Branches op wanted) := by
    rw [perform_branch hop] at h
    exact branch_traps (quiet_error h)
  constructor
  case code => exact hleft.code_bp.1
  case base => exact hleft.code_bp.2
  case below =>
    intro i hi
    exact hleft.slot?_of_le hi
  case pc_ge => omega
  case pc_le =>
    simp only [extent, hc.2, Option.map_some, Option.getD_some]
    omega
  case arguments =>
    intro hargs
    obtain rfl := hc.unique hargs
    have hfull := arguments_of_trap ((invariant_safe c).fetched 1 hm) h
    exact hfull
  case target =>
    intro hmiss
    obtain ⟨hjump, hcause⟩ := hmiss
    obtain ⟨wanted, hop⟩ := (exists_branches_iff hc).mpr hjump
    rcases hbranch hop with ⟨-, hother, -⟩ | ⟨-, -, -, rfl⟩
    · exact absurd hcause hother
    · exact ⟨rfl, rfl⟩
  case stack =>
    intro hargs hmiss
    by_cases hop : ∃ wanted, Branches op wanted
    · obtain ⟨wanted, hwanted⟩ := hop
      rcases hbranch hwanted with ⟨-, -, rfl⟩ | ⟨-, -, hcause, -⟩
      · exact ⟨rfl, rfl⟩
      · exact absurd ⟨(exists_branches_iff hc).mp ⟨wanted, hwanted⟩, hcause⟩ hmiss
    · refine hleft.stack_eq ?_ (not_exists.mp hop)
      rintro rfl
      exact hargs hc
  case handler =>
    intro hdiv
    refine hleft.hr_eq ?_
    rintro rfl
    exact hdiv hc
  case walked =>
    intro _ r hr
    exact (hleft.walked hr).congr rfl rfl
  case missing =>
    intro hjump
    obtain ⟨wanted, hop⟩ := (exists_branches_iff hc).mpr hjump
    rcases hbranch hop with ⟨hnot, hother, -⟩ | ⟨hv, hw, hcause, -⟩
    · constructor
      · rintro ⟨-, hcause⟩
        exact absurd hcause hother
      · rintro ⟨-, v, hv, hnumeric⟩
        exact absurd hnumeric (hnot v hv)
    · rw [word?_fetched] at hw
      exact ⟨fun _ => ⟨hw, hv⟩, fun _ => ⟨hjump, hcause⟩⟩

/-- A fault changes nothing that it should not. Whatever a host has asked for, a step that ends in a
fault writes nothing and leaves the program, the base pointer and the slots up to the top alone; it
has read no more than its instruction, and only the cases that `FaultLeaves` names move the top of
the stack or the handler register. -/
theorem a_fault_changes_nothing_but_what_it_must (program : List Int32) (capacity maxSteps : Int)
    (args : List Value) (requests : List Request) (m n : Machine) (f : Fault)
    (hm : m = (new program capacity maxSteps args).serveAll requests)
    (h : m.step = (.failed (.fault f), n)) :
    m.FaultLeaves f n ∧
      ∀ watch, (m.observedStep watch).2.1 = if m.ready then watch m else [] := by
  have hsafe := (invariant_safe _).serveAll requests (safe_new program capacity maxSteps args)
  rw [← hm] at hsafe
  constructor
  · rcases step_fault h with ⟨hr, rfl⟩ | ⟨hr, k, hi, rfl⟩
    · exact faultLeaves_self f fun _ hc => hr hc.1
    · apply FaultLeaves.counted
      rcases instruction_traps hi with ⟨hop, hk⟩ | ⟨op, hop, htrap⟩
      · have hidle : ∀ op, ¬ m.CarriesOut op := by
          rintro op ⟨-, hc⟩
          rw [hop] at hc
          cases hc
        rcases hk with rfl | rfl
        · exact faultLeaves_self f hidle
        · exact faultLeaves_fetched f hidle (Nat.le_refl 1)
      · exact faultLeaves_of_trap hsafe ⟨hr, hop⟩ htrap
  · intro watch
    rw [observedStep, h]

/-- Of four argument slots three fit, and a jump at the end of its program pops its condition. -/
theorem a_full_stack_keeps_three_argument_slots :
    let full := (new [24] 3 0 [.int 5, .array [.char 120, .char 121], .int 6]).serveAll []
    let cut := (new [0, 1, 17] 3 0 []).serveAll [.step]
    full.step.1 = .failed (.fault ⟨0, 24, .overflow 3 3⟩) ∧ full.step.2.sp = 2 ∧
      full.step.2.live = full.live ++ [.int 5, .char 120, .char 121] ∧
      cut.step.1 = .failed (.fault ⟨2, 17, .outsideProgram 3 3⟩) ∧ cut.step.2.sp = cut.sp - 1 ∧
      cut.step.2.slots = cut.slots := by
  intro full cut
  have hfull : full.step = (.failed (.fault ⟨0, 24, .overflow 3 3⟩), full.step.2) :=
    Prod.ext (by decide +kernel) rfl
  have hcut : cut.step = (.failed (.fault ⟨2, 17, .outsideProgram 3 3⟩), cut.step.2) :=
    Prod.ext (by decide +kernel) rfl
  have hloads : full.CarriesOut .ldargs := ⟨by decide +kernel, by decide +kernel⟩
  have hmisses : cut.MissesTarget ⟨2, 17, .outsideProgram 3 3⟩ :=
    ⟨Or.inl ⟨by decide +kernel, by decide +kernel⟩, by decide +kernel⟩
  obtain ⟨hleft, -⟩ := a_fault_changes_nothing_but_what_it_must _ _ _ _ _ full _ _ rfl hfull
  obtain ⟨hcutLeft, -⟩ := a_fault_changes_nothing_but_what_it_must _ _ _ _ _ cut _ _ rfl hcut
  obtain ⟨hsp, -, hlive⟩ := hleft.arguments hloads
  obtain ⟨hpopped, hslots⟩ := hcutLeft.target hmisses
  exact ⟨congrArg Prod.fst hfull, hsp, hlive, congrArg Prod.fst hcut, hpopped, hslots⟩

end TagMachine.Machine
