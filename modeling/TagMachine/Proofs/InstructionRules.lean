import TagMachine.Proofs.InstructionParts

/-!
The rules of the instructions. `Performs m op e n` says what instruction `op` does to machine `m`,
whose `pc` stands behind the opcode: when it goes through, what it writes and the machine it leaves.
The machine follows the rules exactly (`perform_ok_iff`), so every law about steps is read off them.
-/

namespace TagMachine

/-- The instruction of an operator. -/
def Operator.opcode : Operator → Opcode
  | .add => .add
  | .sub => .sub
  | .mul => .mul
  | .div => .div
  | .mod => .mod
  | .eq => .eq
  | .lt => .lt

theorem Operator.applyInt_divisionByZero_iff {op : Operator} {a b : Int32} :
    op.applyInt a b = .error .intDivisionByZero ↔ op = .div ∧ b = 0 := by
  unfold applyInt
  cases op with
  | div => by_cases hb : b = 0 <;> simp [hb]
  | mod => by_cases hb : b = 0 <;> simp [hb]
  | _ => simp

theorem Operator.applyFloat_ne_divisionByZero {op : Operator} {a b : Binary32} :
    op.applyFloat a b ≠ .error .intDivisionByZero := by
  unfold applyFloat
  cases op with
  | div => cases b.isZero <;> simp
  | _ => simp

/-- Only a division of an int by the int zero goes to the handlers. -/
theorem Operator.apply_divisionByZero_iff {op : Operator} {l r : Value} :
    op.apply l r = .error .intDivisionByZero ↔ op = .div ∧ (∃ a, l = .int a) ∧ r = .int 0 := by
  cases l <;> cases r <;>
    simp [Operator.apply, applyInt_divisionByZero_iff, applyFloat_ne_divisionByZero,
      Value.isNumeric]

theorem Value.isSome_isZero? (v : Value) : v.isZero?.isSome = v.isNumeric := by
  cases v <;> rfl

namespace Machine

variable {m n : Machine}

/-! ## The rules -/

/-- The value that an instruction pushes. -/
inductive Offers (m : Machine) : Opcode → Value → Prop
  | int {w : Int32} : m.word? 0 = some w → Offers m .csti (.int w)
  | float {w : Int32} : m.word? 0 = some w → Offers m .cstf (.float ⟨w.toUInt32⟩)
  | char {w : Int32} : m.word? 0 = some w → Offers m .cstc (charOfWord w)
  | copy {v : Value} : m.slot? m.sp = some v → Offers m .dup v
  | base : Offers m .getbp (.int (Int32.ofInt m.bp))
  | top : Offers m .getsp (.int (Int32.ofInt m.sp))

/-- What an instruction prints. -/
inductive Shows (m : Machine) : Opcode → Bytes → Prop
  | value {v : Value} : m.slot? m.sp = some v → v.isNumeric ∨ v.kind = .char →
      Shows m .printi (v.text ++ [32])
  | char {c : Int32} : m.slot? m.sp = some (.char c) → Shows m .printc (Value.char c).text

/-- The instruction jumps if the number on top being zero is `wanted`. -/
inductive Branches : Opcode → Bool → Prop
  | ifZero : Branches .ifzero true
  | ifNotZero : Branches .ifnzro false

/-- The machine after CALL with `argc` arguments. -/
def called (m : Machine) (argc target : Int) : Machine :=
  { m with
    slots :=
      ((moveUp m.slots m.sp.toNat argc.toNat).setIfInBounds (m.sp - argc + 1).toNat
        (.int (Int32.ofInt m.pc))).setIfInBounds ((m.sp - argc + 1).toNat + 1)
        (.int (Int32.ofInt m.bp))
    sp := m.sp + 2
    bp := m.sp + 3 - argc
    pc := target }

/-- The machine after TCALL with `argc` arguments over `pop` dead slots. -/
def tailCalled (m : Machine) (argc pop target : Int) : Machine :=
  { m with
    slots := moveDown m.slots m.sp.toNat argc.toNat pop.toNat
    sp := m.sp - pop
    pc := target }

/-- The machine after a return to the frame header at `base`. -/
def returned (m : Machine) (base : Int) (result : Value) (bp pc : Int) : Machine :=
  { m.withSlot base result with sp := base, bp, pc }

theorem returned_fetched (m : Machine) (k : Nat) (base : Int) (result : Value) (bp pc : Int) :
    (m.fetched k).returned base result bp pc = m.returned base result bp pc := by
  unfold returned withSlot
  split <;> rfl

/-- The machine after a division that the record at `h` took. -/
def recovered (m : Machine) (h : Nat) (resume : Int) (before : Option Nat) : Machine :=
  { m with sp := h - 1, pc := resume, hr := before }

/-- What an instruction that goes through does. -/
inductive Performs (m : Machine) : Opcode → Effect → Machine → Prop
  | push {op : Opcode} {v : Value} : m.Offers op v → m.HasSlot (m.sp + 1) →
      Performs m op .quiet ((m.fetched op.arity).pushed v)
  | binary {op : Operator} {l r v : Value} : m.slot? (m.sp - 1) = some l → m.slot? m.sp = some r →
      op.apply l r = .ok v →
      Performs m op.opcode .quiet { m.withSlot (m.sp - 1) v with sp := m.sp - 1 }
  | recover {a : Int32} {h : Nat} {resume : Int} {before : Option Nat} :
      m.slot? (m.sp - 1) = some (.int a) → m.slot? m.sp = some (.int 0) →
      m.search = .found h resume before → Performs m .div .quiet (m.recovered h resume before)
  | not {v : Value} {zero : Bool} : m.slot? m.sp = some v → v.isZero? = some zero →
      Performs m .not .quiet (m.withSlot m.sp (.ofBool zero))
  | swap {a b : Value} : m.slot? (m.sp - 1) = some a → m.slot? m.sp = some b →
      Performs m .swap .quiet ((m.withSlot (m.sp - 1) b).withSlot m.sp a)
  | load {addr : Int32} {v : Value} : m.slot? m.sp = some (.int addr) →
      m.slot? addr.toInt = some v → Performs m .ldi .quiet (m.withSlot m.sp v)
  | store {addr : Int32} {v : Value} : m.slot? (m.sp - 1) = some (.int addr) →
      m.slot? m.sp = some v → m.HasSlot addr.toInt →
      Performs m .sti .quiet
        { (m.withSlot addr.toInt v).withSlot (m.sp - 1) v with sp := m.sp - 1 }
  | moveTop {k : Int32} : m.word? 0 = some k → -1 ≤ m.sp + k.toInt →
      m.sp + k.toInt < m.capacity →
      Performs m .incsp .quiet { m.fetched 1 with sp := m.sp + k.toInt }
  | goto {target : Int32} : m.word? 0 = some target →
      Performs m .goto .quiet { m with pc := target.toInt }
  | branch {op : Opcode} {wanted zero : Bool} {v : Value} {target : Int32} : Branches op wanted →
      m.slot? m.sp = some v → v.isZero? = some zero → m.word? 0 = some target →
      Performs m op .quiet
        { m with sp := m.sp - 1, pc := if zero = wanted then target.toInt else m.pc + 1 }
  | call {argc target : Int32} : m.word? 0 = some argc → m.word? 1 = some target →
      0 ≤ argc.toInt → 0 ≤ m.sp - argc.toInt + 1 → m.sp + 2 < m.capacity →
      Performs m .call .quiet ((m.fetched 2).called argc.toInt target.toInt)
  | tailCall {argc pop target : Int32} : m.word? 0 = some argc → m.word? 1 = some pop →
      m.word? 2 = some target → 0 ≤ argc.toInt → 0 ≤ pop.toInt →
      0 ≤ m.sp - argc.toInt + 1 - pop.toInt → m.sp < m.capacity →
      Performs m .tcall .quiet (m.tailCalled argc.toInt pop.toInt target.toInt)
  | ret {k bp pc : Int32} {result : Value} : m.word? 0 = some k → m.slot? m.sp = some result →
      0 ≤ k.toInt → 0 ≤ m.sp - k.toInt - 2 → m.slot? (m.sp - k.toInt - 1) = some (.int bp) →
      m.slot? (m.sp - k.toInt - 2) = some (.int pc) →
      Performs m .ret .quiet (m.returned (m.sp - k.toInt - 2) result bp.toInt pc.toInt)
  | print {op : Opcode} {output : Bytes} : m.Shows op output → Performs m op (.went output) m
  | arguments : m.Fits (m.args.flatMap argumentSlots) →
      Performs m .ldargs .quiet (m.pushedAll (m.args.flatMap argumentSlots))
  | stop : Performs m .stop .halt m

theorem Performs.pushed {op : Opcode} {v : Value} (h : m.Offers op v) (hop : op.arity = 0)
    (hroom : m.HasSlot (m.sp + 1)) : Performs m op .quiet (m.pushed v) := by
  have hrule := Performs.push h hroom
  rw [hop, fetched_zero] at hrule
  exact hrule

/-! ## Each part follows its rule -/

theorem unwind_ok_iff {u : Unit} :
    unwind.run m = .ok u n ↔
      ∃ h resume before, m.search = .found h resume before ∧ n = m.recovered h resume before := by
  unfold unwind
  simp only [EStateM.run_bind, EStateM.run_get]
  cases m.search with
  | found h resume before => simp [recovered, eq_comm, and_assoc]
  | nothing => simp [EStateM.run_bind]
  | corrupt h why => simp [EStateM.run_bind]

theorem binary_ok {op : Operator} {u : Unit} (h : (binary op).run m = .ok u n) :
    Performs m op.opcode .quiet n := by
  simp only [binary, bind_ok_iff, get_ok_iff, getSlot_ok_iff, top_run, and_assoc, exists_and_left,
    exists_eq_left] at h
  obtain ⟨l, hl, r, hr, h⟩ := h
  split at h
  · next v hv =>
    rw [modify_ok_iff] at h
    subst h
    exact .binary hl hr hv
  · next hz =>
    -- of all operators and values, only a division of an int by the int zero comes here
    obtain ⟨rfl, ⟨a, rfl⟩, rfl⟩ := Operator.apply_divisionByZero_iff.mp hz
    obtain ⟨h, resume, before, hs, rfl⟩ := unwind_ok_iff.mp h
    exact .recover hl hr hs
  · simp at h

theorem negate_ok {u : Unit} (h : negate.run m = .ok u n) : Performs m .not .quiet n := by
  simp only [negate, bind_ok_iff, getSlot_ok_iff, top_run, and_assoc, exists_and_left,
    exists_eq_left] at h
  obtain ⟨v, hv, h⟩ := h
  split at h
  · next zero hz =>
    simp only [bind_ok_iff, get_ok_iff, setSlot_ok_iff, and_assoc, exists_and_left,
      exists_eq_left] at h
    obtain ⟨-, rfl⟩ := h
    exact .not hv hz
  · simp at h

theorem swap_ok {u : Unit} (h : swap.run m = .ok u n) : Performs m .swap .quiet n := by
  simp only [swap, bind_ok_iff, get_ok_iff, getSlot_ok_iff, top_run, modify_ok_iff, and_assoc,
    exists_and_left, exists_eq_left] at h
  obtain ⟨a, ha, b, hb, rfl⟩ := h
  exact .swap ha hb

theorem loadIndirect_ok {u : Unit} (h : loadIndirect.run m = .ok u n) :
    Performs m .ldi .quiet n := by
  simp only [loadIndirect, bind_ok_iff, get_ok_iff, getInt_ok_iff, getSlot_ok_iff, setSlot_ok_iff,
    and_assoc, exists_and_left, exists_eq_left] at h
  obtain ⟨-, ⟨addr, haddr, rfl⟩, v, hv, -, rfl⟩ := h
  exact .load haddr hv

theorem storeIndirect_ok {u : Unit} (h : storeIndirect.run m = .ok u n) :
    Performs m .sti .quiet n := by
  simp only [storeIndirect, bind_ok_iff, get_ok_iff, getInt_ok_iff, getSlot_ok_iff, top_run,
    setSlot_ok_iff, modify_ok_iff, and_assoc, exists_and_left, exists_eq_left, withSlot_keeps] at h
  obtain ⟨-, ⟨addr, haddr, rfl⟩, v, hv, hslot, -, rfl⟩ := h
  simpa only [withSlot_keeps] using Performs.store haddr hv hslot

theorem moveTop_ok {u : Unit} (h : moveTop.run m = .ok u n) : Performs m .incsp .quiet n := by
  simp only [moveTop, bind_ok_iff, get_ok_iff, fetch_ok_iff, and_assoc, exists_and_left,
    exists_eq_left] at h
  obtain ⟨k, hk, h⟩ := h
  split at h
  · simp at h
  · next hin =>
    rw [set_ok_iff] at h
    subst h
    simp only [fetched_keeps] at hin
    exact .moveTop hk (by omega) (by omega)

theorem branch_ok {op : Opcode} {wanted : Bool} {u : Unit} (hop : Branches op wanted)
    (h : (branch op wanted).run m = .ok u n) : Performs m op .quiet n := by
  simp only [branch, bind_ok_iff, getSlot_ok_iff, top_run, and_assoc, exists_and_left,
    exists_eq_left] at h
  obtain ⟨v, hv, h⟩ := h
  split at h
  · simp at h
  · next zero hz =>
    simp only [bind_ok_iff, modify_ok_iff, fetch_ok_iff, and_assoc, exists_and_left,
      exists_eq_left] at h
    obtain ⟨-, target, ht, h⟩ := h
    have hrule := Performs.branch hop hv hz ht
    split at h
    · next hw =>
      rw [modify_ok_iff] at h
      subst h
      rw [if_pos hw] at hrule
      exact hrule
    · next hw =>
      rw [pure_ok_iff] at h
      obtain ⟨-, rfl⟩ := h
      rw [if_neg hw] at hrule
      exact hrule

theorem call_ok {u : Unit} (h : call.run m = .ok u n) : Performs m .call .quiet n := by
  simp only [call, bind_ok_iff, get_ok_iff, fetch_ok_iff, word?_fetched, fetched_fetched, and_assoc,
    exists_and_left, exists_eq_left] at h
  obtain ⟨argc, hargc, target, htarget, h⟩ := h
  split at h
  · simp at h
  · next hin =>
    split at h
    · simp at h
    · next hroom =>
      rw [set_ok_iff] at h
      subst h
      simp only [fetched_keeps] at hin hroom
      exact .call hargc htarget (by omega) (by omega) (by omega)

theorem tailCall_ok {u : Unit} (h : tailCall.run m = .ok u n) : Performs m .tcall .quiet n := by
  simp only [tailCall, bind_ok_iff, get_ok_iff, fetch_ok_iff, word?_fetched, fetched_fetched,
    and_assoc, exists_and_left, exists_eq_left] at h
  obtain ⟨argc, hargc, pop, hpop, target, htarget, h⟩ := h
  split at h
  · simp at h
  · next hin =>
    rw [set_ok_iff] at h
    subst h
    simp only [fetched_keeps] at hin
    exact .tailCall hargc hpop htarget (by omega) (by omega) (by omega) (by omega)

theorem ret_ok {u : Unit} (h : ret.run m = .ok u n) : Performs m .ret .quiet n := by
  simp only [ret, bind_ok_iff, get_ok_iff, fetch_ok_iff, getSlot_ok_iff, top_run, slot?_fetched,
    fetched_keeps, and_assoc, exists_and_left, exists_eq_left] at h
  obtain ⟨k, hk, result, hresult, h⟩ := h
  split at h
  · simp at h
  · next hin =>
    simp only [bind_ok_iff, getInt_ok_iff, modify_ok_iff, slot?_fetched, and_assoc, exists_and_left,
      exists_eq_left] at h
    obtain ⟨-, ⟨bp, hbp, rfl⟩, -, ⟨pc, hpc, rfl⟩, rfl⟩ := h
    rw [Int32.lt_iff_toInt_lt, Int32.toInt_zero] at hin
    have hbase : m.sp - k.toInt - 2 + 1 = m.sp - k.toInt - 1 := by omega
    rw [hbase] at hbp
    have hrule := Performs.ret hk hresult (by omega) (by omega) hbp hpc
    rw [← returned_fetched m 1] at hrule
    exact hrule

theorem printValue_ok {b : Bytes} (h : printValue.run m = .ok b n) : m.Shows .printi b ∧ n = m := by
  simp only [printValue, bind_ok_iff, getSlot_ok_iff, top_run, and_assoc, exists_and_left,
    exists_eq_left] at h
  obtain ⟨v, hv, h⟩ := h
  split at h
  case h_4 => simp [run_throw] at h
  all_goals
    obtain ⟨rfl, rfl⟩ := pure_ok_iff.mp h
    exact ⟨.value hv (by simp [Value.isNumeric, Value.kind]), rfl⟩

theorem printChar_ok {b : Bytes} (h : printChar.run m = .ok b n) : m.Shows .printc b ∧ n = m := by
  simp only [printChar, bind_ok_iff, getSlot_ok_iff, top_run, and_assoc, exists_and_left,
    exists_eq_left] at h
  obtain ⟨v, hv, h⟩ := h
  split at h
  · obtain ⟨rfl, rfl⟩ := pure_ok_iff.mp h
    exact ⟨.char hv, rfl⟩
  · simp [run_throw] at h

theorem quiet_ok_iff {x : Exec Unit} {e : Effect} :
    (do x; return Effect.quiet : Exec Effect).run m = .ok e n ↔
      e = .quiet ∧ x.run m = .ok () n := by
  simp only [bind_ok_iff, pure_ok_iff]
  constructor
  · rintro ⟨u, k, h, rfl, rfl⟩
    exact ⟨rfl, h⟩
  · rintro ⟨rfl, h⟩
    exact ⟨(), n, h, rfl, rfl⟩

/-- An instruction that goes through does what its rule says. -/
theorem performs_of_perform {op : Opcode} {e : Effect} (h : (perform op).run m = .ok e n) :
    Performs m op e n := by
  unfold perform at h
  cases op <;> dsimp only at h
  case csti | cstf | cstc =>
    simp only [bind_ok_iff, fetch_ok_iff, push_ok_iff, pure_ok_iff, fetched_keeps, exists_and_left,
      exists_eq_left, and_assoc] at h
    obtain ⟨w, hw, hroom, rfl, -, rfl⟩ := h
    constructor
    · constructor
      exact hw
    · exact hroom
  case dup =>
    simp only [bind_ok_iff, getSlot_ok_iff, top_run, push_ok_iff, pure_ok_iff, exists_and_left,
      exists_eq_left, and_assoc] at h
    obtain ⟨v, hv, hroom, rfl, -, rfl⟩ := h
    exact .pushed (.copy hv) rfl hroom
  case getbp =>
    simp only [bind_ok_iff, get_ok_iff, push_ok_iff, pure_ok_iff, exists_and_left, exists_eq_left,
      and_assoc] at h
    obtain ⟨hroom, rfl, -, rfl⟩ := h
    exact .pushed .base rfl hroom
  case getsp =>
    simp only [bind_ok_iff, get_ok_iff, push_ok_iff, pure_ok_iff, exists_and_left, exists_eq_left,
      and_assoc] at h
    obtain ⟨hroom, rfl, -, rfl⟩ := h
    exact .pushed .top rfl hroom
  case goto =>
    simp only [bind_ok_iff, fetch_ok_iff, modify_ok_iff, pure_ok_iff, exists_and_left,
      exists_eq_left, and_assoc] at h
    obtain ⟨target, ht, rfl, -, rfl⟩ := h
    exact .goto ht
  case ldargs =>
    simp only [bind_ok_iff, get_ok_iff, pushAll_ok_iff, pure_ok_iff, exists_and_left,
      exists_eq_left, and_assoc] at h
    obtain ⟨hroom, rfl, -, rfl⟩ := h
    exact .arguments hroom
  case printi =>
    simp only [bind_ok_iff, pure_ok_iff] at h
    obtain ⟨b, k, hb, rfl, rfl⟩ := h
    obtain ⟨hb, rfl⟩ := printValue_ok hb
    exact .print hb
  case printc =>
    simp only [bind_ok_iff, pure_ok_iff] at h
    obtain ⟨b, k, hb, rfl, rfl⟩ := h
    obtain ⟨hb, rfl⟩ := printChar_ok hb
    exact .print hb
  case stop =>
    obtain ⟨rfl, rfl⟩ := pure_ok_iff.mp h
    exact .stop
  -- the others do nothing beside their part
  all_goals obtain ⟨rfl, hpart⟩ := quiet_ok_iff.mp h
  case add | sub | mul | div | mod | eq | lt => exact binary_ok hpart
  case not => exact negate_ok hpart
  case swap => exact swap_ok hpart
  case ldi => exact loadIndirect_ok hpart
  case sti => exact storeIndirect_ok hpart
  case incsp => exact moveTop_ok hpart
  case ifzero => exact branch_ok .ifZero hpart
  case ifnzro => exact branch_ok .ifNotZero hpart
  case call => exact call_ok hpart
  case tcall => exact tailCall_ok hpart
  case ret => exact ret_ok hpart

/-! ## Each rule is followed -/

theorem perform_binary (op : Operator) :
    perform op.opcode = (do binary op; return Effect.quiet : Exec Effect) := by
  cases op <;> rfl

theorem perform_branch {op : Opcode} {wanted : Bool} (h : Branches op wanted) :
    perform op = (do branch op wanted; return Effect.quiet : Exec Effect) := by
  cases h <;> rfl

theorem binary_run {l r : Value} {op : Operator} (hl : m.slot? (m.sp - 1) = some l)
    (hr : m.slot? m.sp = some r) :
    (binary op).run m =
      (match op.apply l r with
      | .ok v => modify fun m => { m.withSlot (m.sp - 1) v with sp := m.sp - 1 }
      | .error .intDivisionByZero => unwind
      | .error why => throw (.operator why) : Exec Unit).run m := by
  cases h : op.apply l r with
  | ok v => simp only [binary, EStateM.run_bind, EStateM.run_get, getSlot_run, top_run, hl, hr, h]
  | error why =>
    cases why <;>
      simp only [binary, EStateM.run_bind, EStateM.run_get, getSlot_run, top_run, hl, hr, h]

theorem perform_offers {op : Opcode} {v : Value} (h : m.Offers op v)
    (hroom : m.HasSlot (m.sp + 1)) :
    (perform op).run m = .ok .quiet ((m.fetched op.arity).pushed v) := by
  have hroom1 : (m.fetched 1).HasSlot (m.sp + 1) := hroom
  cases h with
  | int hw | float hw | char hw =>
    simp only [perform, EStateM.run_bind, EStateM.run_pure, fetch_run, push_run, hw, fetched_keeps,
      if_pos hroom1]
    rfl
  | copy hv =>
    simp only [perform, EStateM.run_bind, EStateM.run_pure, top_run, getSlot_run, push_run, hv,
      if_pos hroom, show Opcode.dup.arity = 0 from rfl, fetched_zero]
  | base | top =>
    simp only [perform, EStateM.run_bind, EStateM.run_get, EStateM.run_pure, push_run,
      if_pos hroom, show Opcode.getbp.arity = 0 from rfl, show Opcode.getsp.arity = 0 from rfl,
      fetched_zero]

theorem perform_shows {op : Opcode} {output : Bytes} (h : m.Shows op output) :
    (perform op).run m = .ok (.went output) m := by
  cases h with
  | @value v hv hkind =>
    simp only [perform, printValue, EStateM.run_bind, top_run, getSlot_run, hv]
    cases v <;> simp_all [Value.isNumeric, Value.kind]
  | char hv =>
    simp only [perform, printChar, EStateM.run_bind, top_run, getSlot_run, hv]
    rfl

/-- An instruction whose rule applies goes through. -/
theorem perform_of_performs {op : Opcode} {e : Effect} (h : Performs m op e n) :
    (perform op).run m = .ok e n := by
  cases h with
  | push ho hroom => exact perform_offers ho hroom
  | binary hl hr hv =>
    rw [perform_binary, quiet_ok_iff, binary_run hl hr, hv]
    exact ⟨rfl, rfl⟩
  | @recover a _ _ _ hl hr hs =>
    have hz : Operator.div.apply (.int a) (.int 0) = .error .intDivisionByZero :=
      Operator.apply_divisionByZero_iff.mpr ⟨rfl, ⟨a, rfl⟩, rfl⟩
    refine quiet_ok_iff.mpr ⟨rfl, ?_⟩
    rw [binary_run hl hr, hz]
    exact unwind_ok_iff.mpr ⟨_, _, _, hs, rfl⟩
  | not hv hz =>
    refine quiet_ok_iff.mpr ⟨rfl, ?_⟩
    simp only [negate, EStateM.run_bind, EStateM.run_get, top_run, getSlot_run, setSlot_run, hv, hz,
      if_pos (hasSlot_of_slot? hv)]
  | swap ha hb =>
    refine quiet_ok_iff.mpr ⟨rfl, ?_⟩
    simp only [swap, EStateM.run_bind, EStateM.run_get, top_run, getSlot_run, ha, hb]
    rfl
  | load haddr hv =>
    refine quiet_ok_iff.mpr ⟨rfl, ?_⟩
    simp only [loadIndirect, bind_ok_iff, get_ok_iff, getInt_ok_iff, getSlot_ok_iff, setSlot_ok_iff]
    exact ⟨m, m, ⟨rfl, rfl⟩, _, m, ⟨⟨_, haddr, rfl⟩, rfl⟩, _, m, ⟨hv, rfl⟩, m, m, ⟨rfl, rfl⟩,
      hasSlot_of_slot? haddr, rfl⟩
  | store haddr hv hslot =>
    refine quiet_ok_iff.mpr ⟨rfl, ?_⟩
    simp only [storeIndirect, bind_ok_iff, get_ok_iff, getInt_ok_iff, getSlot_ok_iff, top_run,
      setSlot_ok_iff, modify_ok_iff]
    exact ⟨m, m, ⟨rfl, rfl⟩, _, m, ⟨⟨_, haddr, rfl⟩, rfl⟩, _, m, ⟨hv, rfl⟩, (), _, ⟨hslot, rfl⟩,
      by simp only [withSlot_keeps]⟩
  | moveTop hk hlo hhi =>
    refine quiet_ok_iff.mpr ⟨rfl, ?_⟩
    simp only [moveTop, EStateM.run_bind, EStateM.run_get, fetch_run, hk]
    rw [if_neg (by simp only [fetched_keeps]; omega)]
    rfl
  | goto ht =>
    simp only [perform, EStateM.run_bind, fetch_run, ht]
    rfl
  | @branch _ wanted zero _ _ hop hv hz ht =>
    rw [perform_branch hop, quiet_ok_iff]
    refine ⟨rfl, ?_⟩
    -- the condition is popped first, which does not change the word that is read next
    have ht' : { m with sp := m.sp - 1 }.word? 0 = some _ := ht
    simp only [branch, EStateM.run_bind, EStateM.run_modify, top_run, getSlot_run, hv, hz,
      fetch_run, ht']
    by_cases hw : zero = wanted
    · rw [if_pos hw, if_pos hw]
      rfl
    · rw [if_neg hw, if_neg hw]
      rfl
  | call hargc htarget hn hfirst hroom =>
    refine quiet_ok_iff.mpr ⟨rfl, ?_⟩
    simp only [call, EStateM.run_bind, EStateM.run_get, fetch_run, hargc, word?_fetched,
      fetched_fetched, Nat.reduceAdd, htarget]
    rw [if_neg (by simp only [fetched_keeps]; omega), if_neg (by simp only [fetched_keeps]; omega)]
    rfl
  | tailCall hargc hpop htarget hn hp hfirst hsp =>
    refine quiet_ok_iff.mpr ⟨rfl, ?_⟩
    simp only [tailCall, EStateM.run_bind, EStateM.run_get, fetch_run, hargc, word?_fetched,
      fetched_fetched, Nat.reduceAdd, hpop, htarget]
    rw [if_neg (by simp only [fetched_keeps]; omega)]
    rfl
  | @ret k _ _ _ hk hresult hk0 hbase hbp hpc =>
    refine quiet_ok_iff.mpr ⟨rfl, ?_⟩
    have hneg : ¬ (k < 0 ∨ m.sp - k.toInt - 2 < 0) := by
      rw [Int32.lt_iff_toInt_lt, Int32.toInt_zero]
      omega
    have hnext : m.sp - k.toInt - 2 + 1 = m.sp - k.toInt - 1 := by omega
    -- the operand was read, but a return sets `pc` anyway
    rw [← returned_fetched m 1]
    simp only [ret, EStateM.run_bind, EStateM.run_get, fetch_run, hk, top_run, getSlot_run,
      slot?_fetched, fetched_keeps, hresult, if_neg hneg, hnext]
    simp only [← EStateM.run_bind, bind_ok_iff, getInt_ok_iff, modify_ok_iff]
    exact ⟨_, _, ⟨⟨_, hbp, rfl⟩, rfl⟩, _, _, ⟨⟨_, hpc, rfl⟩, rfl⟩, rfl⟩
  | print hs => exact perform_shows hs
  | arguments hroom =>
    simp only [perform, ← bind_assoc]
    refine quiet_ok_iff.mpr ⟨rfl, ?_⟩
    simp only [bind_ok_iff, get_ok_iff, pushAll_ok_iff]
    exact ⟨m, m, ⟨rfl, rfl⟩, hroom, rfl⟩
  | stop => rfl

theorem perform_ok_iff {op : Opcode} {e : Effect} :
    (perform op).run m = .ok e n ↔ Performs m op e n :=
  ⟨performs_of_perform, perform_of_performs⟩

end Machine

end TagMachine
