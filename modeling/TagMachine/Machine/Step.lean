import TagMachine.Machine.Frame
import TagMachine.Machine.Handler

/-!
Single steps. A step carries out the instruction at `pc`; once a machine has stopped or faulted,
further steps change nothing.
-/

namespace TagMachine

namespace Machine

/-- What an instruction does beside changing the machine. -/
inductive Effect where
  | went (output : Bytes)
  | halt

/-- No output. -/
def Effect.quiet : Effect := .went []

/-- Takes the two operands of an operator off the stack and pushes its result. An integer division
by zero goes to the handlers. -/
def binary (op : Operator) : Exec Unit := do
  let lhs ← getSlot ((← get).sp - 1)
  let rhs ← top
  match op.apply lhs rhs with
  | .ok result => modify fun m => { m.withSlot (m.sp - 1) result with sp := m.sp - 1 }
  | .error .intDivisionByZero => unwind
  | .error why => throw (.operator why)

/-- NOT: one for a numeric zero, zero for any other number. -/
def negate : Exec Unit := do
  let v ← top
  match v.isZero? with
  | some zero => setSlot (← get).sp (.ofBool zero)
  | none => throw (.notOperand v.kind)

/-- SWAP: exchanges the two topmost values. -/
def swap : Exec Unit := do
  let a ← getSlot ((← get).sp - 1)
  let b ← top
  modify fun m => (m.withSlot (m.sp - 1) b).withSlot m.sp a

/-- LDI: replaces an address by what its slot holds. -/
def loadIndirect : Exec Unit := do
  let addr ← getInt (← get).sp .loadAddress
  let v ← getSlot addr
  setSlot (← get).sp v

/-- STI: stores the top at the address below it and leaves the value in place of both. -/
def storeIndirect : Exec Unit := do
  let addr ← getInt ((← get).sp - 1) .storeAddress
  let v ← top
  setSlot addr v
  modify fun m => { m.withSlot (m.sp - 1) v with sp := m.sp - 1 }

/-- INCSP: moves the top of the stack. -/
def moveTop : Exec Unit := do
  let n ← fetch
  let m ← get
  let sp := m.sp + n.toInt
  if sp < -1 ∨ m.capacity ≤ sp then throw (.stackMove n sp m.capacity)
  set { m with sp }

/-- IFZERO and IFNZRO: takes a number off the stack and jumps if its being zero is `wanted`. -/
def branch (op : Opcode) (wanted : Bool) : Exec Unit := do
  let v ← top
  match v.isZero? with
  | none => throw (.condition op v.kind)
  | some zero =>
    modify fun m => { m with sp := m.sp - 1 }
    let target ← fetch
    if zero = wanted then modify fun m => { m with pc := target.toInt }

/-- PRINTI: a number or a char in text, and a space. -/
def printValue : Exec Bytes := do
  let v ← top
  match v with
  | .int _ | .float _ | .char _ => return v.text ++ [32]
  | _ => throw (.printOperand v.kind)

/-- PRINTC: a char. -/
def printChar : Exec Bytes := do
  let v ← top
  match v with
  | .char _ => return v.text
  | _ => throw (.charOperand v.kind)

/-- What LDARGS pushes for an argument: a string takes one slot for each character. -/
def argumentSlots : Value → List Value
  | .array elems => elems
  | v => [v]

/-- The char of a code of which only the low 16 bits count. -/
def charOfWord (w : Int32) : Value := .char (Int32.ofNat (w.toUInt32.toNat % 1 <<< 16))

/-- Carries out an instruction that has just been fetched. -/
def perform (op : Opcode) : Exec Effect :=
  match op with
  | .csti => do push (.int (← fetch)); return .quiet
  | .cstf => do push (.float ⟨(← fetch).toUInt32⟩); return .quiet
  | .cstc => do push (charOfWord (← fetch)); return .quiet
  | .add => do binary .add; return .quiet
  | .sub => do binary .sub; return .quiet
  | .mul => do binary .mul; return .quiet
  | .div => do binary .div; return .quiet
  | .mod => do binary .mod; return .quiet
  | .eq => do binary .eq; return .quiet
  | .lt => do binary .lt; return .quiet
  | .not => do negate; return .quiet
  | .dup => do push (← top); return .quiet
  | .swap => do swap; return .quiet
  | .ldi => do loadIndirect; return .quiet
  | .sti => do storeIndirect; return .quiet
  | .getbp => do push (.int (Int32.ofInt (← get).bp)); return .quiet
  | .getsp => do push (.int (Int32.ofInt (← get).sp)); return .quiet
  | .incsp => do moveTop; return .quiet
  | .goto => do
    let target ← fetch
    modify fun m => { m with pc := target.toInt }
    return .quiet
  | .ifzero => do branch .ifzero true; return .quiet
  | .ifnzro => do branch .ifnzro false; return .quiet
  | .call => do call; return .quiet
  | .tcall => do tailCall; return .quiet
  | .ret => do ret; return .quiet
  | .printi => do return .went (← printValue)
  | .printc => do return .went (← printChar)
  | .ldargs => do pushAll ((← get).args.flatMap argumentSlots); return .quiet
  | .stop => return .halt

/-- Fetches and carries out one instruction. -/
def instruction : Exec Effect := do
  let w ← fetch
  match Opcode.ofWord? w with
  | some op => perform op
  | none => throw (.illegalOpcode w)

end Machine

/-- Why a step or a run did not end well. -/
inductive RunError where
  | fault (f : Fault)
  | stepLimit
  deriving DecidableEq, Repr

/-- The error in words. -/
def RunError.message : RunError → Bytes
  | .fault f => f.message
  | .stepLimit => "maximum steps exceeded"

/-- What a step comes to. -/
inductive StepResult where
  | ran (output : Bytes)
  | stopped
  | failed (e : RunError)
  deriving DecidableEq, Repr

/-- What the instruction with program word `op` at address `pc` comes to. Both are read off before
the instruction runs, so that it may change the slots in place. -/
@[noinline] def Machine.settle (pc : Int) (op : Int32) :
    EStateM.Result Trap Machine Machine.Effect → StepResult × Machine
  | .ok (.went output) n => (.ran output, { n with steps := n.steps + 1 })
  | .ok .halt n => (.stopped, { n with steps := n.steps + 1, status := .stopped })
  | .error why n =>
    let f : Fault := ⟨pc, op, why⟩
    (.failed (.fault f), { n with steps := n.steps + 1, status := .faulted f })

/-- One step: the instruction at `pc`, unless the machine has stopped, has faulted or is at its step
limit. -/
def Machine.step (m : Machine) : StepResult × Machine :=
  match m.status with
  | .faulted f => (.failed (.fault f), m)
  | .stopped => (.stopped, m)
  | .running =>
    if m.atLimit then (.failed .stepLimit, m)
    else Machine.settle m.pc (m.wordAt m.pc) (Machine.instruction.run m)

end TagMachine
