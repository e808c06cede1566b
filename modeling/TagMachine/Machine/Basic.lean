import TagMachine.Machine.Trap

/-!
The machine: a program, one stack of slots and four registers. `pc` is the next word to fetch, `sp`
the top of the stack (-1 when it is empty), `bp` the base of the current frame and `hr` the newest
handler record.
-/

namespace TagMachine

/-- Whether a machine can go on. A fault stays until the machine is reset. -/
inductive Status where
  | running
  | stopped
  | faulted (f : Fault)
  deriving DecidableEq, Repr

/-- A machine and everything a later step can see. -/
structure Machine where
  code : Array Int32
  slots : Array Value
  /-- The values that LDARGS pushes. -/
  args : List Value
  /-- How many steps a run may take. -/
  limit : Option Nat
  pc : Int
  sp : Int
  bp : Int
  hr : Option Nat
  steps : Nat
  status : Status

namespace Machine

/-- The number of slots where none is asked for. -/
def defaultCapacity : Nat := 1000

/-- The number of slots of a stack of the size asked for. -/
def capacityFor (n : Int) : Nat := if 0 < n then n.toNat else defaultCapacity

/-- `bp` before the first call. -/
def initialBase : Int := -999

/-- Registers, step count and status as at the start. Slots keep what they hold. -/
def reset (m : Machine) : Machine :=
  { m with pc := 0, sp := -1, bp := initialBase, hr := none, steps := 0, status := .running }

/-- A machine that has not run. A stack of no positive size gets the default size, and a step limit
that is not positive is none. -/
def new (program : List Int32) (capacity maxSteps : Int) (args : List Value) : Machine where
  code := program.toArray
  slots := Array.replicate (capacityFor capacity) .unset
  args := args
  limit := if 0 < maxSteps then some maxSteps.toNat else none
  pc := 0
  sp := -1
  bp := initialBase
  hr := none
  steps := 0
  status := .running

/-- Another program on the same stack, from the start. -/
def load (m : Machine) (program : List Int32) : Machine := { m with code := program.toArray }.reset

/-- The number of slots. -/
def capacity (m : Machine) : Nat := m.slots.size

/-- The index is one of a slot. -/
def HasSlot (m : Machine) (i : Int) : Prop := 0 ≤ i ∧ i < m.capacity

instance (m : Machine) (i : Int) : Decidable (m.HasSlot i) := inferInstanceAs (Decidable (_ ∧ _))

/-- The value in a slot. -/
def slot? (m : Machine) (i : Int) : Option Value := if 0 ≤ i then m.slots[i.toNat]? else none

/-- The machine with a value in a slot; nothing changes where there is none. -/
def withSlot (m : Machine) (i : Int) (v : Value) : Machine :=
  if 0 ≤ i then { m with slots := m.slots.setIfInBounds i.toNat v } else m

/-- The slots from the bottom up to the top. -/
def live (m : Machine) : List Value := (m.slots.extract 0 (m.sp + 1).toNat).toList

/-- The word at an address, -1 outside the program. -/
def wordAt (m : Machine) (pc : Int) : Int32 :=
  if 0 ≤ pc then (m.code[pc.toNat]?).getD (-1) else -1

/-- The run is over: by STOP, or by a division by zero that no handler took. -/
def halted (m : Machine) : Bool :=
  match m.status with
  | .running => false
  | .stopped => true
  | .faulted f => f.cause.trapClass == .unhandledDivision

/-- The step limit is used up. -/
def atLimit (m : Machine) : Bool :=
  match m.limit with
  | some n => n ≤ m.steps
  | none => false

/-- The next step carries out an instruction. -/
def ready (m : Machine) : Bool := m.status == .running && !m.atLimit

/-! ## Inside an instruction -/

/-- A part of an instruction. One that traps leaves the machine as it was changed so far. -/
abbrev Exec := EStateM Trap Machine

/-- Reads the word at `pc` and moves on. -/
def fetch : Exec Int32 := do
  let m ← get
  if 0 ≤ m.pc then
    match m.code[m.pc.toNat]? with
    | some w =>
      set { m with pc := m.pc + 1 }
      return w
    | none => throw (.outsideProgram m.pc m.code.size)
  else throw (.outsideProgram m.pc m.code.size)

/-- Reads a slot. -/
def getSlot (i : Int) : Exec Value := do
  let m ← get
  match m.slot? i with
  | some v => return v
  | none => throw (.readOutside i m.capacity)

/-- Writes a slot. -/
def setSlot (i : Int) (v : Value) : Exec Unit := do
  let m ← get
  if m.HasSlot i then set (m.withSlot i v) else throw (.writeOutside i m.capacity)

/-- Reads the top of the stack. -/
def top : Exec Value := do getSlot (← get).sp

/-- Puts a value on top of the stack. -/
def push (v : Value) : Exec Unit := do
  let m ← get
  if m.HasSlot (m.sp + 1) then set { m.withSlot (m.sp + 1) v with sp := m.sp + 1 }
  else throw (.overflow (m.sp + 1) m.capacity)

/-- Puts values on top of the stack, the first one lowest. -/
def pushAll : List Value → Exec Unit
  | [] => pure ()
  | v :: vs => do
    push v
    pushAll vs

/-- The int in a slot. -/
def intAt (m : Machine) (i : Int) : Except SlotFault Int :=
  match m.slot? i with
  | some (.int n) => .ok n.toInt
  | some v => .error (.notInt i v.kind)
  | none => .error (.outside i m.capacity)

/-- Reads an int off a slot; a slot fault becomes the trap that `context` makes of it. -/
def getInt (i : Int) (context : SlotFault → Trap) : Exec Int := do
  match (← get).intAt i with
  | .ok n => return n
  | .error why => throw (context why)

end Machine

end TagMachine
