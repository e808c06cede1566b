import TagMachine.Opcode
import TagMachine.Value.Arithmetic

/-!
What can go wrong in an instruction.
-/

namespace TagMachine

/-- Why a slot could not be read as an int. -/
inductive SlotFault where
  | outside (index : Int) (capacity : Nat)
  | notInt (index : Int) (kind : Kind)
  deriving DecidableEq, Repr

/-- Why an instruction could not be carried out. -/
inductive Trap where
  /-- An operator without a result. -/
  | operator (why : Operator.Failure)
  | notOperand (kind : Kind)
  | condition (op : Opcode) (kind : Kind)
  | printOperand (kind : Kind)
  | charOperand (kind : Kind)
  /-- The word at the program counter is no instruction. -/
  | illegalOpcode (w : Int32)
  | outsideProgram (pc : Int) (size : Nat)
  | readOutside (index : Int) (capacity : Nat)
  | writeOutside (index : Int) (capacity : Nat)
  /-- A push onto a full stack. -/
  | overflow (index : Int) (capacity : Nat)
  | loadAddress (why : SlotFault)
  | storeAddress (why : SlotFault)
  | stackMove (offset : Int32) (sp : Int) (capacity : Nat)
  | callArguments (argc : Int) (depth : Int)
  | callOverflow (slot : Int) (capacity : Nat)
  | tailCall (argc pop : Int) (sp : Int)
  | returnDepth (k : Int32) (sp : Int)
  | savedBase (why : SlotFault)
  | returnAddress (why : SlotFault)
  | handlerRecord (record : Nat) (why : SlotFault)
  | handlerLink (record : Nat) (previous : Int)
  /-- An integer division by zero that no handler took. -/
  | unhandledDivision
  deriving DecidableEq, Repr

/-- The classes of traps. -/
inductive TrapClass where
  | typeMismatch
  | operator
  | illegalInstruction
  | stackBounds
  | unhandledDivision
  deriving DecidableEq, Repr

namespace SlotFault

/-- The class of a slot fault. -/
def trapClass : SlotFault → TrapClass
  | outside _ _ => .stackBounds
  | notInt _ _ => .typeMismatch

/-- A slot fault in words. -/
def message : SlotFault → Bytes
  | outside i n =>
    Bytes.cat ["stack index out of bounds: read at ", Bytes.int i, " (capacity ", Bytes.nat n, ")"]
  | notInt i k =>
    Bytes.cat ["type mismatch: slot ", Bytes.int i, " holds ", k.name, ", expected int"]

end SlotFault

namespace Operator.Failure

/-- The class of an operator's failure. Integer division by zero is one only until a handler is
looked for. -/
def trapClass : Operator.Failure → TrapClass
  | leftNotNumeric _ _ | rightNotNumeric _ _ => .typeMismatch
  | intDivisionByZero => .unhandledDivision
  | intModuloByZero | floatDivisionByZero | floatModulo => .operator

/-- An operator's failure in words. -/
def message : Operator.Failure → Bytes
  | leftNotNumeric op k =>
    Bytes.cat ["type mismatch: left operand of ", op.name, " is ", k.name, ", not int or float"]
  | rightNotNumeric op k =>
    Bytes.cat ["type mismatch: right operand of ", op.name, " is ", k.name, ", not int or float"]
  | intDivisionByZero => "integer division by zero"
  | intModuloByZero => "operator error: integer modulo by zero"
  | floatDivisionByZero => "operator error: float division by zero"
  | floatModulo => "operator error: modulo is not defined on floats"

end Operator.Failure

namespace Trap

/-- The class of a trap. -/
def trapClass : Trap → TrapClass
  | operator why => why.trapClass
  | notOperand _ | condition _ _ | printOperand _ | charOperand _ => .typeMismatch
  | illegalOpcode _ | outsideProgram _ _ => .illegalInstruction
  | readOutside _ _ | writeOutside _ _ | overflow _ _ | stackMove _ _ _ | callArguments _ _
  | callOverflow _ _ | tailCall _ _ _ | returnDepth _ _ | handlerLink _ _ => .stackBounds
  | loadAddress why | storeAddress why | savedBase why | returnAddress why
  | handlerRecord _ why => why.trapClass
  | unhandledDivision => .unhandledDivision

/-- A trap in words. -/
def message : Trap → Bytes
  | operator why => why.message
  | notOperand k => Bytes.cat ["type mismatch: NOT operand is ", k.name, ", not int or float"]
  | condition op k =>
    Bytes.cat ["type mismatch: ", op.name, " condition is ", k.name, ", not int or float"]
  | printOperand k => Bytes.cat ["type mismatch: PRINTI operand is ", k.name]
  | charOperand k => Bytes.cat ["type mismatch: PRINTC operand is ", k.name, ", not char"]
  | illegalOpcode w => Bytes.cat ["illegal instruction: opcode ", Bytes.int w.toInt]
  | outsideProgram pc n =>
    Bytes.cat ["illegal instruction: pc ", Bytes.int pc, " outside program of ", Bytes.nat n,
      " words"]
  | readOutside i n =>
    Bytes.cat ["stack index out of bounds: read at ", Bytes.int i, " (capacity ", Bytes.nat n, ")"]
  | writeOutside i n =>
    Bytes.cat ["stack index out of bounds: write at ", Bytes.int i, " (capacity ", Bytes.nat n, ")"]
  | overflow i n =>
    Bytes.cat ["stack overflow: stack index out of bounds: write at ", Bytes.int i, " (capacity ",
      Bytes.nat n, ")"]
  | loadAddress why => "LDI address: " ++ why.message
  | storeAddress why => "STI address: " ++ why.message
  | stackMove k sp n =>
    Bytes.cat ["stack index out of bounds: INCSP ", Bytes.int k.toInt, " moves sp to ",
      Bytes.int sp, " (capacity ", Bytes.nat n, ")"]
  | callArguments argc depth =>
    Bytes.cat ["stack index out of bounds: CALL with ", Bytes.int argc, " arguments on a stack of ",
      Bytes.int depth]
  | callOverflow i n =>
    Bytes.cat ["stack overflow: stack index out of bounds: CALL needs slot ", Bytes.int i,
      " (capacity ", Bytes.nat n, ")"]
  | tailCall argc pop sp =>
    Bytes.cat ["stack index out of bounds: TCALL ", Bytes.int argc, " ", Bytes.int pop,
      " with stack top ", Bytes.int sp]
  | returnDepth k sp =>
    Bytes.cat ["stack index out of bounds: RET ", Bytes.int k.toInt, " with stack top ",
      Bytes.int sp]
  | savedBase why => "saved base pointer: " ++ why.message
  | returnAddress why => "return address: " ++ why.message
  | handlerRecord h why => Bytes.cat ["handler record at ", Bytes.nat h, ": ", why.message]
  | handlerLink h prev =>
    Bytes.cat ["stack index out of bounds: handler record at ", Bytes.nat h, " links to ",
      Bytes.int prev]
  | unhandledDivision => "no handler for integer division by zero"

end Trap

/-- The instruction that stopped a run: its address, its program word (-1 outside the program) and
why it could not be carried out. -/
structure Fault where
  pc : Int
  op : Int32
  cause : Trap
  deriving DecidableEq, Repr

/-- A fault in words. -/
def Fault.message (f : Fault) : Bytes :=
  Bytes.cat [Opcode.wordName f.op, " at address ", Bytes.int f.pc, ": ", f.cause.message]

end TagMachine
