import TagMachine.Text.Bytes

/-!
The instruction set: mnemonics, numbers and operand counts.
-/

namespace TagMachine

/-- The instructions. -/
inductive Opcode where
  | csti
  | add
  | sub
  | mul
  | div
  | mod
  | eq
  | lt
  | not
  | dup
  | swap
  | ldi
  | sti
  | getbp
  | getsp
  | incsp
  | goto
  | ifzero
  | ifnzro
  | call
  | tcall
  | ret
  | printi
  | printc
  | ldargs
  | stop
  | cstf
  | cstc
  deriving DecidableEq, Repr, Inhabited

namespace Opcode

/-- The instructions in the order of their numbers. -/
def all : List Opcode :=
  [csti, add, sub, mul, div, mod, eq, lt, not, dup, swap, ldi, sti, getbp, getsp, incsp, goto,
    ifzero, ifnzro, call, tcall, ret, printi, printc, ldargs, stop, cstf, cstc]

/-- The number of an instruction in a program. -/
def number (op : Opcode) : Nat := op.ctorIdx

/-- The program word of an instruction. -/
def word (op : Opcode) : Int32 := Int32.ofNat op.number

/-- The instruction that a program word stands for. -/
def ofWord? (w : Int32) : Option Opcode := if 0 ≤ w then all[w.toInt.toNat]? else none

/-- The mnemonic of an instruction. -/
def name : Opcode → Bytes
  | csti => "CSTI"
  | add => "ADD"
  | sub => "SUB"
  | mul => "MUL"
  | div => "DIV"
  | mod => "MOD"
  | eq => "EQ"
  | lt => "LT"
  | not => "NOT"
  | dup => "DUP"
  | swap => "SWAP"
  | ldi => "LDI"
  | sti => "STI"
  | getbp => "GETBP"
  | getsp => "GETSP"
  | incsp => "INCSP"
  | goto => "GOTO"
  | ifzero => "IFZERO"
  | ifnzro => "IFNZRO"
  | call => "CALL"
  | tcall => "TCALL"
  | ret => "RET"
  | printi => "PRINTI"
  | printc => "PRINTC"
  | ldargs => "LDARGS"
  | stop => "STOP"
  | cstf => "CSTF"
  | cstc => "CSTC"

/-- What an operand word of an instruction stands for. -/
inductive Operand where
  /-- A plain number. -/
  | number
  /-- A program address. -/
  | target
  /-- The bits of a floating-point number. -/
  | float
  /-- The code of a character. -/
  | char
  deriving DecidableEq, Repr

/-- The operand words that follow an instruction. -/
def operands : Opcode → List Operand
  | csti | incsp | ret => [.number]
  | cstf => [.float]
  | cstc => [.char]
  | goto | ifzero | ifnzro => [.target]
  | call => [.number, .target]
  | tcall => [.number, .number, .target]
  | _ => []

/-- The number of operand words. -/
def arity : Opcode → Nat
  | csti | cstf | cstc | incsp | goto | ifzero | ifnzro | ret => 1
  | call => 2
  | tcall => 3
  | _ => 0

/-- The count of operands is that of their kinds. -/
theorem length_operands (op : Opcode) : op.operands.length = op.arity := by
  cases op <;> rfl

/-- The upper case of a byte, where the two letters outside ASCII whose upper case lies inside it,
the long s and the dotless i, become that letter. -/
def upperName : Bytes → Bytes
  | 0xC5 :: 0xBF :: rest => 83 :: upperName rest
  | 0xC4 :: 0xB1 :: rest => 73 :: upperName rest
  | b :: rest => Bytes.upper b :: upperName rest
  | [] => []

/-- The instruction with a given mnemonic in any case. -/
def ofName? (b : Bytes) : Option Opcode :=
  let wanted := upperName b
  all.find? (·.name == wanted)

/-- The mnemonic of a program word, or the word itself where it is no instruction. -/
def wordName (w : Int32) : Bytes :=
  match ofWord? w with
  | some op => op.name
  | none => Bytes.cat ["UNKNOWN(", Bytes.int w.toInt, ")"]

end Opcode

end TagMachine
