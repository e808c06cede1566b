import TagMachine.Display.Paint
import TagMachine.Number.Shortest
import TagMachine.Opcode
import TagMachine.Text.Utf8

/-!
Program words as mnemonics. A listing goes through a program from its first word and takes every
instruction with its operands; a word that is no instruction is listed on its own.
-/

namespace TagMachine.Listing

/-- An operand word in text. -/
def operandText (kind : Opcode.Operand) (w : Int32) : Bytes :=
  match kind with
  | .float => (Binary32.mk w.toUInt32).text
  | .char => Utf8.encodeCode (w.toUInt32.toNat % 1 <<< 16 : Nat)
  | .number | .target => Bytes.int w.toInt

/-- Operands in text, each behind a space; one that the program lacks is a question mark. -/
def operandTexts : List Opcode.Operand → List Int32 → Bytes
  | [], _ => []
  | _ :: kinds, [] => [32, 63] ++ operandTexts kinds []
  | kind :: kinds, w :: ws => 32 :: operandText kind w ++ operandTexts kinds ws

/-- The instruction at the start of program words. -/
def instructionText : List Int32 → Bytes
  | [] => "<unknown>"
  | w :: ws =>
    match Opcode.ofWord? w with
    | none => "<unknown>"
    | some op => op.name ++ operandTexts op.operands ws

/-- The instruction at an address of a program. -/
def instructionAt (code : List Int32) (pc : Int) : Bytes :=
  if 0 ≤ pc then instructionText (code.drop pc.toNat) else "<unknown>"

/-- The number of operand words of a program word. -/
def arity (w : Int32) : Nat :=
  match Opcode.ofWord? w with
  | some op => op.arity
  | none => 0

/-- The addresses that a listing starts an entry at, and the words from there on. -/
def entriesFrom (address : Nat) : List Int32 → List (Nat × List Int32)
  | [] => []
  | w :: ws => (address, w :: ws) :: entriesFrom (address + 1 + arity w) (ws.drop (arity w))
termination_by ws => ws.length

/-- The entries of a program's listing. -/
def entries (code : List Int32) : List (Nat × List Int32) := entriesFrom 0 code

/-- What stands in front of an entry: an arrow at the marked address, and as much space
elsewhere. -/
def margin (mark : Option Nat) (address : Nat) : Bytes :=
  match mark with
  | none => []
  | some m => if m = address then "=> " else "   "

/-- A line of a listing. -/
def line (palette : Palette) (mark : Option Nat) (entry : Nat × List Int32) : Bytes :=
  Bytes.cat [margin mark entry.1, palette.paint .cyan (Bytes.natPadded 4 entry.1), ": ",
    palette.paint .yellow (instructionText entry.2), [10]]

/-- The listing of a program, with at most one entry marked. -/
def render (palette : Palette) (mark : Option Nat) (code : List Int32) : Bytes :=
  (entries code).flatMap (line palette mark)

/-- The plain listing of a program. -/
def disassemble (code : List Int32) : Bytes := render ⟨false⟩ none code

/-- The mark for an address; one below zero marks nothing. -/
def markAt (address : Int) : Option Nat := if 0 ≤ address then some address.toNat else none

end TagMachine.Listing
