import TagMachine.Opcode
import TagMachine.Token

/-!
Programs with labels. A program under assembly is a list of items; fixing it gives every label the
number of words in front of its first definition and puts that address into every reference.
-/

namespace TagMachine.Assembly

/-- What can be wrong with a source. -/
inductive Problem where
  | notWord (lexeme : Bytes) (pos : Position)
  | unexpected (lexeme : Bytes) (pos : Position)
  | unknownInstruction (lexeme : Bytes) (pos : Position)
  | missingOperand (op : Opcode) (pos : Position)
  | notOneChar (op : Opcode) (lexeme : Bytes) (pos : Position)
  | notFloat (op : Opcode) (lexeme : Bytes) (pos : Position)
  | notInteger (op : Opcode) (lexeme : Bytes) (pos : Position)
  | duplicateLabel (name : Bytes) (pos : Position)
  | undefinedLabel (name : Bytes) (pos : Position)
  deriving DecidableEq, Repr

namespace Problem

/-- A problem in words. -/
def message : Problem → Bytes
  | notWord lexeme pos =>
    Bytes.cat ["Expected 32-bit integer word, found `", lexeme, "` at ", pos.text]
  | unexpected lexeme pos => Bytes.cat ["Unexpected `", lexeme, "` at ", pos.text]
  | unknownInstruction lexeme pos => Bytes.cat ["Unknown instruction `", lexeme, "` at ", pos.text]
  | missingOperand op pos => Bytes.cat ["Missing operand for ", op.name, " at ", pos.text]
  | notOneChar op lexeme pos =>
    Bytes.cat ["Expected single character for ", op.name, ", found ", lexeme, " at ", pos.text]
  | notFloat op lexeme pos =>
    Bytes.cat ["Expected float for ", op.name, ", found `", lexeme, "` at ", pos.text]
  | notInteger op lexeme pos =>
    Bytes.cat ["Expected integer for ", op.name, ", found `", lexeme, "` at ", pos.text]
  | duplicateLabel name pos => Bytes.cat ["Duplicate label `", name, "` at ", pos.text]
  | undefinedLabel name pos => Bytes.cat ["Undefined label `", name, "` at ", pos.text]

end Problem

/-- A piece of a program under assembly. -/
inductive Item where
  | word (w : Int32)
  /-- A word that will hold the address of a label. -/
  | reference (name : Bytes) (pos : Position)
  /-- A name for the address of the next word. -/
  | label (name : Bytes) (pos : Position)
  deriving DecidableEq, Repr

/-- The number of program words an item takes. -/
def Item.size : Item → Nat
  | .word _ | .reference _ _ => 1
  | .label _ _ => 0

/-- The number of program words that items take. -/
def size : List Item → Nat
  | [] => 0
  | item :: rest => item.size + size rest

/-- Label names and their addresses. -/
abbrev LabelTable := List (Bytes × Nat)

/-- The labels of items that stand at `address`, behind those of `table`. A name that has an address
keeps it. -/
def labelsFrom (table : LabelTable) (address : Nat) : List Item → LabelTable
  | [] => table
  | .label name _ :: rest =>
    match table.lookup name with
    | some _ => labelsFrom table address rest
    | none => labelsFrom (table ++ [(name, address)]) address rest
  | item :: rest => labelsFrom table (address + item.size) rest

/-- The labels of a program, each with the address of its first definition. -/
def labels (items : List Item) : LabelTable := labelsFrom [] 0 items

/-- The definitions that repeat a name already in `seen`. -/
def duplicatesFrom (seen : List Bytes) : List Item → List Problem
  | [] => []
  | .label name pos :: rest =>
    if seen.contains name then .duplicateLabel name pos :: duplicatesFrom seen rest
    else duplicatesFrom (name :: seen) rest
  | _ :: rest => duplicatesFrom seen rest

/-- The second and later definitions of a name. -/
def duplicates (items : List Item) : List Problem := duplicatesFrom [] items

/-- The references to names without an address. -/
def undefined (table : LabelTable) (items : List Item) : List Problem :=
  items.filterMap fun
    | .reference name pos =>
      if (table.lookup name).isNone then some (.undefinedLabel name pos) else none
    | _ => none

/-- The program word of an item, if it takes one. A reference without an address holds zero. -/
def Item.fixed? (table : LabelTable) : Item → Option Int32
  | .word w => some w
  | .reference name _ => some (Int32.ofNat ((table.lookup name).getD 0))
  | .label _ _ => none

/-- The words of a program. -/
def fix (items : List Item) : List Int32 :=
  let table := labels items
  items.filterMap (·.fixed? table)

/-- What is wrong with the labels of a program: repeated definitions, then references to nothing. -/
def labelProblems (items : List Item) : List Problem :=
  duplicates items ++ undefined (labels items) items

end TagMachine.Assembly
