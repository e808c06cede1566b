import TagMachine.Number.Shortest
import TagMachine.Text.Utf8

/-!
Tagged machine values. Only ints, floats and chars are computed with; arrays carry string arguments
and an unset value is what a slot holds before its first write.
-/

namespace TagMachine

/-- The tag of a value. -/
inductive Kind where
  | unset
  | int
  | float
  | char
  | array
  deriving DecidableEq, Repr

namespace Kind

/-- The name of a kind in messages. -/
def name : Kind → Bytes
  | .unset => "unset"
  | .int => "int"
  | .float => "float"
  | .char => "char"
  | .array => "array"

/-- The kind with a given number; every number without a kind of its own means unset. -/
def ofNumber : Int → Kind
  | 1 => .int
  | 2 => .float
  | 3 => .char
  | 4 => .array
  | _ => .unset

end Kind

/-- A machine value. A char is any 32-bit code, valid or not. -/
inductive Value where
  | unset
  | int (i : Int32)
  | float (x : Binary32)
  | char (code : Int32)
  | array (elems : List Value)
  deriving Repr, Inhabited

namespace Value

/-- The tag of a value. -/
def kind : Value → Kind
  | .unset => .unset
  | .int _ => .int
  | .float _ => .float
  | .char _ => .char
  | .array _ => .array

/-- One for true, zero for false. -/
def ofBool (b : Bool) : Value := .int (if b then 1 else 0)

/-- The char of a character. -/
def ofChar (c : Char) : Value := .char (Int32.ofNat c.toNat)

/-- A text as an array of chars, one for each character. -/
def ofText (b : Bytes) : Value := .array ((Utf8.decode b).map ofChar)

/-- Ints and floats can be computed with. -/
def isNumeric : Value → Bool
  | .int _ | .float _ => true
  | _ => false

/-- Whether a number is zero; `none` if the value is no number. -/
def isZero? : Value → Option Bool
  | .int i => some (i == 0)
  | .float x => some x.isZero
  | _ => none

mutual

/-- Same kind and same contents. Floats compare as numbers. -/
def eq : Value → Value → Bool
  | .unset, .unset => true
  | .int i, .int j => i == j
  | .float x, .float y => x.eq y
  | .char c, .char d => c == d
  | .array xs, .array ys => eqAll xs ys
  | _, _ => false

/-- As many values on both sides, equal one by one. -/
def eqAll : List Value → List Value → Bool
  | [], [] => true
  | x :: xs, y :: ys => eq x y && eqAll xs ys
  | _, _ => false

end

mutual

/-- A value in text. -/
def text : Value → Bytes
  | .unset => [63]
  | .int i => Bytes.int i.toInt
  | .float x => x.text
  | .char c => Utf8.encodeCode c.toInt
  | .array elems => 34 :: textAll elems ++ [34]

/-- Values in text, with nothing between them. -/
def textAll : List Value → Bytes
  | [] => []
  | v :: vs => text v ++ textAll vs

end

end Value

end TagMachine
