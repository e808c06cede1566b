import TagMachine.Number.Decimal
import TagMachine.Text.Letter
import TagMachine.Text.Quoted
import TagMachine.Value

/-!
Command-line arguments as values. An argument with a letter in it is a string, one with a point but
no letter a float, and any other an int.
-/

namespace TagMachine

/-- Why an argument was refused. -/
inductive ArgumentError where
  | badFloat (text : Bytes) (why : NumeralError Binary32)
  | badInt (text : Bytes) (why : NumeralError Int32)
  deriving DecidableEq, Repr

namespace ArgumentError

/-- The error in words. -/
def message : ArgumentError → Bytes
  | badFloat text why =>
    Bytes.cat ["invalid float ", Quoted.write text, ": strconv.ParseFloat: parsing ",
      Quoted.write text, ": ", why.reason]
  | badInt text why =>
    Bytes.cat ["invalid int ", Quoted.write text, ": strconv.ParseInt: parsing ",
      Quoted.write text, ": ", why.reason]

/-- The argument is well-formed but denotes no machine number. -/
def isOutOfRange : ArgumentError → Bool
  | badFloat _ .malformed | badInt _ .malformed => false
  | badFloat _ (.outOfRange _) | badInt _ (.outOfRange _) => true

end ArgumentError

/-- The first argument that was refused, counted from one. -/
structure ArgumentsError where
  number : Nat
  error : ArgumentError
  deriving DecidableEq, Repr

/-- The error in words. -/
def ArgumentsError.message (e : ArgumentsError) : Bytes :=
  Bytes.cat ["argument ", Bytes.nat e.number, ": ", e.error.message]

namespace Value

/-- The value of one argument. -/
def ofArgument (text : Bytes) : Except ArgumentError Value :=
  if Utf8.any isLetter text then .ok (ofText text)
  else if text.contains 46 then
    match Decimal.readBinary32 text with
    | .ok x => .ok (.float x)
    | .error e => .error (.badFloat text e)
  else
    match Numeral.readInt32 text with
    | .ok i => .ok (.int i)
    | .error e => .error (.badInt text e)

/-- The values of arguments, the first of which has the given number. -/
def ofArgumentsFrom (number : Nat) : List Bytes → Except ArgumentsError (List Value)
  | [] => .ok []
  | text :: rest =>
    match ofArgument text with
    | .error e => .error ⟨number, e⟩
    | .ok v =>
      match ofArgumentsFrom (number + 1) rest with
      | .error e => .error e
      | .ok vs => .ok (v :: vs)

/-- The values of all arguments. -/
def ofArguments (texts : List Bytes) : Except ArgumentsError (List Value) := ofArgumentsFrom 1 texts

end Value

end TagMachine
