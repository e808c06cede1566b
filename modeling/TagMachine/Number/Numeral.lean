import TagMachine.Text.Bytes

/-!
Reading integers of a fixed width. Digits are taken from left to right and the first fault decides:
a byte that is no digit makes the numeral malformed, a value that no longer fits the unsigned width
puts it out of range, whatever follows.
-/

namespace TagMachine

/-- Why a numeral was refused. One that is out of range tells the nearest number that is not. -/
inductive NumeralError (α : Type) where
  | malformed
  | outOfRange (nearest : α)
  deriving DecidableEq, Repr

namespace NumeralError

/-- The reason in words. -/
def reason {α : Type} : NumeralError α → Bytes
  | .malformed => "invalid syntax"
  | .outOfRange _ => "value out of range"

/-- The same reason, with the nearest number seen through `f`. -/
def map {α β : Type} (f : α → β) : NumeralError α → NumeralError β
  | .malformed => .malformed
  | .outOfRange nearest => .outOfRange (f nearest)

end NumeralError

namespace Numeral

/-- Splits off an optional sign; `true` is minus. -/
def splitSign : Bytes → Bool × Bytes
  | 43 :: b => (false, b)
  | 45 :: b => (true, b)
  | b => (false, b)

/-- Why a run of digits was refused. -/
inductive RunFault where
  | badDigit
  | tooLarge
  deriving DecidableEq, Repr

/-- The value of a run of digits that continues `n`; underscores are skipped where `spaced`. -/
def run (base limit : Nat) (spaced : Bool) : (n : Nat) → Bytes → Except RunFault Nat
  | n, [] => .ok n
  | n, x :: b =>
    if spaced && x == 95 then run base limit spaced n b
    else match Bytes.digitValue? x with
      | some d =>
        if base ≤ d then .error .badDigit
        else if limit < n * base + d then .error .tooLarge
        else run base limit spaced (n * base + d) b
      | none => .error .badDigit

/-- The least number that is too large for signed integers of the given width. -/
def signedLimit (bits : Nat) : Int := (1 <<< (bits - 1) : Nat)

/-- The signed number with magnitude `n`, which may be refused as too large already. -/
def signed (bits : Nat) (negative : Bool) : Except RunFault Nat → Except (NumeralError Int) Int
  | .error .badDigit => .error .malformed
  | .error .tooLarge =>
    .error (.outOfRange (if negative then -signedLimit bits else signedLimit bits - 1))
  | .ok n =>
    if negative then
      if signedLimit bits < n then .error (.outOfRange (-signedLimit bits)) else .ok (-(n : Int))
    else if signedLimit bits ≤ n then .error (.outOfRange (signedLimit bits - 1)) else .ok n

/-- Reads a decimal integer of the given width: an optional sign and at least one digit. -/
def readDecimal (bits : Nat) (b : Bytes) : Except (NumeralError Int) Int :=
  let (negative, digits) := splitSign b
  if digits.isEmpty then .error .malformed
  else signed bits negative (run 10 (1 <<< bits - 1) false 0 digits)

/-- Reads a 32-bit decimal integer. -/
def readInt32 (b : Bytes) : Except (NumeralError Int32) Int32 :=
  match readDecimal 32 b with
  | .ok n => .ok (Int32.ofInt n)
  | .error e => .error (e.map Int32.ofInt)

/-! ## Underscores and bases -/

/-- What an underscore may follow: the last byte seen was a digit, an underscore or another byte. -/
inductive Seen where
  | digit
  | underscore
  | other
  deriving DecidableEq, Repr

/-- Every underscore of the text stands between two digits. -/
def spacedFrom (hexadecimal : Bool) : Seen → Bytes → Bool
  | seen, [] => seen != .underscore
  | seen, x :: b =>
    if Bytes.isDigit x || (hexadecimal && (Bytes.digitValue? x).isSome) then
      spacedFrom hexadecimal .digit b
    else if x == 95 then seen == .digit && spacedFrom hexadecimal .underscore b
    else seen != .underscore && spacedFrom hexadecimal .other b

/-- The base a marker letter announces. -/
def markedBase? (letter : UInt8) : Option Nat :=
  match (Bytes.lower letter).toNat with
  | 98 => some 2
  | 111 => some 8
  | 120 => some 16
  | _ => none

/-- Every underscore stands between two digits, where a base marker counts as a digit. -/
def wellSpaced (b : Bytes) : Bool :=
  match (splitSign b).2 with
  | 48 :: letter :: rest =>
    match markedBase? letter with
    | some base => spacedFrom (base == 16) .digit rest
    | none => spacedFrom false .other (48 :: letter :: rest)
  | b => spacedFrom false .other b

/-- The base of an unsigned numeral and its digits: `0x`, `0o` and `0b` mark a base, another leading
zero means base eight. -/
def splitBase : Bytes → Nat × Bytes
  | 48 :: letter :: x :: rest =>
    match markedBase? letter with
    | some base => (base, x :: rest)
    | none => (8, letter :: x :: rest)
  | 48 :: rest => (8, rest)
  | b => (10, b)

/-- Reads an integer in any of the bases, with underscores between digits. -/
def readMarked (bits : Nat) (b : Bytes) : Except (NumeralError Int) Int :=
  let (negative, unsigned) := splitSign b
  if unsigned.isEmpty then .error .malformed
  else
    let (base, digits) := splitBase unsigned
    match run base (1 <<< bits - 1) true 0 digits with
    | .ok n =>
      if unsigned.contains 95 && !wellSpaced unsigned then .error .malformed
      else signed bits negative (.ok n)
    | .error fault => signed bits negative (.error fault)

end Numeral

end TagMachine
