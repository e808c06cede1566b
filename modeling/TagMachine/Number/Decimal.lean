import TagMachine.Number.Binary32
import TagMachine.Number.Numeral

/-!
Decimal fractions in text, and the floating-point number nearest to one.
-/

namespace TagMachine

/-- The number `digits * 10 ^ exponent`, with a sign that zero has too. -/
structure Decimal where
  negative : Bool
  digits : Nat
  exponent : Int
  deriving DecidableEq, Repr

namespace Decimal

/-- The part of a decimal in front of its exponent, as far as it is read. -/
structure Mantissa where
  value : Nat
  places : Nat
  hasDigit : Bool
  hasPoint : Bool

/-- Reads digits with at most one point between, before or after them, and skips underscores. -/
def mantissa (m : Mantissa) : Bytes → Mantissa × Bytes
  | [] => (m, [])
  | x :: b =>
    if x = 95 then mantissa m b
    else if x = 46 then
      if m.hasPoint then (m, x :: b) else mantissa { m with hasPoint := true } b
    else if Bytes.isDigit x then
      mantissa
        { m with
          value := m.value * 10 + (x.toNat - 48)
          places := if m.hasPoint then m.places + 1 else m.places
          hasDigit := true } b
    else (m, x :: b)

/-- Reads the digits of an exponent that continues `e` and skips underscores. Once `e` has five
digits, the others do not count: a longer exponent is cut to its first five, even where the digits
in front of it are so many that it would have brought the number back into range. -/
def exponentDigits (e : Nat) : Bytes → Nat × Bytes
  | [] => (e, [])
  | x :: b =>
    if x = 95 then exponentDigits e b
    else if Bytes.isDigit x then
      exponentDigits (if e < 10000 then e * 10 + (x.toNat - 48) else e) b
    else (e, x :: b)

/-- Reads an exponent if one follows; `none` if its mark stands without a digit. -/
def exponent? : Bytes → Option (Int × Bytes)
  | [] => some (0, [])
  | x :: b =>
    if Bytes.lower x = 101 then
      let (negative, digits) := Numeral.splitSign b
      match digits with
      | [] => none
      | d :: _ =>
        if Bytes.isDigit d then
          let (e, rest) := exponentDigits 0 digits
          some (if negative then -(e : Int) else e, rest)
        else none
    else some (0, x :: b)

/-- Reads a whole text as a decimal: an optional sign, digits with an optional point, an optional
exponent, and underscores only between digits. -/
def read? (b : Bytes) : Option Decimal :=
  let (negative, unsigned) := Numeral.splitSign b
  let (m, rest) := mantissa ⟨0, 0, false, false⟩ unsigned
  if m.hasDigit then
    match exponent? rest with
    | some (e, []) =>
      if b.contains 95 && !Numeral.wellSpaced b then none
      else some ⟨negative, m.value, e - m.places⟩
    | _ => none
  else none

/-- The floating-point number nearest to a decimal; infinity if it is too large. -/
def toBinary32 (d : Decimal) : Binary32 :=
  Binary32.ofUnits d.negative ((d.digits * Nat.pow 10 d.exponent.toNat) <<< 149)
    (Nat.pow 10 (-d.exponent).toNat)

/-- Reads a floating-point number. One too large for any finite number is out of range, and the
nearest is the infinity of its sign. -/
def readBinary32 (b : Bytes) : Except (NumeralError Binary32) Binary32 :=
  match read? b with
  | none => .error .malformed
  | some d =>
    let x := d.toBinary32
    if x.isInfinite then .error (.outOfRange x) else .ok x

end Decimal

end TagMachine
