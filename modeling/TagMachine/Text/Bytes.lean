/-!
Texts as lists of bytes. Sources, arguments and files need not be valid UTF-8, and columns and
offsets count bytes, so no text of this library is a `String`.
-/

namespace TagMachine

/-- A text: any sequence of bytes. -/
abbrev Bytes := List UInt8

namespace Bytes

/-- The UTF-8 bytes of a string. -/
def ofString (s : String) : Bytes := s.toByteArray.data.toList

instance : Coe String Bytes := ⟨ofString⟩

/-- The pieces one after another. -/
def cat (pieces : List Bytes) : Bytes := pieces.flatten

/-- The pieces with `sep` between neighbours. -/
def join (sep : Bytes) (pieces : List Bytes) : Bytes := sep.intercalate pieces

/-- The byte of an ASCII character. -/
def ascii (c : Char) : UInt8 := c.toNat.toUInt8

/-- `b` is one of `0` to `9`. -/
def isDigit (b : UInt8) : Bool := 48 ≤ b && b ≤ 57

/-- `b` is an ASCII letter. -/
def isLetter (b : UInt8) : Bool := (65 ≤ b && b ≤ 90) || (97 ≤ b && b ≤ 122)

/-- ASCII letters become lower case, every other byte stays. -/
def lower (b : UInt8) : UInt8 := if 65 ≤ b && b ≤ 90 then b + 32 else b

/-- ASCII letters become upper case, every other byte stays. -/
def upper (b : UInt8) : UInt8 := if 97 ≤ b && b ≤ 122 then b - 32 else b

/-! ## Numbers in text -/

/-- The digit of `n`, for `n < 16`. -/
def digit (n : Nat) : UInt8 := if n < 10 then (48 + n).toUInt8 else (87 + n).toUInt8

/-- The value of a hexadecimal digit of either case. -/
def digitValue? (b : UInt8) : Option Nat :=
  if isDigit b then some (b.toNat - 48)
  else if 97 ≤ b && b ≤ 102 then some (b.toNat - 87)
  else if 65 ≤ b && b ≤ 70 then some (b.toNat - 55)
  else none

/-- A natural number in decimal. -/
def nat (n : Nat) : Bytes :=
  if n < 10 then [digit n] else nat (n / 10) ++ [digit (n % 10)]
termination_by n

/-- An integer in decimal, with a sign only below zero. -/
def int : Int → Bytes
  | .ofNat n => nat n
  | .negSucc n => 45 :: nat (n + 1)

/-- A decimal number filled up with zeros on the left to at least `width` digits. -/
def natPadded (width n : Nat) : Bytes :=
  let digits := nat n
  List.replicate (width - digits.length) 48 ++ digits

/-- The last `width` hexadecimal digits of `n`, in lower case. -/
def hex : (width : Nat) → Nat → Bytes
  | 0, _ => []
  | width + 1, n => hex width (n / 16) ++ [digit (n % 16)]

/-! ## Searching and splitting -/

/-- What follows `lead` in `b`, if `b` starts with it. -/
def after? : (lead b : Bytes) → Option Bytes
  | [], b => some b
  | _ :: _, [] => none
  | x :: lead, y :: b => if x = y then after? lead b else none

/-- `b` starts with `lead`. -/
def startsWith (b lead : Bytes) : Bool := (after? lead b).isSome

/-- The parts of `b` between the bytes `sep`; there is always at least one. -/
def splitOn (sep : UInt8) (b : Bytes) : List Bytes :=
  let (parts, last) := b.foldr
    (fun x (acc : List Bytes × Bytes) =>
      if x = sep then (acc.2 :: acc.1, []) else (acc.1, x :: acc.2))
    ([], [])
  last :: parts

end Bytes

end TagMachine
