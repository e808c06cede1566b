/-!
Binary floating-point numbers of 32 bits, as their bit patterns. A finite number is a whole number
of units of 2^-149, so every operation is the exact operation on units followed by one rounding to
the nearest pattern, halfway cases to the even one.
-/

namespace TagMachine

/-- A floating-point number: a sign bit, eight exponent bits and 23 fraction bits. -/
structure Binary32 where
  bits : UInt32
  deriving DecidableEq, Repr, Inhabited

namespace Binary32

/-- The sign bit is set. -/
def isNegative (x : Binary32) : Bool := 1 <<< 31 ≤ x.bits.toNat

/-- The pattern without its sign bit. Larger magnitudes have larger patterns. -/
def magnitude (x : Binary32) : Nat := x.bits.toNat % 1 <<< 31

/-- The pattern of infinity; every finite magnitude is below it. -/
def infinityMagnitude : Nat := 255 <<< 23

/-- Not a number. -/
def isNaN (x : Binary32) : Bool := infinityMagnitude < x.magnitude

/-- Plus or minus infinity. -/
def isInfinite (x : Binary32) : Bool := x.magnitude == infinityMagnitude

/-- Neither infinite nor not a number. -/
def isFinite (x : Binary32) : Bool := x.magnitude < infinityMagnitude

/-- Plus or minus zero. -/
def isZero (x : Binary32) : Bool := x.magnitude == 0

/-- The number with a given sign and magnitude pattern. -/
def ofMagnitude (negative : Bool) (m : Nat) : Binary32 :=
  ⟨(if negative then 1 <<< 31 + m else m).toUInt32⟩

/-- The pattern used for "not a number". -/
def nan : Binary32 := ⟨0x7FC00000⟩

/-- Infinity of either sign. -/
def infinity (negative : Bool) : Binary32 := ofMagnitude negative infinityMagnitude

/-- Zero of either sign. -/
def zero (negative : Bool) : Binary32 := ofMagnitude negative 0

/-! ## Units and rounding -/

/-- How many units of 2^-149 a magnitude pattern stands for. -/
def unitsOf (m : Nat) : Nat :=
  if m < 1 <<< 23 then m else (1 <<< 23 + m % 1 <<< 23) <<< (m >>> 23 - 1)

/-- The units of a finite number, without its sign. -/
def units (x : Binary32) : Nat := unitsOf x.magnitude

/-- The units of a finite number, with its sign. -/
def signedUnits (x : Binary32) : Int := if x.isNegative then -(x.units : Int) else x.units

/-- `num / den` rounded to the nearest natural number, halfway cases to the even one. -/
def roundHalfEven (num den : Nat) : Nat :=
  let q := num / den
  let r := num % den
  if den < 2 * r ∨ (den = 2 * r ∧ q % 2 = 1) then q + 1 else q

/-- How far a quotient of units exceeds the 24 bits that a pattern keeps. -/
def excess (q : Nat) : Nat := q.log2 - 23

/-- The magnitude pattern nearest to `num / den` units. A fraction that rounds up to the next power
of two carries into the exponent, which is what the next pattern means. -/
def roundUnits (num den : Nat) : Nat :=
  let k := excess (num / den)
  min (k <<< 23 + roundHalfEven num (den <<< k)) infinityMagnitude

/-- The number nearest to `num / den` units, with the given sign. -/
def ofUnits (negative : Bool) (num den : Nat) : Binary32 :=
  ofMagnitude negative (roundUnits num den)

/-- The number nearest to an integer. -/
def ofInt (i : Int) : Binary32 := ofUnits (i < 0) (i.natAbs <<< 149) 1

/-! ## Arithmetic -/

/-- The opposite sign. -/
def neg (x : Binary32) : Binary32 := ofMagnitude (!x.isNegative) x.magnitude

/-- The sum. Equal and opposite numbers cancel to plus zero. -/
def add (x y : Binary32) : Binary32 :=
  if x.isNaN || y.isNaN then nan
  else if x.isInfinite then
    if y.isInfinite && x.isNegative != y.isNegative then nan else x
  else if y.isInfinite then y
  else
    let sum := x.signedUnits + y.signedUnits
    if sum = 0 then zero (x.isNegative && y.isNegative)
    else ofUnits (sum < 0) sum.natAbs 1

/-- The difference. -/
def sub (x y : Binary32) : Binary32 := if y.isNaN then nan else add x y.neg

/-- The product. -/
def mul (x y : Binary32) : Binary32 :=
  let negative := x.isNegative != y.isNegative
  if x.isNaN || y.isNaN then nan
  else if x.isInfinite || y.isInfinite then
    if x.isZero || y.isZero then nan else infinity negative
  else ofUnits negative (x.units * y.units) (1 <<< 149)

/-- The quotient. -/
def div (x y : Binary32) : Binary32 :=
  let negative := x.isNegative != y.isNegative
  if x.isNaN || y.isNaN then nan
  else if x.isInfinite then
    if y.isInfinite then nan else infinity negative
  else if y.isInfinite then zero negative
  else if y.isZero then
    if x.isZero then nan else infinity negative
  else ofUnits negative (x.units <<< 149) y.units

/-! ## Comparison -/

/-- Orders all numbers but "not a number"; the two zeros have one key. -/
def orderKey (x : Binary32) : Int := if x.isNegative then -(x.magnitude : Int) else x.magnitude

/-- Numerical equality: the zeros are equal, and "not a number" equals nothing. -/
def eq (x y : Binary32) : Bool := !x.isNaN && !y.isNaN && x.orderKey == y.orderKey

/-- Numerical order; "not a number" is below nothing and above nothing. -/
def lt (x y : Binary32) : Bool := !x.isNaN && !y.isNaN && x.orderKey < y.orderKey

end Binary32

end TagMachine
