import TagMachine.Number.Binary32
import TagMachine.Text.Bytes

/-!
Floating-point numbers in text, with the fewest digits that read back as the same number. Of the
decimals with so few digits the nearest is taken, and of two equally near ones the even one.
-/

namespace TagMachine.Binary32

/-! ## The fewest digits -/

/-- The decimals `d * 10 ^ exponent` for all `d`. In half units of 2^-150 and scaled by
`10 ^ scale`, they are the multiples of one step. -/
structure Grid where
  exponent : Int

namespace Grid

/-- The distance of neighbours, in half units times `g.scale`. -/
def step (g : Grid) : Nat := Nat.pow 10 g.exponent.toNat <<< 150

/-- The factor that makes every decimal of the grid a whole number of half units. -/
def scale (g : Grid) : Nat := Nat.pow 10 (-g.exponent).toNat

/-- The decimal `d` of the grid rounds to the number with magnitude `m`: it lies between the
midpoints to the two neighbours, and may lie on one if `m` is even. -/
def reads (g : Grid) (m d : Nat) : Bool :=
  let low := (unitsOf (m - 1) + unitsOf m) * g.scale
  let high := (unitsOf m + unitsOf (m + 1)) * g.scale
  let x := d * g.step
  if m % 2 == 0 then low ≤ x && x ≤ high else low < x && x < high

/-- The decimal of the grid nearest to `m` of those that round to `m`. -/
def nearest? (g : Grid) (m : Nat) : Option Nat :=
  let x := 2 * unitsOf m * g.scale
  let d := x / g.step
  let below := x - d * g.step
  let above := (d + 1) * g.step - x
  match g.reads m d, g.reads m (d + 1) with
  | true, true => if below < above ∨ (below = above ∧ d % 2 = 0) then some d else some (d + 1)
  | true, false => some d
  | false, true => some (d + 1)
  | false, false => none

end Grid

/-- The grids from the coarsest that can hold a finite number to one finer than all its
neighbourhoods. -/
def grids : List Grid := (List.range 85).map fun (k : Nat) => ⟨38 - (k : Int)⟩

/-- The shortest decimal `digits * 10 ^ exponent` that rounds to a nonzero finite magnitude. -/
def shortest (m : Nat) : Nat × Int :=
  (grids.findSome? fun g => (g.nearest? m).map (·, g.exponent)).getD (0, 0)

/-! ## The text -/

/-- Numbers from a thousandth up to, but not including, ten million are written without an
exponent. -/
def isPositional (x : Binary32) : Bool :=
  1 <<< 149 ≤ x.units * 1000 && x.units < 10000000 <<< 149

/-- `digits * 10 ^ exponent` with a point and at least one digit on either side of it. -/
def positional (digits : Nat) (exponent : Int) : Bytes :=
  if 0 ≤ exponent then Bytes.nat digits ++ List.replicate exponent.toNat 48 ++ [46, 48]
  else
    let places := (-exponent).toNat
    let all := Bytes.natPadded (places + 1) digits
    all.take (all.length - places) ++ 46 :: all.drop (all.length - places)

/-- `digits * 10 ^ exponent` with one digit in front of the point, at least one behind it, and an
exponent. -/
def scientific (digits : Nat) (exponent : Int) : Bytes :=
  let all := Bytes.nat digits
  let fraction := if all.length ≤ 1 then [48] else all.drop 1
  all.take 1 ++ 46 :: fraction ++ 69 :: Bytes.int (exponent + all.length - 1)

/-- A number in text. -/
def text (x : Binary32) : Bytes :=
  let sign : Bytes := if x.isNegative then [45] else []
  if x.isNaN then "NaN"
  else if x.isInfinite then sign ++ "Infinity"
  else if x.isZero then sign ++ "0.0"
  else
    let (digits, exponent) := shortest x.magnitude
    sign ++ if x.isPositional then positional digits exponent else scientific digits exponent

end TagMachine.Binary32
