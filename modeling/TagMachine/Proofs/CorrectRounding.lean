import Mathlib.Algebra.Order.Field.Basic
import Mathlib.Algebra.Order.Field.Rat
import Mathlib.Tactic.FieldSimp
import Mathlib.Tactic.Linarith
import TagMachine.Number.Decimal
import TagMachine.Proofs.NearestFloat
import TagMachine.Proofs.SignedMagnitude

/-!
Correct rounding. A rational number is too large for the finite floating-point numbers, or it has a
nearest one, and just one of each sign. A decimal in text becomes the nearest number with its sign,
and it becomes infinite exactly if it is too large.
-/

namespace TagMachine

/-! ## The nearest number -/

namespace Binary32

/-- The number that a finite pattern stands for. -/
def toRat (x : Binary32) : ℚ := x.signedUnits / 2 ^ 149

/-- No finite number is nearer to `q` than `x`, and where another is as near, `x` is the one with
the even pattern. -/
structure Nearest (q : ℚ) (x : Binary32) : Prop where
  finite : x.isFinite
  least : ∀ y : Binary32, y.isFinite → |x.toRat - q| ≤ |y.toRat - q|
  tie : ∀ y : Binary32, y.isFinite → |y.toRat - q| = |x.toRat - q| →
    y.toRat = x.toRat ∨ x.magnitude % 2 = 0

/-- A quotient of units becomes infinite, or it rounds to a finite magnitude. -/
theorem not_isInfinite_ofUnits {negative : Bool} {num den : Nat} :
    ¬ (ofUnits negative num den).isInfinite ↔ roundUnits num den < infinityMagnitude := by
  have hle := roundUnits_le num den
  have hmagnitude := magnitude_ofMagnitude negative (roundUnits_lt num den)
  simp only [isInfinite, ofUnits, hmagnitude, beq_iff_eq]
  omega

/-- A number with a sign. -/
def signed (negative : Bool) (n : Int) : Int := if negative then -n else n

theorem signedUnits_eq (x : Binary32) : x.signedUnits = signed x.isNegative x.units := rfl

/-- How far a number is from a quotient of units with the given sign, times the divisor. On the
other side of zero, it is further away than zero itself. -/
theorem natAbs_signed (negative : Bool) (y : Binary32) (num den : Nat) :
    (y.signedUnits * den - signed negative num).natAbs =
      if y.isNegative = negative then distance y.magnitude num den else y.units * den + num := by
  have hunits : y.signedUnits = signed y.isNegative (unitsOf y.magnitude) := rfl
  unfold distance units
  rw [hunits]
  generalize unitsOf y.magnitude = u
  have hcast : ((u * den : Nat) : Int) = (u : Int) * den := Int.natCast_mul u den
  cases y.isNegative <;> cases negative <;>
    simp only [signed, Int.neg_mul, if_true, if_false, reduceCtorEq] <;> omega

theorem signed_mul (negative : Bool) (n k : Int) :
    signed negative (n * k) = signed negative n * k := by
  cases negative with
  | false => rfl
  | true => exact (Int.neg_mul n k).symm

theorem signed_zero (negative : Bool) : signed negative 0 = 0 := by
  cases negative <;> rfl

/-- A quotient of units that does not round to infinity rounds to the nearest number of its sign. -/
theorem ofUnits_nearest (negative : Bool) {num den : Nat} (hden : 0 < den)
    (hfinite : roundUnits num den < infinityMagnitude) (x y : Binary32)
    (hx : x = ofUnits negative num den) :
    (x.signedUnits * den - signed negative num).natAbs ≤
        (y.signedUnits * den - signed negative num).natAbs ∧
      ((y.signedUnits * den - signed negative num).natAbs =
          (x.signedUnits * den - signed negative num).natAbs →
        y.signedUnits = x.signedUnits ∨ x.magnitude % 2 = 0) := by
  have hsmall : roundUnits num den < 2 ^ 31 := roundUnits_lt num den
  have hsign : x.isNegative = negative := by
    rw [hx]
    exact isNegative_ofMagnitude negative hsmall
  have hmagnitude : x.magnitude = roundUnits num den := by
    rw [hx]
    exact magnitude_ofMagnitude negative hsmall
  have hunits : x.signedUnits = signed negative (unitsOf (roundUnits num den)) := by
    rw [signedUnits_eq, hsign, units, hmagnitude]
  rw [natAbs_signed, natAbs_signed, if_pos hsign, hmagnitude]
  by_cases hsame : y.isNegative = negative
  · rw [if_pos hsame]
    obtain ⟨hle, htie⟩ := roundUnits_nearest hden hfinite y.magnitude
    refine ⟨hle, fun heq => (htie heq).imp_left ?_⟩
    intro hequal
    rw [hunits, signedUnits_eq, hsame, units, hequal]
  · -- zero lies between the number and the quotient
    rw [if_neg hsame]
    obtain ⟨hle, htie⟩ := roundUnits_nearest hden hfinite 0
    have hzero : distance 0 num den = num := by simp [distance, unitsOf]
    rw [hzero] at hle htie
    refine ⟨by omega, fun heq => ?_⟩
    have hy : y.units = 0 := by
      have hnone : y.units * den = 0 := by omega
      exact (Nat.mul_eq_zero.mp hnone).resolve_right (by omega)
    refine (htie (by omega)).imp_left ?_
    intro hequal
    have hx0 : unitsOf (roundUnits num den) = 0 := hequal.symm
    rw [hunits, signedUnits_eq, hy, hx0, Int.natCast_zero, signed_zero, signed_zero]

/-- How far a number is from a quotient of units. -/
theorem abs_toRat_sub (negative : Bool) (y : Binary32) (num : Nat) {den : Nat} (hden : 0 < den) :
    |y.toRat - signed negative num / (den * 2 ^ 149)| =
      ((y.signedUnits * den - signed negative num).natAbs : ℚ) / (den * 2 ^ 149) := by
  have hpos : (0 : ℚ) < den * 2 ^ 149 := by positivity
  have hsub : y.toRat - signed negative num / (den * 2 ^ 149) =
      ((y.signedUnits * den - signed negative num : Int) : ℚ) / (den * 2 ^ 149) := by
    unfold toRat
    push_cast
    field_simp
  rw [hsub, abs_div, abs_of_pos hpos, Nat.cast_natAbs, Int.cast_abs]

theorem nearest_ofUnits (negative : Bool) {num den : Nat} (hden : 0 < den)
    (hfinite : roundUnits num den < infinityMagnitude) :
    Nearest (signed negative num / (den * 2 ^ 149)) (ofUnits negative num den) := by
  have hpos : (0 : ℚ) < den * 2 ^ 149 := by positivity
  have hnearest := fun y => ofUnits_nearest negative hden hfinite (ofUnits negative num den) y rfl
  refine ⟨?_, ?_, ?_⟩
  · have hmagnitude := magnitude_ofMagnitude negative (roundUnits_lt num den)
    simpa [isFinite, ofUnits, hmagnitude] using hfinite
  · intro y _
    rw [abs_toRat_sub negative _ num hden, abs_toRat_sub negative _ num hden]
    exact div_le_div_of_nonneg_right (Nat.cast_le.mpr (hnearest y).1) hpos.le
  · intro y _ heq
    rw [abs_toRat_sub negative _ num hden, abs_toRat_sub negative _ num hden,
      div_left_inj' hpos.ne', Nat.cast_inj] at heq
    refine ((hnearest y).2 heq).imp_left ?_
    intro hequal
    unfold toRat
    rw [hequal]

/-! ## One nearest number -/

theorem unitsOf_strictMono : StrictMono unitsOf :=
  strictMono_nat_of_lt_succ fun m => (unitsOf_lt m.succ_pos).1

/-- Of two numbers with one sign, the one with the larger pattern is further from zero. -/
theorem toRat_lt {x y : Binary32} (hsign : x.isNegative = y.isNegative)
    (hlt : x.magnitude < y.magnitude) :
    if x.isNegative then y.toRat < x.toRat else x.toRat < y.toRat := by
  have hpos : (0 : ℚ) < 2 ^ 149 := by positivity
  have hunits : (x.units : Int) < y.units := Int.ofNat_lt.mpr (unitsOf_strictMono hlt)
  unfold toRat
  rw [div_lt_div_iff_of_pos_right hpos, div_lt_div_iff_of_pos_right hpos, Int.cast_lt, Int.cast_lt]
  unfold signedUnits
  rw [← hsign]
  split <;> omega

/-- Between two numbers that are as near, all are nearer. -/
theorem abs_sub_lt_of_between {a b c q : ℚ} (h : |a - q| = |b - q|)
    (hc : a < c ∧ c < b ∨ b < c ∧ c < a) : |c - q| < |a - q| := by
  have hmiddle : a - q = -(b - q) := by
    refine (abs_eq_abs.mp h).resolve_left fun hsame => ?_
    rcases hc with ⟨hac, hcb⟩ | ⟨hbc, hca⟩ <;> linarith
  rw [abs_lt]
  rcases hc with ⟨hac, hcb⟩ | ⟨hbc, hca⟩
  · rw [abs_of_neg (by linarith)]
    constructor <;> linarith
  · rw [abs_of_pos (by linarith)]
    constructor <;> linarith

theorem Nearest.magnitude_le {q : ℚ} {x y : Binary32} (hx : Nearest q x) (hy : Nearest q y)
    (hsign : x.isNegative = y.isNegative) : y.magnitude ≤ x.magnitude := by
  by_contra hlt
  rw [Nat.not_le] at hlt
  have hsame : |x.toRat - q| = |y.toRat - q| :=
    le_antisymm (hx.least y hy.finite) (hy.least x hx.finite)
  have hxy := toRat_lt hsign hlt
  have hne : x.toRat ≠ y.toRat := by
    split at hxy
    · exact ne_of_gt hxy
    · exact ne_of_lt hxy
  -- both patterns are even, so there is another one between them
  have hxeven := (hx.tie y hy.finite hsame.symm).resolve_left hne.symm
  have hyeven := (hy.tie x hx.finite hsame).resolve_left hne
  have hyfinite : y.magnitude < infinityMagnitude := by simpa [isFinite] using hy.finite
  have hsmall : x.magnitude + 1 < 2 ^ 31 := by
    have hinfinity : infinityMagnitude < 2 ^ 31 := by decide
    omega
  have hzsign := isNegative_ofMagnitude x.isNegative hsmall
  have hzmagnitude := magnitude_ofMagnitude x.isNegative hsmall
  generalize ofMagnitude x.isNegative (x.magnitude + 1) = z at hzsign hzmagnitude
  have hzfinite : z.isFinite := by
    rw [isFinite, decide_eq_true_eq]
    omega
  have hxz := toRat_lt hzsign.symm (by omega)
  have hzy := toRat_lt (hzsign.trans hsign) (by omega)
  rw [hzsign] at hzy
  refine absurd (hx.least z hzfinite) (not_le.mpr (abs_sub_lt_of_between hsame ?_))
  split at hxz
  · next hnegative =>
    rw [if_pos hnegative] at hzy
    exact Or.inr ⟨hzy, hxz⟩
  · next hnegative =>
    rw [if_neg hnegative] at hzy
    exact Or.inl ⟨hxz, hzy⟩

/-- At most one number of each sign is nearest to a rational number. -/
theorem Nearest.unique {q : ℚ} {x y : Binary32} (hx : Nearest q x) (hy : Nearest q y)
    (hsign : x.isNegative = y.isNegative) : x = y := by
  exact eq_of_isNegative_of_magnitude hsign
    (Nat.le_antisymm (hy.magnitude_le hx hsign.symm) (hx.magnitude_le hy hsign))

/-! ## Numbers that are too large -/

/-- The number is at least halfway from the largest finite number, 2^128 - 2^104, to 2^128, so that
it rounds to infinity. -/
def Overflows (q : ℚ) : Prop := 2 ^ 128 - 2 ^ 103 ≤ |q|

theorem overflows_pow {e : ℤ} (h : 39 ≤ e) : Overflows (10 ^ e) := by
  have hpos : (0 : ℚ) < 10 ^ e := zpow_pos (by norm_num) e
  rw [Overflows, abs_of_pos hpos]
  calc (2 : ℚ) ^ 128 - 2 ^ 103 ≤ 10 ^ (39 : ℤ) := by norm_num
    _ ≤ 10 ^ e := zpow_le_zpow_right₀ (by norm_num) h

theorem abs_signed (negative : Bool) (n : Nat) : |(signed negative n : ℚ)| = n := by
  cases negative <;> simp [signed]

/-- Of the quotients of units, those that are too large become infinite. -/
theorem isInfinite_ofUnits (negative : Bool) (num : Nat) {den : Nat} (hden : 0 < den) :
    (ofUnits negative num den).isInfinite ↔ Overflows (signed negative num / (den * 2 ^ 149)) := by
  have hpos : (0 : ℚ) < den * 2 ^ 149 := by positivity
  have hlimit : ((2 : ℚ) ^ 128 - 2 ^ 103) * (den * 2 ^ 149) =
      (((2 ^ 25 - 1) * (den * 2 ^ 252) : Nat) : ℚ) := by
    push_cast
    ring
  rw [← not_not (a := _ = true), not_isInfinite_ofUnits, roundUnits_lt_iff hden, Nat.not_lt,
    Overflows, abs_div, abs_signed, abs_of_pos hpos, le_div_iff₀ hpos, hlimit, Nat.cast_le]

end Binary32

/-! ## Decimals -/

namespace Decimal

open Binary32

/-- The number that a decimal stands for. -/
def toRat (d : Decimal) : ℚ := signed d.negative d.digits * 10 ^ d.exponent

/-- The decimal correctly rounded: the nearest number, with the sign of the decimal. -/
structure RoundsTo (v : Decimal) (x : Binary32) : Prop where
  nearest : Nearest v.toRat x
  sign : x.isNegative = v.negative

theorem RoundsTo.unique {v : Decimal} {x y : Binary32} (hx : v.RoundsTo x) (hy : v.RoundsTo y) :
    x = y :=
  hx.nearest.unique hy.nearest (hx.sign.trans hy.sign.symm)

/-- A decimal is rounded as a quotient of units. -/
theorem exists_units (d : Decimal) :
    ∃ num den : Nat, 0 < den ∧ d.toBinary32 = ofUnits d.negative num den ∧
      d.toRat = signed d.negative num / (den * 2 ^ 149) := by
  refine ⟨d.digits * 10 ^ d.exponent.toNat * 2 ^ 149, 10 ^ (-d.exponent).toNat,
    Nat.pow_pos (by decide), ?_, ?_⟩
  · unfold toBinary32
    rw [Nat.shiftLeft_eq]
    rfl
  · -- the units cancel, and the two powers of ten are the one of the exponent
    have hsplit : (10 : ℚ) ^ d.exponent = 10 ^ d.exponent.toNat / 10 ^ (-d.exponent).toNat := by
      rw [← zpow_natCast, ← zpow_natCast, ← zpow_sub₀ (by norm_num)]
      congr 1
      omega
    have hunit : ((2 ^ 149 : Nat) : ℚ) = 2 ^ 149 := Nat.cast_pow 2 149
    rw [toRat, hsplit, Int.natCast_mul, signed_mul, Int.natCast_mul, signed_mul, Int.cast_mul,
      Int.cast_mul, Int.cast_natCast, Int.cast_natCast, hunit,
      mul_div_mul_right _ _ (by positivity), Nat.cast_pow, Nat.cast_pow, Nat.cast_ofNat,
      mul_div_assoc]

theorem isInfinite_toBinary32 (d : Decimal) : d.toBinary32.isInfinite ↔ Overflows d.toRat := by
  obtain ⟨num, den, hden, hx, hvalue⟩ := d.exists_units
  rw [hx, hvalue]
  exact isInfinite_ofUnits d.negative num hden

/-- A decimal that is not too large is correctly rounded. -/
theorem roundsTo_toBinary32 {d : Decimal} (h : ¬ d.toBinary32.isInfinite) :
    d.RoundsTo d.toBinary32 := by
  obtain ⟨num, den, hden, hx, hvalue⟩ := d.exists_units
  rw [hx, not_isInfinite_ofUnits] at h
  constructor
  · rw [hx, hvalue]
    exact nearest_ofUnits d.negative hden h
  · rw [hx]
    exact isNegative_ofMagnitude _ (roundUnits_lt num den)

end Decimal

end TagMachine
