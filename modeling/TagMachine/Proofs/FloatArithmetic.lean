import TagMachine.Proofs.CorrectRounding

/-!
Arithmetic on floating-point numbers, by the numbers they stand for. The sum, the difference, the
product and the quotient of finite numbers are the exact ones, correctly rounded, and an integer
becomes the number nearest to it. Numbers are compared by what they stand for, where an infinity
stands for 2^128, beyond all finite numbers.
-/

namespace TagMachine.Binary32

variable {x y : Binary32}

/-- A number correctly rounded: the nearest finite one or, if the number is too large, infinity with
its sign. -/
structure Rounded (q : ℚ) (x : Binary32) : Prop where
  nearest : ¬ Overflows q → Nearest q x
  infinite : Overflows q → x = infinity (q < 0)

theorem not_overflows_zero : ¬ Overflows 0 := by
  norm_num [Overflows]

theorem rounded_zero (negative : Bool) : Rounded 0 (zero negative) := by
  have hvalue : (zero negative).toRat = 0 := by
    cases negative <;> decide +kernel
  refine ⟨fun _ => ⟨?_, ?_, ?_⟩, fun h => absurd h not_overflows_zero⟩
  · cases negative <;> rfl
  · intro y _
    rw [hvalue, sub_zero, abs_zero]
    exact abs_nonneg _
  · intro y _ hy
    rw [hvalue, sub_zero, sub_zero, abs_zero, abs_eq_zero] at hy
    exact Or.inl (hy.trans hvalue.symm)

/-- A quotient of units is correctly rounded. -/
theorem rounded_ofUnits (negative : Bool) (num : Nat) {den : Nat} (hden : 0 < den) :
    Rounded (signed negative num / (den * 2 ^ 149)) (ofUnits negative num den) := by
  have hpos : (0 : ℚ) < den * 2 ^ 149 := by positivity
  constructor
  · intro hfits
    rw [← isInfinite_ofUnits negative num hden, not_isInfinite_ofUnits] at hfits
    exact nearest_ofUnits negative hden hfits
  · intro hlarge
    have hround : roundUnits num den = infinityMagnitude := by
      have hle := roundUnits_le num den
      rw [← isInfinite_ofUnits negative num hden, ← not_not (a := _ = true),
        not_isInfinite_ofUnits] at hlarge
      omega
    have hnum : (0 : ℚ) < num := by
      rw [Nat.cast_pos, Nat.pos_iff_ne_zero]
      rintro rfl
      rw [Int.natCast_zero, signed_zero, Int.cast_zero, zero_div] at hlarge
      exact not_overflows_zero hlarge
    have hsign : decide ((signed negative num : ℚ) / (den * 2 ^ 149) < 0) = negative := by
      cases negative with
      | false =>
        rw [decide_eq_false_iff_not, not_lt]
        exact div_nonneg hnum.le hpos.le
      | true =>
        rw [decide_eq_true_iff]
        refine div_neg_of_neg_of_pos ?_ hpos
        simpa [signed] using hnum
    rw [ofUnits, hround, hsign, infinity]

/-! ## Operations -/

theorem signed_natAbs (i : Int) : signed (i < 0) i.natAbs = i := by
  unfold signed
  by_cases h : i < 0
  · rw [decide_eq_true h, if_pos rfl]
    omega
  · rw [decide_eq_false h, if_neg Bool.false_ne_true]
    omega

theorem signed_bne (a b : Bool) (m n : Nat) :
    signed (a != b) (m * n : Nat) = signed a m * signed b n := by
  cases a <;> cases b <;> simp [signed]

theorem toRat_eq (x : Binary32) : x.toRat = signed x.isNegative x.units / 2 ^ 149 := rfl

theorem magnitude_lt (x : Binary32) : x.magnitude < 2 ^ 31 := Nat.mod_lt _ (by decide)

theorem toRat_neg (x : Binary32) : x.neg.toRat = -x.toRat := by
  have hsign := isNegative_ofMagnitude (!x.isNegative) x.magnitude_lt
  have hmagnitude := magnitude_ofMagnitude (!x.isNegative) x.magnitude_lt
  rw [toRat_eq, toRat_eq, neg, hsign, units, hmagnitude]
  cases x.isNegative <;> simp [signed, units, neg_div]

theorem isFinite_neg (h : x.isFinite) : x.neg.isFinite := by
  have hmagnitude := magnitude_ofMagnitude (!x.isNegative) x.magnitude_lt
  rw [isFinite, neg, hmagnitude]
  exact h

theorem rounded_add (hx : x.isFinite) (hy : y.isFinite) :
    Rounded (x.toRat + y.toRat) (x.add y) := by
  have hsum : x.toRat + y.toRat = ((x.signedUnits + y.signedUnits : Int) : ℚ) / 2 ^ 149 := by
    rw [toRat, toRat, Int.cast_add, add_div]
  simp only [add, isNaN_of_isFinite hx, isNaN_of_isFinite hy, isInfinite_of_isFinite hx,
    isInfinite_of_isFinite hy, Bool.or_self, Bool.false_eq_true, if_false, hsum]
  generalize x.signedUnits + y.signedUnits = sum
  split
  · next hzero =>
    rw [hzero, Int.cast_zero, zero_div]
    exact rounded_zero _
  · have hrounded := rounded_ofUnits (sum < 0) sum.natAbs Nat.one_pos
    rw [signed_natAbs, Nat.cast_one, one_mul] at hrounded
    exact hrounded

theorem rounded_sub (hx : x.isFinite) (hy : y.isFinite) :
    Rounded (x.toRat - y.toRat) (x.sub y) := by
  rw [sub, isNaN_of_isFinite hy, sub_eq_add_neg, ← toRat_neg]
  exact rounded_add hx (isFinite_neg hy)

theorem rounded_mul (hx : x.isFinite) (hy : y.isFinite) :
    Rounded (x.toRat * y.toRat) (x.mul y) := by
  have hrounded := rounded_ofUnits (x.isNegative != y.isNegative) (x.units * y.units)
    (Nat.two_pow_pos 149)
  have hproduct : x.toRat * y.toRat =
      signed (x.isNegative != y.isNegative) (x.units * y.units : Nat) /
        ((2 ^ 149 : Nat) * 2 ^ 149) := by
    rw [signed_bne, toRat_eq, toRat_eq, div_mul_div_comm]
    push_cast
    rfl
  rw [hproduct]
  simpa [mul, isNaN_of_isFinite hx, isNaN_of_isFinite hy, isInfinite_of_isFinite hx,
    isInfinite_of_isFinite hy, Nat.shiftLeft_eq] using hrounded

theorem units_pos (h : ¬ x.isZero) : 0 < x.units := by
  rw [isZero_iff] at h
  exact unitsOf_strictMono (Nat.pos_of_ne_zero h)

theorem rounded_div (hx : x.isFinite) (hy : y.isFinite) (hzero : ¬ y.isZero) :
    Rounded (x.toRat / y.toRat) (x.div y) := by
  have hpos := units_pos hzero
  have hrounded := rounded_ofUnits (x.isNegative != y.isNegative) (x.units * 2 ^ 149) hpos
  have hquotient : x.toRat / y.toRat =
      signed (x.isNegative != y.isNegative) (x.units * 2 ^ 149 : Nat) / (y.units * 2 ^ 149) := by
    have hscale : ((2 ^ 149 : Nat) : ℚ) = 2 ^ 149 := Nat.cast_pow 2 149
    rw [toRat_eq, toRat_eq, div_div_div_cancel_right₀ (by positivity), signed_bne, Int.cast_mul]
    generalize (signed x.isNegative x.units : ℚ) = num
    cases y.isNegative with
    | false =>
      simp only [signed, Bool.false_eq_true, if_false, Int.cast_natCast, hscale]
      rw [mul_div_mul_right _ _ (by positivity)]
    | true =>
      simp only [signed, if_true, Int.cast_neg, Int.cast_natCast, hscale]
      rw [mul_neg, neg_div, mul_div_mul_right _ _ (by positivity), div_neg]
  rw [hquotient]
  simpa [div, isNaN_of_isFinite hx, isNaN_of_isFinite hy, isInfinite_of_isFinite hx,
    isInfinite_of_isFinite hy, hzero, Nat.shiftLeft_eq] using hrounded

/-- An integer is correctly rounded. -/
theorem rounded_ofInt (i : Int) : Rounded i (ofInt i) := by
  have hrounded := rounded_ofUnits (i < 0) (i.natAbs * 2 ^ 149) Nat.one_pos
  rw [Int.natCast_mul, signed_mul, signed_natAbs, Nat.cast_one, one_mul, Int.cast_mul,
    Int.cast_natCast, Nat.cast_pow, Nat.cast_ofNat,
    mul_div_cancel_right₀ _ (by positivity)] at hrounded
  rw [ofInt, Nat.shiftLeft_eq]
  exact hrounded

theorem isNegative_ofInt (i : Int) : (ofInt i).isNegative = decide (i < 0) :=
  isNegative_ofMagnitude _ (roundUnits_lt _ _)

/-! ## Comparisons -/

theorem orderKey_lt_iff : x.orderKey < y.orderKey ↔ x.toRat < y.toRat := by
  have hpos : (0 : ℚ) < 2 ^ 149 := by positivity
  have hlt : x.units < y.units ↔ x.magnitude < y.magnitude := unitsOf_strictMono.lt_iff_lt
  have hgt : y.units < x.units ↔ y.magnitude < x.magnitude := unitsOf_strictMono.lt_iff_lt
  have hzero : ∀ z : Binary32, 0 < z.units ↔ 0 < z.magnitude :=
    fun z => unitsOf_strictMono.lt_iff_lt (a := 0)
  have hx := hzero x
  have hy := hzero y
  rw [toRat, toRat, div_lt_div_iff_of_pos_right hpos, Int.cast_lt, orderKey, orderKey, signedUnits,
    signedUnits]
  cases x.isNegative <;> cases y.isNegative <;>
    simp only [Bool.false_eq_true, if_true, if_false] <;> omega

theorem orderKey_eq_iff : x.orderKey = y.orderKey ↔ x.toRat = y.toRat := by
  rw [le_antisymm_iff, le_antisymm_iff, ← not_lt, ← not_lt, ← not_lt, ← not_lt, orderKey_lt_iff,
    orderKey_lt_iff]

theorem eq_iff_toRat :
    x.eq y ↔ x.isNaN = false ∧ y.isNaN = false ∧ x.toRat = y.toRat := by
  rw [eq_iff, orderKey_eq_iff]

theorem lt_iff_toRat :
    x.lt y ↔ x.isNaN = false ∧ y.isNaN = false ∧ x.toRat < y.toRat := by
  rw [← orderKey_lt_iff]
  simp [lt, and_assoc]

end TagMachine.Binary32
