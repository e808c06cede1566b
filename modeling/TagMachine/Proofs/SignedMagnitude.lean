import Mathlib.Algebra.Ring.Nat
import TagMachine.Number.Binary32

/-!
The sign and the magnitude of a floating-point number. Together they are the number. Numbers that
compare as equal are the same or the two zeros, and the only integer that rounds to a zero is zero.
-/

namespace TagMachine.Binary32

variable {x y z : Binary32}

/-! ## Patterns -/

theorem isNegative_ofMagnitude (negative : Bool) {m : Nat} (h : m < 2 ^ 31) :
    (ofMagnitude negative m).isNegative = negative := by
  unfold ofMagnitude isNegative
  cases negative <;> simp <;> omega

theorem magnitude_ofMagnitude (negative : Bool) {m : Nat} (h : m < 2 ^ 31) :
    (ofMagnitude negative m).magnitude = m := by
  unfold ofMagnitude magnitude
  cases negative <;> simp <;> omega

/-- A number is its sign and its magnitude. -/
theorem ofMagnitude_self (x : Binary32) : ofMagnitude x.isNegative x.magnitude = x := by
  obtain ⟨bits⟩ := x
  have hlt := bits.toNat_lt
  unfold ofMagnitude isNegative magnitude
  simp only [Nat.one_shiftLeft, Binary32.mk.injEq, ← UInt32.toNat_inj, decide_eq_true_eq]
  split <;> simp <;> omega

theorem eq_of_isNegative_of_magnitude (hsign : y.isNegative = x.isNegative)
    (hmagnitude : y.magnitude = x.magnitude) : y = x := by
  rw [← ofMagnitude_self y, hsign, hmagnitude, ofMagnitude_self]

/-! ## Zeros -/

theorem isZero_iff (x : Binary32) : x.isZero ↔ x.magnitude = 0 := by
  unfold isZero
  exact beq_iff_eq

theorem isZero_iff_eq_zero (x : Binary32) : x.isZero ↔ x = zero false ∨ x = zero true := by
  constructor
  · intro h
    have hself := ofMagnitude_self x
    rw [(isZero_iff x).mp h] at hself
    cases hsign : x.isNegative with
    | false =>
      rw [hsign] at hself
      exact Or.inl hself.symm
    | true =>
      rw [hsign] at hself
      exact Or.inr hself.symm
  · rintro (rfl | rfl) <;> decide

theorem isNaN_of_isZero (h : x.isZero) : x.isNaN = false := by
  unfold isNaN
  rw [(isZero_iff x).mp h]
  rfl

theorem isInfinite_of_isFinite (h : x.isFinite) : x.isInfinite = false := by
  have hlt : x.magnitude < infinityMagnitude := by simpa [isFinite] using h
  simp [isInfinite, Nat.ne_of_lt hlt]

theorem isNaN_of_isFinite (h : x.isFinite) : x.isNaN = false := by
  rw [isFinite, decide_eq_true_eq] at h
  rw [isNaN, decide_eq_false_iff_not]
  omega

theorem isZero_neg (h : x.isZero) : x.neg.isZero := by
  rw [isZero_iff] at h ⊢
  unfold neg
  rw [h, magnitude_ofMagnitude _ (by decide)]

theorem roundUnits_le (num den : Nat) : roundUnits num den ≤ infinityMagnitude :=
  Nat.min_le_right _ _

theorem roundUnits_lt (num den : Nat) : roundUnits num den < 2 ^ 31 :=
  Nat.lt_of_le_of_lt (roundUnits_le num den) (by decide)

/-- No other integer is so small that it rounds to zero. -/
theorem isZero_ofInt_iff (i : Int) : (ofInt i).isZero ↔ i = 0 := by
  rw [isZero_iff, ofInt, ofUnits, magnitude_ofMagnitude _ (roundUnits_lt _ _)]
  by_cases hi : i = 0
  · subst hi
    decide
  · have hlarge : 2 ^ 149 ≤ i.natAbs <<< 149 := by
      rw [Nat.shiftLeft_eq]
      exact Nat.le_mul_of_pos_left _ (by omega)
    have hlog : 149 ≤ (i.natAbs <<< 149).log2 := (Nat.le_log2 (by omega)).mpr hlarge
    -- the exponent alone makes the pattern larger than zero
    have hne : roundUnits (i.natAbs <<< 149) 1 ≠ 0 := by
      unfold roundUnits excess infinityMagnitude
      simp only [Nat.div_one, Nat.shiftLeft_eq] at hlog ⊢
      omega
    simp only [hne, hi]

/-! ## Comparison -/

theorem eq_iff :
    x.eq y ↔ x.isNaN = false ∧ y.isNaN = false ∧ x.orderKey = y.orderKey := by
  unfold eq
  simp only [Bool.and_eq_true, Bool.not_eq_true', beq_iff_eq, and_assoc]

theorem eq_symm (h : x.eq y) : y.eq x := by
  obtain ⟨hx, hy, hkey⟩ := eq_iff.mp h
  exact eq_iff.mpr ⟨hy, hx, hkey.symm⟩

theorem eq_trans (h : x.eq y) (h' : y.eq z) : x.eq z := by
  obtain ⟨hx, -, hxy⟩ := eq_iff.mp h
  obtain ⟨-, hz, hyz⟩ := eq_iff.mp h'
  exact eq_iff.mpr ⟨hx, hz, hxy.trans hyz⟩

/-- Equal numbers are no NaN, and they are the same but for the sign of a zero. -/
theorem eq_iff_same : x.eq y ↔ x.isNaN = false ∧ (y = x ∨ x.isZero ∧ y = x.neg) := by
  constructor
  · intro h
    obtain ⟨hx, -, hkey⟩ := eq_iff.mp h
    refine ⟨hx, ?_⟩
    unfold orderKey at hkey
    by_cases hsign : y.isNegative = x.isNegative
    · left
      refine eq_of_isNegative_of_magnitude hsign ?_
      rw [hsign] at hkey
      split at hkey <;> omega
    · -- on both sides of zero the keys agree only at zero
      right
      have hflip : y.isNegative = !x.isNegative := by
        cases hxs : x.isNegative <;> cases hys : y.isNegative <;> simp_all
      have hzero : x.magnitude = 0 ∧ y.magnitude = 0 := by
        rw [hflip] at hkey
        cases hxs : x.isNegative <;> simp only [hxs, Bool.not_true, Bool.not_false, if_true,
          Bool.false_eq_true, if_false] at hkey <;> omega
      refine ⟨(isZero_iff x).mpr hzero.1, ?_⟩
      rw [neg, ← hflip, hzero.1, ← hzero.2, ofMagnitude_self]
  · rintro ⟨hx, rfl | ⟨hzero, rfl⟩⟩
    · exact eq_iff.mpr ⟨hx, hx, rfl⟩
    · refine eq_iff.mpr ⟨hx, isNaN_of_isZero (isZero_neg hzero), ?_⟩
      unfold orderKey
      rw [(isZero_iff _).mp hzero, (isZero_iff _).mp (isZero_neg hzero)]
      simp

end TagMachine.Binary32
