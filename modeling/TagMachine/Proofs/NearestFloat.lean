import Mathlib.Tactic.Ring
import TagMachine.Number.Binary32

/-!
Rounding to the nearest floating-point number. A quotient between the midpoints of a finite
magnitude and its two neighbours rounds to that magnitude, and so does one on a midpoint if the
magnitude is even. No other magnitude is nearer to a quotient than the one it rounds to.
-/

namespace TagMachine.Binary32

/-! ## Magnitudes -/

/-- A magnitude with `r` in its last 24 bits counts `r` times a power of two of units. -/
theorem unitsOf_eq {k r : Nat} (h : k = 0 ∨ 2 ^ 23 ≤ r) (hr : r ≤ 2 ^ 24) :
    unitsOf (k * 2 ^ 23 + r) = r * 2 ^ k := by
  unfold unitsOf
  simp only [Nat.shiftLeft_eq, Nat.one_mul, Nat.shiftRight_eq_div_pow]
  by_cases hsmall : r < 2 ^ 23
  · obtain rfl : k = 0 := by omega
    rw [if_pos (by omega)]
    omega
  · rw [if_neg (by omega)]
    by_cases hcarry : r = 2 ^ 24
    · -- the fraction is full, so the magnitude is the next power of two
      subst hcarry
      have hmod : (k * 2 ^ 23 + 2 ^ 24) % 2 ^ 23 = 0 := by omega
      have hdiv : (k * 2 ^ 23 + 2 ^ 24) / 2 ^ 23 - 1 = k + 1 := by omega
      rw [hmod, hdiv, Nat.pow_succ]
      ring
    · have hmod : (k * 2 ^ 23 + r) % 2 ^ 23 = r - 2 ^ 23 := by omega
      have hdiv : (k * 2 ^ 23 + r) / 2 ^ 23 - 1 = k := by omega
      rw [hmod, hdiv, Nat.add_sub_cancel' (by omega)]

/-- Every magnitude but zero has such a form. -/
theorem exists_significand {m : Nat} (h : 0 < m) :
    ∃ k r, m = k * 2 ^ 23 + r ∧ 0 < r ∧ r < 2 ^ 24 ∧ (k = 0 ∨ 2 ^ 23 ≤ r) := by
  by_cases hsmall : m < 2 ^ 24
  · exact ⟨0, m, by omega, h, hsmall, Or.inl rfl⟩
  · exact ⟨m / 2 ^ 23 - 1, 2 ^ 23 + m % 2 ^ 23, by omega, by omega, by omega, Or.inr (by omega)⟩

/-- The units of the neighbours of a magnitude. Below a power of two, they lie half as far apart. -/
theorem unitsOf_neighbours {k r : Nat} (hr : 0 < r) (hlt : r < 2 ^ 24) (h : k = 0 ∨ 2 ^ 23 ≤ r) :
    unitsOf (k * 2 ^ 23 + r + 1) = (r + 1) * 2 ^ k ∧
      ((k = 0 ∨ 2 ^ 23 < r) ∧ unitsOf (k * 2 ^ 23 + r - 1) = (r - 1) * 2 ^ k ∨
        ∃ j, k = j + 1 ∧ r = 2 ^ 23 ∧ unitsOf (k * 2 ^ 23 + r - 1) = (2 ^ 24 - 1) * 2 ^ j) := by
  constructor
  · rw [Nat.add_assoc, unitsOf_eq (by omega) (by omega)]
  · by_cases hedge : k = 0 ∨ 2 ^ 23 < r
    · left
      have hpred : k * 2 ^ 23 + r - 1 = k * 2 ^ 23 + (r - 1) := by omega
      exact ⟨hedge, by rw [hpred, unitsOf_eq (by omega) (by omega)]⟩
    · right
      obtain ⟨j, rfl⟩ : ∃ j, k = j + 1 := ⟨k - 1, by omega⟩
      have hpred : (j + 1) * 2 ^ 23 + r - 1 = j * 2 ^ 23 + (2 ^ 24 - 1) := by omega
      refine ⟨j, rfl, by omega, ?_⟩
      rw [hpred, unitsOf_eq (by omega) (by omega)]

/-- Larger magnitudes count more units. -/
theorem unitsOf_lt {m : Nat} (h : 0 < m) :
    unitsOf (m - 1) < unitsOf m ∧ unitsOf m < unitsOf (m + 1) := by
  obtain ⟨k, r, rfl, hr, hlt, hk⟩ := exists_significand h
  obtain ⟨hnext, hprev⟩ := unitsOf_neighbours hr hlt hk
  have hpow : 0 < 2 ^ k := Nat.two_pow_pos k
  rw [unitsOf_eq hk (by omega), hnext]
  refine ⟨?_, Nat.mul_lt_mul_of_pos_right (by omega) hpow⟩
  rcases hprev with ⟨-, hprev⟩ | ⟨j, rfl, rfl, hprev⟩
  · rw [hprev]
    exact Nat.mul_lt_mul_of_pos_right (by omega) hpow
  · have hj := Nat.two_pow_pos j
    rw [hprev, Nat.pow_succ]
    omega

/-! ## Rounding -/

/-- Twice a quotient lies within one of `2 * r`, and on the edge only if `r` is even. -/
def Within (r num den : Nat) : Prop :=
  (2 * r - 1) * den ≤ 2 * num ∧ 2 * num ≤ (2 * r + 1) * den ∧
    (r % 2 = 1 → (2 * r - 1) * den ≠ 2 * num ∧ 2 * num ≠ (2 * r + 1) * den)

theorem roundHalfEven_of_within {r num den : Nat} (hden : 0 < den) (h : Within r num den) :
    roundHalfEven num den = r := by
  obtain ⟨hlow, hhigh, hodd⟩ := h
  have hsplit := Nat.div_add_mod num den
  have hrem := Nat.mod_lt num hden
  unfold roundHalfEven
  dsimp only
  generalize num / den = q at *
  generalize num % den = s at *
  subst hsplit
  -- the quotient is `r` or one less
  have hq : q ≤ r := by
    have : 2 * q * den ≤ (2 * r + 1) * den := by
      calc 2 * q * den = 2 * (den * q) := by ring
        _ ≤ 2 * (den * q + s) := by omega
        _ ≤ (2 * r + 1) * den := hhigh
    have := Nat.le_of_mul_le_mul_right this hden
    omega
  have hr : r ≤ q + 1 := by
    have : (2 * r - 1) * den < (2 * q + 2) * den := by
      calc (2 * r - 1) * den ≤ 2 * (den * q + s) := hlow
        _ < 2 * (den * q + den) := by omega
        _ = (2 * q + 2) * den := by ring
    have := Nat.lt_of_mul_lt_mul_right this
    omega
  rcases Nat.lt_or_eq_of_le hq with hlt | rfl
  · obtain rfl : r = q + 1 := by omega
    have hdouble : (2 * (q + 1) - 1) * den = 2 * (den * q) + den := by
      rw [show 2 * (q + 1) - 1 = 2 * q + 1 by omega]
      ring
    rw [hdouble] at hlow hodd
    refine if_pos ?_
    by_cases hedge : den = 2 * s
    · refine Or.inr ⟨hedge, ?_⟩
      by_contra heven
      exact (hodd (by omega)).1 (by omega)
    · left
      omega
  · have hdouble : (2 * q + 1) * den = 2 * (den * q) + den := by ring
    rw [hdouble] at hhigh hodd
    refine if_neg ?_
    rintro (hs | ⟨hedge, hone⟩)
    · omega
    · exact (hodd hone).2 (by omega)

/-- The quotient exceeds 24 bits by just `k`. -/
theorem excess_eq {k num den : Nat} (hden : 0 < den) (hhigh : num < 2 ^ (24 + k) * den)
    (hlow : k = 0 ∨ 2 ^ (23 + k) * den ≤ num) : excess (num / den) = k := by
  have hlt : num / den < 2 ^ (24 + k) := (Nat.div_lt_iff_lt_mul hden).mpr hhigh
  unfold excess
  -- below 2^24 nothing is in excess, whatever the leading bit
  rcases hlow with rfl | hlow
  · by_cases hzero : num / den = 0
    · rw [hzero]
      rfl
    · have := (Nat.log2_lt hzero).mpr hlt
      omega
  · have hle : 2 ^ (23 + k) ≤ num / den := (Nat.le_div_iff_mul_le hden).mpr hlow
    have hne : num / den ≠ 0 := by
      have := Nat.two_pow_pos (23 + k)
      omega
    have hup := (Nat.log2_lt hne).mpr hlt
    have hdown := (Nat.le_log2 hne).mpr hle
    omega

theorem roundUnits_of_within {k r num den : Nat} (hden : 0 < den)
    (hfinite : k * 2 ^ 23 + r ≤ infinityMagnitude) (hhigh : num < 2 ^ (24 + k) * den)
    (hlow : k = 0 ∨ 2 ^ (23 + k) * den ≤ num) (h : Within r num (den * 2 ^ k)) :
    roundUnits num den = k * 2 ^ 23 + r := by
  have hpos : 0 < den * 2 ^ k := Nat.mul_pos hden (Nat.two_pow_pos k)
  unfold roundUnits
  simp only [Nat.shiftLeft_eq, excess_eq hden hhigh hlow, roundHalfEven_of_within hpos h]
  exact Nat.min_eq_left hfinite

/-- A quotient lies between the midpoints of a magnitude and its two neighbours, and on one only if
the magnitude is even. -/
structure Between (m num den : Nat) : Prop where
  low : (unitsOf (m - 1) + unitsOf m) * den ≤ 2 * num
  high : 2 * num ≤ (unitsOf m + unitsOf (m + 1)) * den
  odd : m % 2 = 1 → (unitsOf (m - 1) + unitsOf m) * den ≠ 2 * num ∧
    2 * num ≠ (unitsOf m + unitsOf (m + 1)) * den

/-- At the powers of two the lower neighbour is half as far away as the upper one. A quotient on
that side has one bit less and rounds up to the power. -/
theorem roundUnits_of_power {j num den : Nat} (hden : 0 < den)
    (hfinite : (j + 1) * 2 ^ 23 + 2 ^ 23 < infinityMagnitude)
    (hlow : ((2 ^ 24 - 1) * 2 ^ j + 2 ^ 23 * 2 ^ (j + 1)) * den ≤ 2 * num)
    (hhigh : 2 * num ≤ (2 * 2 ^ 23 + 1) * (den * 2 ^ (j + 1))) :
    roundUnits num den = (j + 1) * 2 ^ 23 + 2 ^ 23 := by
  have hpos : 0 < den * 2 ^ j := Nat.mul_pos hden (Nat.two_pow_pos j)
  have hdouble : den * 2 ^ (j + 1) = 2 * (den * 2 ^ j) := by ring
  have hlow' : (2 ^ 25 - 1) * (den * 2 ^ j) ≤ 2 * num := by
    calc (2 ^ 25 - 1) * (den * 2 ^ j)
        = ((2 ^ 24 - 1) * 2 ^ j + 2 ^ 23 * 2 ^ (j + 1)) * den := by ring
      _ ≤ 2 * num := hlow
  have hpower : 2 ^ (23 + (j + 1)) * den = 2 ^ 24 * (den * 2 ^ j) := by ring
  by_cases hside : 2 ^ (23 + (j + 1)) * den ≤ num
  · refine roundUnits_of_within hden (by omega) ?_ (Or.inr hside) ⟨?_, hhigh, by omega⟩
    · have hnext : 2 ^ (24 + (j + 1)) * den = 2 ^ 25 * (den * 2 ^ j) := by ring
      omega
    · omega
  · have hcarry : (j + 1) * 2 ^ 23 + 2 ^ 23 = j * 2 ^ 23 + 2 ^ 24 := by omega
    have hsame : 2 ^ (24 + j) * den = 2 ^ 24 * (den * 2 ^ j) := by ring
    have hhalf : 2 ^ (23 + j) * den = 2 ^ 23 * (den * 2 ^ j) := by ring
    rw [hcarry]
    refine roundUnits_of_within hden (by omega) (by omega) (Or.inr (by omega)) ⟨?_, ?_, by omega⟩
    · exact hlow'
    · omega

theorem roundUnits_eq {m num den : Nat} (hden : 0 < den) (hm : 0 < m)
    (hfinite : m < infinityMagnitude) (h : Between m num den) : roundUnits num den = m := by
  obtain ⟨k, r, rfl, hr, hlt, hk⟩ := exists_significand hm
  obtain ⟨hnext, hprev⟩ := unitsOf_neighbours hr hlt hk
  obtain ⟨hlow, hhigh, hodd⟩ := h
  have hunits : unitsOf (k * 2 ^ 23 + r) = r * 2 ^ k := unitsOf_eq hk (by omega)
  have hmid : (r * 2 ^ k + (r + 1) * 2 ^ k) * den = (2 * r + 1) * (den * 2 ^ k) := by ring
  rw [hunits, hnext, hmid] at hhigh hodd
  rw [hunits] at hlow
  -- only at a power of two do the two midpoints lie at different distances
  rcases hprev with ⟨hedge, hprev⟩ | ⟨j, rfl, rfl, hprev⟩
  · have hmid : ((r - 1) * 2 ^ k + r * 2 ^ k) * den = (2 * r - 1) * (den * 2 ^ k) := by
      obtain ⟨s, rfl⟩ : ∃ s, r = s + 1 := ⟨r - 1, by omega⟩
      rw [Nat.add_sub_cancel, show 2 * (s + 1) - 1 = 2 * s + 1 by omega]
      ring
    rw [hprev, hmid] at hlow hodd
    have hpos : 0 < den * 2 ^ k := Nat.mul_pos hden (Nat.two_pow_pos k)
    refine roundUnits_of_within hden (by omega) ?_ ?_ ⟨hlow, hhigh, fun hone => hodd (by omega)⟩
    · have hbound : (2 * r + 1) * (den * 2 ^ k) ≤ (2 ^ 25 - 1) * (den * 2 ^ k) :=
        Nat.mul_le_mul_right _ (by omega)
      have hpower : 2 ^ (24 + k) * den = 2 ^ 24 * (den * 2 ^ k) := by ring
      omega
    · refine hedge.imp id fun hr => ?_
      have hbound : (2 ^ 24 + 1) * (den * 2 ^ k) ≤ (2 * r - 1) * (den * 2 ^ k) :=
        Nat.mul_le_mul_right _ (by omega)
      have hpower : 2 ^ (23 + k) * den = 2 ^ 23 * (den * 2 ^ k) := by ring
      omega
  · rw [hprev] at hlow
    exact roundUnits_of_power hden hfinite hlow hhigh

/-! ## The nearest magnitude -/

/-- Rounding to a whole number moves a quotient by at most one half, and by just that only to an
even one. -/
theorem within_roundHalfEven (num : Nat) {den : Nat} (hden : 0 < den) :
    Within (roundHalfEven num den) num den := by
  have hsplit := Nat.div_add_mod num den
  have hrem := Nat.mod_lt num hden
  unfold roundHalfEven Within
  dsimp only
  generalize num / den = q at *
  generalize num % den = s at *
  subst hsplit
  have hmiddle : (2 * q + 1) * den = 2 * (den * q) + den := by ring
  by_cases hup : den < 2 * s ∨ (den = 2 * s ∧ q % 2 = 1)
  · have habove : (2 * (q + 1) + 1) * den = 2 * (den * q) + 3 * den := by ring
    rw [if_pos hup, habove, show 2 * (q + 1) - 1 = 2 * q + 1 by omega, hmiddle]
    omega
  · rw [if_neg hup, hmiddle]
    have hbelow : (2 * q - 1) * den ≤ 2 * (den * q) ∧
        (q % 2 = 1 → (2 * q - 1) * den < 2 * (den * q)) := by
      have hwhole : 2 * q * den = 2 * (den * q) := by ring
      refine ⟨?_, ?_⟩
      · rw [← hwhole]
        exact Nat.mul_le_mul_right _ (by omega)
      · intro hodd
        rw [← hwhole]
        exact Nat.mul_lt_mul_of_pos_right (by omega) hden
    omega

/-- No whole number is nearer than one within a half, and only an even one shares its distance. -/
theorem Within.nearest {r num den : Nat} (h : Within r num den) (s : Nat) :
    ((r * den : Nat) - (num : Int)).natAbs ≤ ((s * den : Nat) - (num : Int)).natAbs ∧
      (((s * den : Nat) - (num : Int)).natAbs = ((r * den : Nat) - (num : Int)).natAbs →
        s = r ∨ r % 2 = 0 ∨ den = 0) := by
  obtain ⟨hlow, hhigh, hodd⟩ := h
  have hmiddle : (2 * r + 1) * den = 2 * (r * den) + den := by ring
  have hbelow : 2 * (r * den) ≤ (2 * r - 1) * den + den := by
    calc 2 * (r * den) = 2 * r * den := by ring
      _ ≤ (2 * r - 1 + 1) * den := Nat.mul_le_mul_right _ (by omega)
      _ = (2 * r - 1) * den + den := by ring
  rw [hmiddle] at hhigh hodd
  rcases Nat.lt_trichotomy s r with hlt | rfl | hgt
  · have hstep : s * den + den ≤ r * den := by
      calc s * den + den = (s + 1) * den := by ring
        _ ≤ r * den := Nat.mul_le_mul_right _ hlt
    omega
  · exact ⟨Nat.le_refl _, fun _ => Or.inl rfl⟩
  · have hstep : r * den + den ≤ s * den := by
      calc r * den + den = (r + 1) * den := by ring
        _ ≤ s * den := Nat.mul_le_mul_right _ hgt
    omega

/-- A quotient is rounded to steps of a power of two, one step for each unit where it has no more
than 24 bits. -/
theorem exists_steps (num : Nat) {den : Nat} (hden : 0 < den) :
    ∃ k r, roundUnits num den = min (k * 2 ^ 23 + r) infinityMagnitude ∧
      Within r num (den * 2 ^ k) ∧ num < 2 ^ (24 + k) * den ∧
      (k = 0 ∨ 2 ^ (23 + k) * den ≤ num) ∧ r ≤ 2 ^ 24 ∧ (k = 0 ∨ 2 ^ 23 ≤ r) := by
  obtain ⟨k, hk⟩ : ∃ k, k = excess (num / den) := ⟨_, rfl⟩
  obtain ⟨r, hr⟩ : ∃ r, r = roundHalfEven num (den * 2 ^ k) := ⟨_, rfl⟩
  have hpos : 0 < den * 2 ^ k := Nat.mul_pos hden (Nat.two_pow_pos k)
  have hwithin : Within r num (den * 2 ^ k) := by
    rw [hr]
    exact within_roundHalfEven num hpos
  have hround : roundUnits num den = min (k * 2 ^ 23 + r) infinityMagnitude := by
    unfold roundUnits
    simp only [Nat.shiftLeft_eq, ← hk, ← hr]
  unfold excess at hk
  -- the quotient has 24 bits beyond the steps, or there are no steps and it has at most 24
  have hhigh : num < 2 ^ (24 + k) * den := by
    have hlog := Nat.lt_log2_self (n := num / den)
    have hpow : 2 ^ ((num / den).log2 + 1) ≤ 2 ^ (24 + k) := by
      exact Nat.pow_le_pow_right (by decide) (by omega)
    exact (Nat.div_lt_iff_lt_mul hden).mp (Nat.lt_of_lt_of_le hlog hpow)
  have hlow : k = 0 ∨ 2 ^ (23 + k) * den ≤ num := by
    by_cases hzero : k = 0
    · exact Or.inl hzero
    · have hlog : (num / den).log2 = 23 + k := by omega
      have hne : num / den ≠ 0 := by
        intro hnone
        rw [hnone, Nat.log2_zero] at hlog
        omega
      refine Or.inr ((Nat.le_div_iff_mul_le hden).mp ?_)
      rw [← hlog]
      exact Nat.log2_self_le hne
  refine ⟨k, r, hround, hwithin, hhigh, hlow, ?_, hlow.imp id fun hle => ?_⟩
  · have hpower : 2 ^ (24 + k) * den = 2 ^ 24 * (den * 2 ^ k) := by ring
    have hlt : (2 * r - 1) * (den * 2 ^ k) < 2 ^ 25 * (den * 2 ^ k) := by
      have := hwithin.1
      omega
    have := Nat.lt_of_mul_lt_mul_right hlt
    omega
  · have hpower : 2 ^ (23 + k) * den = 2 ^ 23 * (den * 2 ^ k) := by ring
    have hge : 2 ^ 24 * (den * 2 ^ k) ≤ (2 * r + 1) * (den * 2 ^ k) := by
      have := hwithin.2.1
      omega
    have := Nat.le_of_mul_le_mul_right hge hpos
    omega

/-- A quotient rounds to a finite magnitude exactly if it lies below the midpoint of the largest one
and the power of two above it. -/
theorem roundUnits_lt_iff {num den : Nat} (hden : 0 < den) :
    roundUnits num den < infinityMagnitude ↔ num < (2 ^ 25 - 1) * (den * 2 ^ 252) := by
  obtain ⟨k, r, hround, ⟨hdown, hup, hodd⟩, hhigh, hlow, hmost, hnormal⟩ := exists_steps num hden
  have hinfinity : infinityMagnitude = 253 * 2 ^ 23 + 2 ^ 24 := by decide
  have hpos : 0 < den * 2 ^ 252 := Nat.mul_pos hden (Nat.two_pow_pos 252)
  have hfinite : roundUnits num den < infinityMagnitude ↔
      k * 2 ^ 23 + r < 253 * 2 ^ 23 + 2 ^ 24 := by
    omega
  have hmono : ∀ {i j : Nat}, i ≤ j → 2 ^ i * den ≤ 2 ^ j * den := fun h =>
    Nat.mul_le_mul_right den (Nat.pow_le_pow_right (by decide) h)
  have hscale : ∀ j, 2 ^ (j + 252) * den = 2 ^ j * (den * 2 ^ 252) := fun j => by ring
  rw [hfinite]
  -- 253 steps lead to the largest magnitude, so only there does the midpoint decide
  rcases Nat.lt_trichotomy k 253 with hk | rfl | hk
  · have hpower : 2 ^ (24 + k) * den ≤ 2 ^ 24 * (den * 2 ^ 252) := by
      rw [← hscale]
      exact hmono (by omega)
    omega
  · have hdouble : den * 2 ^ 253 = 2 * (den * 2 ^ 252) := by ring
    rw [hdouble] at hdown hup hodd
    constructor
    · intro hlt
      by_cases hlast : r = 2 ^ 24 - 1
      · subst hlast
        have := (hodd (by decide)).2
        omega
      · have hbound : (2 * r + 1) * (2 * (den * 2 ^ 252)) ≤ (2 ^ 25 - 3) * (2 * (den * 2 ^ 252)) :=
          Nat.mul_le_mul_right _ (by omega)
        omega
    · intro hsmall
      have hlt : (2 * r - 1) * (2 * (den * 2 ^ 252)) < (2 ^ 25 - 1) * (2 * (den * 2 ^ 252)) := by
        omega
      have := Nat.lt_of_mul_lt_mul_right hlt
      omega
  · have hpower : 2 ^ 25 * (den * 2 ^ 252) ≤ 2 ^ (23 + k) * den := by
      rw [← hscale]
      exact hmono (by omega)
    omega

/-- A finite magnitude counts the steps that it was rounded to. -/
theorem roundUnits_steps {num den : Nat} (hden : 0 < den)
    (hfinite : roundUnits num den < infinityMagnitude) :
    ∃ k r, roundUnits num den = k * 2 ^ 23 + r ∧ unitsOf (roundUnits num den) = r * 2 ^ k ∧
      Within r num (den * 2 ^ k) ∧ (k = 0 ∨ 2 ^ (23 + k) * den ≤ num) := by
  obtain ⟨k, r, hround, hwithin, -, hlow, hmost, hnormal⟩ := exists_steps num hden
  have heq : roundUnits num den = k * 2 ^ 23 + r := by omega
  refine ⟨k, r, heq, ?_, hwithin, hlow⟩
  rw [heq, unitsOf_eq hnormal hmost]

/-- A magnitude counts whole steps, or it lies below the numbers with 24 bits beyond them. -/
theorem unitsOf_steps (m k : Nat) :
    (∃ s, unitsOf m = s * 2 ^ k) ∨ 0 < k ∧ unitsOf m < 2 ^ (23 + k) := by
  rcases Nat.eq_zero_or_pos m with rfl | hm
  · exact Or.inl ⟨0, by simp [unitsOf]⟩
  · obtain ⟨j, r, rfl, -, hlt, hj⟩ := exists_significand hm
    rw [unitsOf_eq hj (by omega)]
    by_cases hle : k ≤ j
    · refine Or.inl ⟨r * 2 ^ (j - k), ?_⟩
      rw [Nat.mul_assoc, ← Nat.pow_add, Nat.sub_add_cancel hle]
    · refine Or.inr ⟨by omega, ?_⟩
      calc r * 2 ^ j < 2 ^ 24 * 2 ^ j := Nat.mul_lt_mul_of_pos_right hlt (Nat.two_pow_pos j)
        _ = 2 ^ (24 + j) := by rw [← Nat.pow_add]
        _ ≤ 2 ^ (23 + k) := Nat.pow_le_pow_right (by decide) (by omega)

/-- How far a magnitude is from a quotient of units, times the divisor. -/
def distance (m num den : Nat) : Nat := ((unitsOf m * den : Nat) - (num : Int)).natAbs

/-- No magnitude is nearer to a quotient than the one it rounds to, and one that is as near is the
same number, or the quotient has gone to an even magnitude. -/
theorem roundUnits_nearest {num den : Nat} (hden : 0 < den)
    (hfinite : roundUnits num den < infinityMagnitude) (m : Nat) :
    distance (roundUnits num den) num den ≤ distance m num den ∧
      (distance m num den = distance (roundUnits num den) num den →
        unitsOf m = unitsOf (roundUnits num den) ∨ roundUnits num den % 2 = 0) := by
  obtain ⟨k, r, hround, hunits, hwithin, hlow⟩ := roundUnits_steps hden hfinite
  have hpos : 0 < den * 2 ^ k := Nat.mul_pos hden (Nat.two_pow_pos k)
  have hstep : ∀ s : Nat, s * 2 ^ k * den = s * (den * 2 ^ k) := fun s => by ring
  unfold distance
  rw [hunits, hstep]
  rcases unitsOf_steps m k with ⟨s, hs⟩ | ⟨hk, hsmall⟩
  · rw [hs, hstep]
    obtain ⟨hle, htie⟩ := hwithin.nearest s
    refine ⟨hle, fun heq => ?_⟩
    rcases htie heq with rfl | heven | hzero
    · exact Or.inl rfl
    · exact Or.inr (by omega)
    · omega
  · -- the first number with 24 bits beyond the steps lies between the magnitude and the quotient
    obtain ⟨hle, -⟩ := hwithin.nearest (2 ^ 23)
    have hpower : 2 ^ (23 + k) * den = 2 ^ 23 * (den * 2 ^ k) := by ring
    rw [← hpower] at hle
    have hless : unitsOf m * den < 2 ^ (23 + k) * den := Nat.mul_lt_mul_of_pos_right hsmall hden
    omega

end TagMachine.Binary32
