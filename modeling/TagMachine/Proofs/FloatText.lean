import Mathlib.Tactic.Ring
import TagMachine.Number.Shortest
import TagMachine.Proofs.NearestFloat
import TagMachine.Proofs.SignedMagnitude
import TagMachine.Proofs.WrittenDecimals

/-!
Floating-point numbers in text. The shortest decimal of a finite number lies between the midpoints
to its neighbours, since the finest grid of decimals is finer than the gaps between floating-point
numbers, and so the text of a finite number reads back as that number, bit for bit.
-/

namespace TagMachine.Binary32

/-! ## The shortest decimal -/

/-- A decimal of a grid that reads as a magnitude lies between its midpoints. -/
theorem between_of_reads {g : Grid} {m d : Nat} (h : g.reads m d) :
    Between m ((d * 10 ^ g.exponent.toNat) <<< 149) (10 ^ (-g.exponent).toNat) := by
  have hhalf : g.step = 2 * (10 ^ g.exponent.toNat <<< 149) := Nat.shiftLeft_succ _ 149
  have hx : d * g.step = 2 * ((d * 10 ^ g.exponent.toNat) <<< 149) := by
    rw [hhalf, Nat.shiftLeft_eq, Nat.shiftLeft_eq]
    generalize 2 ^ 149 = unit
    ring
  have hscale : g.scale = 10 ^ (-g.exponent).toNat := rfl
  unfold Grid.reads at h
  dsimp only at h
  rw [hx, hscale] at h
  by_cases heven : m % 2 = 0
  · rw [if_pos (by simpa using heven)] at h
    simp only [Bool.and_eq_true, decide_eq_true_eq] at h
    exact ⟨h.1, h.2, by omega⟩
  · rw [if_neg (by simpa using heven)] at h
    simp only [Bool.and_eq_true, decide_eq_true_eq] at h
    exact ⟨Nat.le_of_lt h.1, Nat.le_of_lt h.2, fun _ => ⟨Nat.ne_of_lt h.1, Nat.ne_of_lt h.2⟩⟩

theorem reads_of_nearest? {g : Grid} {m d : Nat} (h : g.nearest? m = some d) : g.reads m d := by
  unfold Grid.nearest? at h
  dsimp only at h
  split at h
  · next hd hnext =>
    split at h <;> cases h
    · exact hd
    · exact hnext
  · next hd _ =>
    cases h
    exact hd
  · next _ hnext =>
    cases h
    exact hnext
  · cases h

/-- Strictly between the midpoints every decimal reads as the magnitude. -/
theorem reads_of_lt {g : Grid} {m d : Nat}
    (hlow : (unitsOf (m - 1) + unitsOf m) * g.scale < d * g.step)
    (hhigh : d * g.step < (unitsOf m + unitsOf (m + 1)) * g.scale) : g.reads m d := by
  unfold Grid.reads
  dsimp only
  split <;> simp <;> omega

/-- The finest grid has a decimal for every magnitude. -/
theorem exists_nearest? {m : Nat} (h : 0 < m) : ∃ d, Grid.nearest? ⟨-46⟩ m = some d := by
  let g : Grid := ⟨-46⟩
  have hstep : g.step = 2 ^ 150 := by decide +kernel
  have hscale : g.scale = 10 ^ 46 := by decide +kernel
  have hfine : g.step < g.scale := by rw [hstep, hscale]; decide +kernel
  obtain ⟨hprev, hnext⟩ := unitsOf_lt h
  have hdown := Nat.div_mul_le_self (2 * unitsOf m * g.scale) g.step
  have hup :=
    Nat.lt_div_mul_add (a := 2 * unitsOf m * g.scale) (b := g.step) (by rw [hstep]; decide)
  -- the decimal just below the number is nearer than either midpoint
  have hlow : (unitsOf (m - 1) + unitsOf m) * g.scale + g.scale ≤ 2 * unitsOf m * g.scale := by
    rw [← Nat.succ_mul]
    exact Nat.mul_le_mul_right _ (by omega)
  have hhigh : 2 * unitsOf m * g.scale < (unitsOf m + unitsOf (m + 1)) * g.scale :=
    Nat.mul_lt_mul_of_pos_right (by omega) (by omega)
  have hreads : g.reads m (2 * unitsOf m * g.scale / g.step) := reads_of_lt (by omega) (by omega)
  unfold Grid.nearest?
  dsimp only
  rw [show g.reads m (2 * unitsOf m * g.scale / g.step) = true from hreads]
  cases g.reads m (2 * unitsOf m * g.scale / g.step + 1) with
  | false => exact ⟨_, rfl⟩
  | true =>
    dsimp only
    split <;> exact ⟨_, rfl⟩

/-- The shortest decimal is one of a grid, and it reads as the magnitude. -/
theorem shortest_mem {m : Nat} (h : 0 < m) :
    ∃ g ∈ grids, g.exponent = (shortest m).2 ∧ g.reads m (shortest m).1 := by
  obtain ⟨d, hd⟩ := exists_nearest? h
  have hfinest : (⟨-46⟩ : Grid) ∈ grids := List.mem_map.mpr ⟨84, by decide, rfl⟩
  unfold shortest
  cases hfind : grids.findSome? fun g => (g.nearest? m).map (·, g.exponent) with
  | none =>
    -- the search cannot fail, for it ends with the finest grid
    have hnone := List.findSome?_eq_none_iff.mp hfind _ hfinest
    rw [hd] at hnone
    cases hnone
  | some p =>
    obtain ⟨g, hg, hp⟩ := List.exists_of_findSome?_eq_some hfind
    obtain ⟨e, he, rfl⟩ := Option.map_eq_some_iff.mp hp
    exact ⟨g, hg, rfl, reads_of_nearest? he⟩

/-- No magnitude up to infinity counts more units than infinity would. -/
theorem unitsOf_le {m : Nat} (h : m ≤ infinityMagnitude) : unitsOf m ≤ 2 ^ 24 * 2 ^ 254 := by
  rcases Nat.eq_zero_or_pos m with rfl | hm
  · exact Nat.zero_le _
  · obtain ⟨k, r, rfl, -, hlt, hk⟩ := exists_significand hm
    have hk' : k ≤ 254 := by
      have hinf : infinityMagnitude = 255 * 2 ^ 23 := by decide +kernel
      omega
    rw [unitsOf_eq hk (by omega)]
    exact Nat.mul_le_mul (by omega) (Nat.pow_le_pow_right (by decide) hk')

/-- The shortest decimal of a finite magnitude has neither many digits nor a large exponent. -/
theorem shortest_bounds {m : Nat} (h : 0 < m) (hfinite : m < infinityMagnitude) :
    (shortest m).1 < 10 ^ 85 ∧ -46 ≤ (shortest m).2 ∧ (shortest m).2 ≤ 38 := by
  obtain ⟨g, hg, hexponent, hreads⟩ := shortest_mem h
  obtain ⟨k, hk, rfl⟩ := List.mem_map.mp hg
  have hk' : k < 85 := List.mem_range.mp hk
  have hbetween := (between_of_reads hreads).high
  dsimp only at hexponent hbetween
  rw [← hexponent]
  refine ⟨?_, by omega, by omega⟩
  have hscale : 10 ^ (-(38 - (k : Int))).toNat ≤ 10 ^ 46 :=
    Nat.pow_le_pow_right (by decide) (by omega)
  have hunits : unitsOf m + unitsOf (m + 1) ≤ 2 * (2 ^ 24 * 2 ^ 254) := by
    have hself := unitsOf_le (Nat.le_of_lt hfinite)
    have hnext : unitsOf (m + 1) ≤ 2 ^ 24 * 2 ^ 254 := unitsOf_le (Nat.succ_le_of_lt hfinite)
    omega
  have hpow : 1 ≤ 10 ^ (38 - (k : Int)).toNat := Nat.one_le_pow _ _ (by decide)
  rw [Nat.shiftLeft_eq] at hbetween
  -- more digits would be more than twice the units of any finite number
  by_contra hlarge
  have hcontra : 2 * (10 ^ 85 * 1 * 2 ^ 149) ≤ 2 * (2 ^ 24 * 2 ^ 254) * 10 ^ 46 := by
    calc 2 * (10 ^ 85 * 1 * 2 ^ 149)
        ≤ 2 * ((shortest m).1 * 10 ^ (38 - (k : Int)).toNat * 2 ^ 149) :=
        Nat.mul_le_mul_left _
          (Nat.mul_le_mul_right _ (Nat.mul_le_mul (Nat.le_of_not_lt hlarge) hpow))
      _ ≤ (unitsOf m + unitsOf (m + 1)) * 10 ^ (-(38 - (k : Int))).toNat := hbetween
      _ ≤ 2 * (2 ^ 24 * 2 ^ 254) * 10 ^ 46 := Nat.mul_le_mul hunits hscale
  exact absurd hcontra (by decide +kernel)

/-! ## Reading it back -/

/-- Whether a quotient lies between midpoints does not depend on how it is written. -/
theorem Between.congr {m num den num' den' : Nat} (h : Between m num den) (hden : 0 < den)
    (hden' : 0 < den') (heq : num' * den = num * den') : Between m num' den' := by
  obtain ⟨hlow, hhigh, hodd⟩ := h
  have hcross : ∀ a : Nat, a * den' * den = a * den * den' := fun a => by ring
  have hnum : 2 * num' * den = 2 * num * den' := by rw [Nat.mul_assoc, heq, Nat.mul_assoc]
  refine ⟨?_, ?_, fun hm => ⟨?_, ?_⟩⟩
  · apply Nat.le_of_mul_le_mul_right _ hden
    rw [hcross, hnum]
    exact Nat.mul_le_mul_right den' hlow
  · apply Nat.le_of_mul_le_mul_right _ hden
    rw [hcross, hnum]
    exact Nat.mul_le_mul_right den' hhigh
  · intro hsame
    apply (hodd hm).1
    apply Nat.eq_of_mul_eq_mul_right hden'
    rw [← hcross, hsame, hnum]
  · intro hsame
    apply (hodd hm).2
    apply Nat.eq_of_mul_eq_mul_right hden'
    rw [← hcross, ← hsame, hnum]

/-- The shortest decimal, written with any number of further zeros, is the number. -/
theorem toBinary32_shortest {m : Nat} (h : 0 < m) (hfinite : m < infinityMagnitude)
    (negative : Bool) (zeros : Nat) :
    Decimal.toBinary32 ⟨negative, (shortest m).1 * 10 ^ zeros, (shortest m).2 - zeros⟩ =
      ofMagnitude negative m := by
  obtain ⟨g, -, hexponent, hreads⟩ := shortest_mem h
  have hbetween := between_of_reads hreads
  rw [hexponent] at hbetween
  refine congrArg (ofMagnitude negative) ?_
  have hpow : ∀ k : Nat, 0 < 10 ^ k := fun k => Nat.pow_pos (by decide)
  generalize (shortest m).1 = d at hbetween ⊢
  generalize (shortest m).2 = e at hbetween ⊢
  -- both ways of writing the decimal give the digits times the same power of ten
  have hsum : zeros + (e - zeros).toNat + (-e).toNat = e.toNat + (-(e - zeros)).toNat := by omega
  have hvalue : (d * 10 ^ zeros * 10 ^ (e - zeros).toNat) <<< 149 * 10 ^ (-e).toNat =
      (d * 10 ^ e.toNat) <<< 149 * 10 ^ (-(e - zeros)).toNat := by
    rw [Nat.shiftLeft_eq, Nat.shiftLeft_eq]
    generalize 2 ^ 149 = unit
    calc d * 10 ^ zeros * 10 ^ (e - zeros).toNat * unit * 10 ^ (-e).toNat
        = d * unit * 10 ^ (zeros + (e - zeros).toNat + (-e).toNat) := by ring
      _ = d * unit * 10 ^ (e.toNat + (-(e - zeros)).toNat) := by rw [hsum]
      _ = d * 10 ^ e.toNat * unit * 10 ^ (-(e - zeros)).toNat := by ring
  exact roundUnits_eq (hpow _) h hfinite (hbetween.congr (hpow _) (hpow _) hvalue)

open Decimal Token

/-- Without an exponent, a decimal is written as its digits with the zeros that fill it up. -/
theorem plain_positional (negative : Bool) (d : Nat) (e : Int) :
    ∃ zeros : Nat,
      Plain (signText negative ++ positional d e) ⟨negative, d * 10 ^ zeros, e - zeros⟩ := by
  -- zeros are written up to the point, or the point is set inside the digits
  by_cases he : 0 ≤ e
  · obtain ⟨hdigits, hvalue⟩ := Bytes.nat_digits d
    have hzeros : IsDigits (Bytes.nat d ++ List.replicate e.toNat 48) :=
      hdigits.append fun x hx => by rw [List.eq_of_mem_replicate hx]; decide
    have hplain := Plain.mk negative hzeros isDigits_zero
    have htext : positional d e = Bytes.nat d ++ List.replicate e.toNat 48 ++ 46 :: [48] :=
      if_pos he
    have hdigits' : Bytes.decimalFrom 0 (Bytes.nat d ++ List.replicate e.toNat 48 ++ [48]) =
        d * 10 ^ (e.toNat + 1) := by
      rw [List.append_assoc, ← List.replicate_succ', Bytes.decimalFrom_append, hvalue,
        Bytes.decimalFrom_zeros]
    have hexponent : -(([48] : Bytes).length : Int) = e - (e.toNat + 1 : Nat) := by
      rw [List.length_singleton]
      omega
    rw [← htext, hdigits', hexponent] at hplain
    exact ⟨e.toNat + 1, hplain⟩
  · obtain ⟨places, hplaces, hpos⟩ : ∃ places : Nat, -e = places ∧ 0 < places :=
      ⟨(-e).toNat, by omega⟩
    obtain ⟨hdigits, hvalue, hlength⟩ := Bytes.natPadded_digits (places + 1) d
    have htext : positional d e =
        (Bytes.natPadded (places + 1) d).take ((Bytes.natPadded (places + 1) d).length - places) ++
          46 :: (Bytes.natPadded (places + 1) d).drop
            ((Bytes.natPadded (places + 1) d).length - places) := by
      unfold positional
      rw [if_neg he, hplaces]
      rfl
    generalize Bytes.natPadded (places + 1) d = all at *
    have hplain := Plain.mk negative (hdigits.take (k := all.length - places) (by omega))
      (hdigits.drop (k := all.length - places) (by omega))
    have hexponent : -((all.drop (all.length - places)).length : Int) = e - (0 : Nat) := by
      rw [List.length_drop]
      omega
    rw [← htext, List.take_append_drop, hvalue, hexponent] at hplain
    exact ⟨0, by simpa using hplain⟩

/-- With an exponent, a decimal is written as its digits, with one more zero if there is but one. -/
theorem scientific_scientific (negative : Bool) (d : Nat) (e : Int) :
    ∃ zeros : Nat, Scientific (e + (Bytes.nat d).length - 1) (signText negative ++ scientific d e)
      ⟨negative, d * 10 ^ zeros, e - zeros⟩ := by
  obtain ⟨⟨hne, hdigits⟩, hvalue⟩ := Bytes.nat_digits d
  obtain ⟨down, es, hint, hes, hexponent⟩ := int_eq_signText (e + (Bytes.nat d).length - 1)
  have htext : scientific d e = (Bytes.nat d).take 1 ++
      46 :: (if (Bytes.nat d).length ≤ 1 then [48] else (Bytes.nat d).drop 1) ++
        69 :: Bytes.int (e + (Bytes.nat d).length - 1) := rfl
  rw [htext, hint]
  generalize Bytes.nat d = all at *
  cases all with
  | nil => exact absurd rfl hne
  | cons x fs =>
    obtain ⟨hx, hfs⟩ := List.forall_mem_cons.mp hdigits
    cases fs with
    | nil =>
      have hwritten := Scientific.mk negative hx isDigits_zero hes hexponent
      refine ⟨1, ?_⟩
      have hdigits' : Bytes.decimalFrom 0 [x, 48] = d * 10 ^ 1 := by
        rw [← hvalue]
        rfl
      rw [hdigits'] at hwritten
      simpa using hwritten
    | cons y fs =>
      have hwritten := Scientific.mk negative hx ⟨by simp, hfs⟩ hes hexponent
      refine ⟨0, ?_⟩
      rw [hvalue] at hwritten
      have hshift : e + ((x :: y :: fs).length : Int) - 1 - ((y :: fs).length : Int) =
          e - (0 : Nat) := by
        simp only [List.length_cons]
        omega
      rw [hshift] at hwritten
      simpa using hwritten

/-- The text of a finite number is a decimal that rounds to it. It has an exponent exactly if the
number is neither zero nor positional. -/
theorem exists_text {x : Binary32} (h : x.isFinite) :
    ∃ v : Decimal, v.toBinary32 = x ∧
      ((x.isZero ∨ x.isPositional) ∧ Plain x.text v ∨
        ¬ (x.isZero ∨ x.isPositional) ∧ ∃ e : Int, e.natAbs < 100000 ∧ Scientific e x.text v) := by
  have hfinite : x.magnitude < infinityMagnitude := by simpa [isFinite] using h
  have hself := ofMagnitude_self x
  unfold text
  dsimp only
  rw [isNaN_of_isFinite h, isInfinite_of_isFinite h, if_neg Bool.false_ne_true,
    if_neg Bool.false_ne_true]
  by_cases hzero : x.isZero
  · rw [if_pos hzero]
    have htext : Bytes.ofString "0.0" = [48] ++ 46 :: [48] := by decide +kernel
    have hplain := Plain.mk x.isNegative isDigits_zero isDigits_zero
    rw [← htext] at hplain
    refine ⟨_, ?_, Or.inl ⟨Or.inl hzero, hplain⟩⟩
    have hmagnitude : x.magnitude = 0 := by simpa [isZero] using hzero
    have hround : ∀ negative, toBinary32 ⟨negative, 0, -1⟩ = ofMagnitude negative 0 := by
      decide +kernel
    rw [hmagnitude, ← hround] at hself
    exact hself
  · rw [if_neg hzero]
    have hpos : 0 < x.magnitude := Nat.pos_of_ne_zero (by simpa [isZero] using hzero)
    obtain ⟨hd, hlow, hhigh⟩ := shortest_bounds hpos hfinite
    have hround := toBinary32_shortest hpos hfinite x.isNegative
    rw [hself] at hround
    generalize shortest x.magnitude = decimal at *
    obtain ⟨d, e⟩ := decimal
    dsimp only at hd hlow hhigh hround ⊢
    by_cases hpositional : x.isPositional
    · obtain ⟨zeros, hplain⟩ := plain_positional x.isNegative d e
      simp only [hpositional]
      exact ⟨_, hround zeros, Or.inl ⟨Or.inr trivial, hplain⟩⟩
    · have hlength := Bytes.length_nat_le (k := 84) hd
      obtain ⟨zeros, hscientific⟩ := scientific_scientific x.isNegative d e
      simp only [hpositional]
      exact ⟨_, hround zeros, Or.inr ⟨by simp [hzero], _, by omega, hscientific⟩⟩

/-- The text of a finite number is a number that stands for a decimal that rounds to it. -/
theorem written_text {x : Binary32} (h : x.isFinite) :
    ∃ v, Written leading x.text v ∧ v.toBinary32 = x := by
  obtain ⟨v, hround, ⟨-, hplain⟩ | ⟨-, e, hsmall, hscientific⟩⟩ := exists_text h
  · exact ⟨v, hplain.written, hround⟩
  · exact ⟨v, hscientific.written hsmall, hround⟩

end TagMachine.Binary32
