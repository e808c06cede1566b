import TagMachine.Proofs.CorrectRounding
import TagMachine.Proofs.DecimalText

/-!
Decimal fractions in text. A text with a point and no exponent denotes a rational number, whatever
underscores separate its digits, and it is read as the floating-point number nearest to that one.
-/

namespace TagMachine

namespace Decimal

open Binary32

/-- The number that a text of an optional sign and digits around a point denotes, and the sign. -/
inductive Denotes : Bytes → Bool → ℚ → Prop
  | plain {ds fs : Bytes} : ds ++ fs ≠ [] → (∀ d ∈ ds ++ fs, Bytes.isDigit d) →
      Denotes (ds ++ 46 :: fs) false (Bytes.decimalFrom 0 (ds ++ fs) / 10 ^ fs.length)
  | plus {ds fs : Bytes} : ds ++ fs ≠ [] → (∀ d ∈ ds ++ fs, Bytes.isDigit d) →
      Denotes (43 :: (ds ++ 46 :: fs)) false (Bytes.decimalFrom 0 (ds ++ fs) / 10 ^ fs.length)
  | minus {ds fs : Bytes} : ds ++ fs ≠ [] → (∀ d ∈ ds ++ fs, Bytes.isDigit d) →
      Denotes (45 :: (ds ++ 46 :: fs)) true (-(Bytes.decimalFrom 0 (ds ++ fs) / 10 ^ fs.length))

/-- A text without the underscores that separate its digits. -/
def joined (b : Bytes) : Bytes := b.filter (· != 95)

theorem joined_cons {x : UInt8} (h : x ≠ 95) (b : Bytes) : joined (x :: b) = x :: joined b :=
  List.filter_cons_of_pos (by simpa using h)

theorem joined_underscore (b : Bytes) : joined (95 :: b) = joined b := rfl

/-- Behind the point, all that is read is digits. -/
theorem mantissa_places {m k : Mantissa} {b : Bytes} (h : mantissa m b = (k, []))
    (hm : m.hasPoint) :
    (∀ d ∈ joined b, Bytes.isDigit d) ∧ k.value = Bytes.decimalFrom m.value (joined b) ∧
      k.places = m.places + (joined b).length ∧ (k.hasDigit → m.hasDigit ∨ joined b ≠ []) := by
  induction b generalizing m with
  | nil =>
    cases h
    exact ⟨by simp [joined], rfl, rfl, Or.inl⟩
  | cons x b ih =>
    rw [mantissa] at h
    by_cases hunder : x = 95
    · subst hunder
      rw [if_pos rfl] at h
      rw [joined_underscore]
      exact ih h hm
    · rw [if_neg hunder] at h
      rw [joined_cons hunder]
      by_cases hpoint : x = 46
      · rw [if_pos hpoint, if_pos hm] at h
        cases h
      · rw [if_neg hpoint] at h
        by_cases hdigit : Bytes.isDigit x
        · rw [if_pos hdigit] at h
          obtain ⟨hdigits, hvalue, hplaces, -⟩ := ih h hm
          refine ⟨List.forall_mem_cons.mpr ⟨hdigit, hdigits⟩, hvalue, ?_, fun _ => Or.inr (by simp)⟩
          simp only [hm, if_true] at hplaces
          rw [hplaces, List.length_cons]
          omega
        · rw [if_neg hdigit] at h
          cases h

/-- A text with a point is read as the digits on both sides of it. -/
theorem mantissa_of_point {m k : Mantissa} {b : Bytes} (h : mantissa m b = (k, []))
    (hm : m.hasPoint = false) (hmem : 46 ∈ b) :
    ∃ ds fs, joined b = ds ++ 46 :: fs ∧ (∀ d ∈ ds ++ fs, Bytes.isDigit d) ∧
      k.value = Bytes.decimalFrom m.value (ds ++ fs) ∧ k.places = m.places + fs.length ∧
      (k.hasDigit → m.hasDigit ∨ ds ++ fs ≠ []) := by
  induction b generalizing m with
  | nil => cases hmem
  | cons x b ih =>
    rw [mantissa] at h
    by_cases hunder : x = 95
    · subst hunder
      rw [if_pos rfl] at h
      rw [joined_underscore]
      exact ih h hm (by simpa using hmem)
    · rw [if_neg hunder] at h
      rw [joined_cons hunder]
      by_cases hpoint : x = 46
      · subst hpoint
        rw [if_pos rfl, hm, if_neg Bool.false_ne_true] at h
        have hplaces := mantissa_places h rfl
        exact ⟨[], joined b, rfl, hplaces⟩
      · rw [if_neg hpoint] at h
        by_cases hdigit : Bytes.isDigit x
        · rw [if_pos hdigit] at h
          have hrest : 46 ∈ b := (List.mem_cons.mp hmem).resolve_left (Ne.symm hpoint)
          obtain ⟨ds, fs, htext, hdigits, hvalue, hplaces, -⟩ := ih h hm hrest
          refine ⟨x :: ds, fs, by rw [htext]; rfl, List.forall_mem_cons.mpr ⟨hdigit, hdigits⟩,
            hvalue, ?_, fun _ => Or.inr (by simp)⟩
          rw [hplaces, hm, if_neg Bool.false_ne_true]
        · rw [if_neg hdigit] at h
          cases h

theorem mantissa_isSuffix (m : Mantissa) (b : Bytes) : (mantissa m b).2 <:+ b := by
  fun_induction mantissa m b with
  | case1 | case3 | case6 => exact List.suffix_refl _
  | case2 _ _ ih | case4 _ _ _ _ ih | case5 _ _ _ _ _ _ ih => exact ih.trans (List.suffix_cons _ _)

/-- Where no byte marks an exponent, none is read. -/
theorem exponent?_of_unmarked {b : Bytes} {e : Int} (h : exponent? b = some (e, []))
    (hmark : ∀ x ∈ b, Bytes.lower x ≠ 101) : b = [] ∧ e = 0 := by
  cases b with
  | nil =>
    cases h
    exact ⟨rfl, rfl⟩
  | cons x b =>
    rw [exponent?, if_neg (hmark x (List.mem_cons_self ..))] at h
    cases h

/-- A text is its sign and what follows it. -/
theorem eq_of_splitSign {text unsigned : Bytes} {negative : Bool}
    (h : Numeral.splitSign text = (negative, unsigned)) :
    text = 43 :: unsigned ∧ negative = false ∨ text = 45 :: unsigned ∧ negative = true ∨
      text = unsigned ∧ negative = false := by
  unfold Numeral.splitSign at h
  split at h <;> cases h <;> simp

theorem mem_of_splitSign {text unsigned : Bytes} {negative : Bool}
    (h : Numeral.splitSign text = (negative, unsigned)) :
    (∀ x ∈ unsigned, x ∈ text) ∧ (46 ∈ text → 46 ∈ unsigned) := by
  rcases eq_of_splitSign h with ⟨rfl, -⟩ | ⟨rfl, -⟩ | ⟨rfl, -⟩
  · exact ⟨fun x hx => List.mem_cons_of_mem _ hx, by simp⟩
  · exact ⟨fun x hx => List.mem_cons_of_mem _ hx, by simp⟩
  · exact ⟨fun x hx => hx, id⟩

/-- Digits around a point denote their value, with the sign in front of them. -/
theorem denotes_of_splitSign {text unsigned ds fs : Bytes} {negative : Bool}
    (h : Numeral.splitSign text = (negative, unsigned))
    (hunsigned : joined unsigned = ds ++ 46 :: fs) (hne : ds ++ fs ≠ [])
    (hdigits : ∀ d ∈ ds ++ fs, Bytes.isDigit d) :
    Denotes (joined text) negative
      (signed negative (Bytes.decimalFrom 0 (ds ++ fs)) / 10 ^ fs.length) := by
  rcases eq_of_splitSign h with ⟨rfl, rfl⟩ | ⟨rfl, rfl⟩ | ⟨rfl, rfl⟩
  · rw [joined_cons (by decide), hunsigned]
    exact .plus hne hdigits
  · rw [joined_cons (by decide), hunsigned]
    have hminus := Denotes.minus hne hdigits
    rw [← neg_div] at hminus
    simpa [signed] using hminus
  · rw [hunsigned]
    exact .plain hne hdigits

/-- A text that is read as a decimal, with a point and without an exponent, denotes its digits with
as many places as stand behind the point. -/
theorem read?_denotes {text : Bytes} {d : Decimal} (h : read? text = some d) (hpoint : 46 ∈ text)
    (hmark : ∀ x ∈ text, Bytes.lower x ≠ 101) :
    ∃ places : Nat, d.exponent = -(places : Int) ∧
      Denotes (joined text) d.negative (signed d.negative d.digits / 10 ^ places) := by
  unfold read? at h
  rcases hsplit : Numeral.splitSign text with ⟨negative, unsigned⟩
  rcases hmantissa : mantissa ⟨0, 0, false, false⟩ unsigned with ⟨k, rest⟩
  rw [hsplit] at h
  simp only [hmantissa] at h
  obtain ⟨hsub, hmem⟩ := mem_of_splitSign hsplit
  split at h
  · next hdigit =>
    split at h
    · next e hexponent =>
      -- the mantissa has taken the whole text
      have hrest : rest <:+ unsigned := by
        have hsuffix := mantissa_isSuffix ⟨0, 0, false, false⟩ unsigned
        rw [hmantissa] at hsuffix
        exact hsuffix
      obtain ⟨rfl, rfl⟩ := exponent?_of_unmarked hexponent fun x hx =>
        hmark x (hsub x (hrest.subset hx))
      obtain ⟨ds, fs, hunsigned, hdigits, hvalue, hplaces, hsome⟩ :=
        mantissa_of_point hmantissa rfl (hmem hpoint)
      have hne : ds ++ fs ≠ [] := (hsome hdigit).resolve_left Bool.false_ne_true
      split at h
      · cases h
      · cases h
        refine ⟨fs.length, by rw [hplaces]; simp, ?_⟩
        simp only [hvalue]
        exact denotes_of_splitSign hsplit hunsigned hne hdigits
    · cases h
  · cases h

/-- A number with a point and without an exponent is read as the nearest floating-point number. -/
theorem readBinary32_nearest {text : Bytes} {x : Binary32} (h : readBinary32 text = .ok x)
    (hpoint : 46 ∈ text) (hmark : ∀ x ∈ text, Bytes.lower x ≠ 101) :
    ∃ q, Denotes (joined text) x.isNegative q ∧ Nearest q x := by
  unfold readBinary32 at h
  cases hread : read? text with
  | none => simp [hread] at h
  | some d =>
    obtain ⟨places, hexponent, hdenotes⟩ := read?_denotes hread hpoint hmark
    simp only [hread] at h
    split at h
    · cases h
    · next hfinite =>
      cases h
      obtain ⟨hnearest, hsign⟩ := roundsTo_toBinary32 hfinite
      have hvalue : d.toRat = signed d.negative d.digits / 10 ^ places := by
        rw [toRat, hexponent, zpow_neg, zpow_natCast, div_eq_mul_inv]
      refine ⟨_, ?_, hnearest⟩
      rw [hsign, hvalue]
      exact hdenotes

end Decimal

end TagMachine
