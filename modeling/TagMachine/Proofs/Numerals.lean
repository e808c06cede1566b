import TagMachine.Number.Numeral

/-!
Decimal integers in text. A numeral is an optional sign and at least one digit, and it is read as a
word exactly if the number it denotes is one of the 32-bit integers.
-/

namespace TagMachine

/-- The value of the digits that continue `n`, in base ten. -/
def Bytes.decimalFrom (n : Nat) (ds : Bytes) : Nat :=
  ds.foldl (fun n d => n * 10 + (d.toNat - 48)) n

theorem Bytes.le_decimalFrom (n : Nat) (ds : Bytes) : n ≤ decimalFrom n ds := by
  induction ds generalizing n with
  | nil => exact Nat.le_refl n
  | cons d ds ih =>
    have := ih (n * 10 + (d.toNat - 48))
    simp only [decimalFrom, List.foldl_cons] at this ⊢
    omega

theorem Bytes.isDigit_iff (b : UInt8) : isDigit b ↔ 48 ≤ b.toNat ∧ b.toNat ≤ 57 := by
  simp [isDigit, UInt8.le_iff_toNat_le]

theorem Bytes.digitValue?_of_isDigit {b : UInt8} (h : isDigit b) :
    digitValue? b = some (b.toNat - 48) := by
  simp [digitValue?, h]

theorem Bytes.ten_le_of_not_isDigit {b : UInt8} {d : Nat} (h : ¬ isDigit b)
    (hd : digitValue? b = some d) : 10 ≤ d := by
  unfold digitValue? at hd
  rw [if_neg h] at hd
  split at hd
  · next hlow =>
    simp only [Bool.and_eq_true, decide_eq_true_eq, UInt8.le_iff_toNat_le] at hlow
    cases hd
    have : (97 : UInt8).toNat = 97 := rfl
    omega
  · split at hd
    · next hup =>
      simp only [Bool.and_eq_true, decide_eq_true_eq, UInt8.le_iff_toNat_le] at hup
      cases hd
      have : (65 : UInt8).toNat = 65 := rfl
      omega
    · cases hd

namespace Numeral

/-- The integer that a numeral denotes. -/
inductive Denotes : Bytes → Int → Prop
  | plain {ds : Bytes} : ds ≠ [] → (∀ d ∈ ds, Bytes.isDigit d) → Denotes ds (Bytes.decimalFrom 0 ds)
  | plus {ds : Bytes} : ds ≠ [] → (∀ d ∈ ds, Bytes.isDigit d) →
      Denotes (43 :: ds) (Bytes.decimalFrom 0 ds)
  | minus {ds : Bytes} : ds ≠ [] → (∀ d ∈ ds, Bytes.isDigit d) →
      Denotes (45 :: ds) (-(Bytes.decimalFrom 0 ds : Int))

/-! ## Runs of digits -/

/-- A run is read exactly if it holds digits only and its value is within the limit: the value grows
from digit to digit, so none on the way was beyond it. -/
theorem run_ok_iff {limit n k : Nat} {ds : Bytes} (hn : n ≤ limit) :
    run 10 limit false n ds = .ok k ↔
      (∀ d ∈ ds, Bytes.isDigit d) ∧ k = Bytes.decimalFrom n ds ∧ k ≤ limit := by
  induction ds generalizing n with
  | nil =>
    simp only [run, Bytes.decimalFrom, List.foldl_nil, Except.ok.injEq]
    constructor
    · rintro rfl
      exact ⟨by simp, rfl, hn⟩
    · rintro ⟨-, rfl, -⟩
      rfl
  | cons d ds ih =>
    have hfold : Bytes.decimalFrom n (d :: ds) = Bytes.decimalFrom (n * 10 + (d.toNat - 48)) ds :=
      rfl
    simp only [run, Bool.false_and, Bool.false_eq_true, if_false]
    by_cases hd : Bytes.isDigit d
    · have hval := (Bytes.isDigit_iff d).mp hd
      rw [Bytes.digitValue?_of_isDigit hd]
      dsimp only
      rw [if_neg (by omega)]
      by_cases hlim : limit < n * 10 + (d.toNat - 48)
      · have hle := Bytes.le_decimalFrom (n * 10 + (d.toNat - 48)) ds
        rw [if_pos hlim, hfold]
        constructor
        · intro h
          cases h
        · rintro ⟨-, rfl, hk⟩
          omega
      · rw [if_neg hlim, ih (by omega), hfold]
        simp [hd]
    · have hbad : ¬ ∀ x ∈ d :: ds, Bytes.isDigit x := fun h => hd (h d (List.mem_cons_self ..))
      simp only [hbad, false_and, iff_false]
      cases hval : Bytes.digitValue? d with
      | none => simp
      | some v =>
        have := Bytes.ten_le_of_not_isDigit hd hval
        simp [this]

/-! ## Whole numerals -/

theorem signed_ok_iff {bits : Nat} {negative : Bool} {r : Except RunFault Nat} {x : Int} :
    signed bits negative r = .ok x ↔
      ∃ n, r = .ok n ∧ x = (if negative then -(n : Int) else n) ∧
        -signedLimit bits ≤ x ∧ x < signedLimit bits := by
  have hpos : 0 < signedLimit bits := by
    have := Nat.two_pow_pos (bits - 1)
    rw [signedLimit, Nat.one_shiftLeft]
    omega
  cases r with
  | error fault => cases fault <;> simp [signed]
  | ok n =>
    simp only [Except.ok.injEq, exists_eq_left', signed]
    cases negative with
    | true =>
      simp only [if_true]
      by_cases hbig : signedLimit bits < n
      · rw [if_pos hbig]
        constructor
        · intro h
          cases h
        · rintro ⟨rfl, hge, -⟩
          omega
      · rw [if_neg hbig, Except.ok.injEq]
        omega
    | false =>
      simp only [Bool.false_eq_true, if_false]
      by_cases hbig : signedLimit bits ≤ n
      · rw [if_pos hbig]
        constructor
        · intro h
          cases h
        · rintro ⟨rfl, -, hlt⟩
          omega
      · rw [if_neg hbig, Except.ok.injEq]
        omega

/-- What is within the limit of signed integers is within that of unsigned ones. -/
theorem signedLimit_le {bits : Nat} (hbits : 0 < bits) :
    signedLimit bits ≤ (1 <<< bits - 1 : Nat) := by
  obtain ⟨k, rfl⟩ : ∃ k, bits = k + 1 := ⟨bits - 1, by omega⟩
  have := Nat.two_pow_pos k
  simp only [signedLimit, Nat.one_shiftLeft, Nat.add_sub_cancel, Nat.pow_succ]
  omega

/-- The digits of a numeral behind its sign. -/
theorem readDecimal_ok_iff_digits {bits : Nat} {b : Bytes} {x : Int} (hbits : 0 < bits) :
    readDecimal bits b = .ok x ↔
      (splitSign b).2 ≠ [] ∧ (∀ d ∈ (splitSign b).2, Bytes.isDigit d) ∧
      x = (if (splitSign b).1 then -(Bytes.decimalFrom 0 (splitSign b).2 : Int)
        else Bytes.decimalFrom 0 (splitSign b).2) ∧
      -signedLimit bits ≤ x ∧ x < signedLimit bits := by
  have hlimit := signedLimit_le hbits
  -- the run has the limit of unsigned integers, so the sign decides later and refuses more
  unfold readDecimal
  rcases splitSign b with ⟨negative, ds⟩
  dsimp only
  cases ds with
  | nil => simp
  | cons d ds =>
    simp only [List.isEmpty_cons, Bool.false_eq_true, if_false, signed_ok_iff, ne_eq, reduceCtorEq,
      not_false_eq_true, true_and, run_ok_iff (Nat.zero_le _)]
    constructor
    · rintro ⟨n, ⟨hdigits, rfl, -⟩, hx, hge, hlt⟩
      exact ⟨hdigits, hx, hge, hlt⟩
    · rintro ⟨hdigits, hx, hge, hlt⟩
      refine ⟨_, ⟨hdigits, rfl, ?_⟩, hx, hge, hlt⟩
      cases negative <;> simp only [Bool.false_eq_true, if_false, if_true] at hx <;> omega

theorem splitSign_of_isDigit {ds : Bytes} (h : ∀ d ∈ ds, Bytes.isDigit d) :
    splitSign ds = (false, ds) := by
  unfold splitSign
  split
  · exact absurd (h 43 (List.mem_cons_self ..)) (by decide)
  · exact absurd (h 45 (List.mem_cons_self ..)) (by decide)
  · rfl

theorem denotes_iff {b : Bytes} {x : Int} :
    Denotes b x ↔
      (splitSign b).2 ≠ [] ∧ (∀ d ∈ (splitSign b).2, Bytes.isDigit d) ∧
      x = (if (splitSign b).1 then -(Bytes.decimalFrom 0 (splitSign b).2 : Int)
        else Bytes.decimalFrom 0 (splitSign b).2) := by
  constructor
  · intro h
    cases h with
    | plain hne hdigits =>
      rw [splitSign_of_isDigit hdigits]
      exact ⟨hne, hdigits, rfl⟩
    | plus hne hdigits => exact ⟨hne, hdigits, rfl⟩
    | minus hne hdigits => exact ⟨hne, hdigits, rfl⟩
  · rintro ⟨hne, hdigits, rfl⟩
    unfold splitSign at hne hdigits ⊢
    split at hne <;> simp only [Bool.false_eq_true, if_false, if_true] at hne hdigits ⊢
    · exact .plus hne hdigits
    · exact .minus hne hdigits
    · exact .plain hne hdigits

/-- A text is read exactly if it is a numeral that denotes an integer within the limits. -/
theorem readDecimal_ok_iff {bits : Nat} {b : Bytes} {x : Int} (hbits : 0 < bits) :
    readDecimal bits b = .ok x ↔ Denotes b x ∧ -signedLimit bits ≤ x ∧ x < signedLimit bits := by
  rw [readDecimal_ok_iff_digits hbits, denotes_iff]
  simp only [and_assoc]

/-- A text is read as a word exactly if it is a numeral that denotes it. -/
theorem readInt32_ok_iff {b : Bytes} {w : Int32} : readInt32 b = .ok w ↔ Denotes b w.toInt := by
  have hread (x : Int) : readDecimal 32 b = .ok x ↔
      Denotes b x ∧ -2147483648 ≤ x ∧ x < 2147483648 := readDecimal_ok_iff (by decide)
  unfold readInt32
  constructor
  · intro h
    cases hx : readDecimal 32 b with
    | error e => simp [hx] at h
    | ok x =>
      simp only [hx, Except.ok.injEq] at h
      subst h
      obtain ⟨hdenotes, hge, hlt⟩ := (hread x).mp hx
      rw [Int32.toInt_ofInt_of_le hge hlt]
      exact hdenotes
  · intro h
    rw [(hread w.toInt).mpr ⟨h, w.le_toInt, w.toInt_lt⟩]
    simp

end Numeral

end TagMachine
