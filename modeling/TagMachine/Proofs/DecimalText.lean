import Mathlib.Algebra.Ring.Nat
import TagMachine.Proofs.Lexemes

/-!
Integers written in decimal. The digits of a number have its value, so an integer in text denotes
itself.
-/

namespace TagMachine

/-! ## Digits -/

namespace Bytes

theorem decimalFrom_append (n : Nat) (as bs : Bytes) :
    decimalFrom n (as ++ bs) = decimalFrom (decimalFrom n as) bs := List.foldl_append

theorem decimalFrom_zeros (n k : Nat) : decimalFrom n (List.replicate k 48) = n * 10 ^ k := by
  induction k generalizing n with
  | zero => exact (Nat.mul_one n).symm
  | succ k ih =>
    have hfirst : decimalFrom n (List.replicate (k + 1) 48) =
        decimalFrom (n * 10) (List.replicate k 48) := rfl
    rw [hfirst, ih, Nat.pow_succ, Nat.mul_assoc, Nat.mul_comm 10]

theorem toNat_digit {n : Nat} (h : n < 10) : (digit n).toNat = 48 + n := by
  rw [digit, if_pos h, Nat.toUInt8_eq, UInt8.toNat_ofNat']
  omega

theorem isDigit_digit {n : Nat} (h : n < 10) : isDigit (digit n) := by
  rw [isDigit_iff, toNat_digit h]
  omega

/-- A number in decimal is digits with its value. -/
theorem nat_digits (n : Nat) : Token.IsDigits (nat n) ∧ decimalFrom 0 (nat n) = n := by
  fun_induction nat n with
  | case1 n hn =>
    refine ⟨⟨by simp, ?_⟩, ?_⟩
    · simpa using isDigit_digit hn
    · simp [decimalFrom, toNat_digit hn]
  | case2 n hn ih =>
    obtain ⟨⟨-, hdigits⟩, hvalue⟩ := ih
    have hlast : n % 10 < 10 := Nat.mod_lt n (by omega)
    refine ⟨⟨by simp, ?_⟩, ?_⟩
    · intro d hd
      rcases List.mem_append.mp hd with hd | hd
      · exact hdigits d hd
      · rw [List.mem_singleton.mp hd]
        exact isDigit_digit hlast
    · rw [decimalFrom_append, hvalue]
      simp only [decimalFrom, List.foldl_cons, List.foldl_nil, toNat_digit hlast]
      omega

theorem length_nat_le {n k : Nat} (h : n < 10 ^ (k + 1)) : (nat n).length ≤ k + 1 := by
  induction k generalizing n with
  | zero =>
    rw [nat, if_pos (by simpa using h)]
    simp
  | succ k ih =>
    rw [nat]
    split
    · simp
    · have hrest : n / 10 < 10 ^ (k + 1) := by
        rw [Nat.div_lt_iff_lt_mul (by omega), ← Nat.pow_succ]
        exact h
      rw [List.length_append]
      exact Nat.add_le_add_right (ih hrest) 1

/-- Zeros in front change nothing. -/
theorem natPadded_digits (width n : Nat) :
    Token.IsDigits (natPadded width n) ∧ decimalFrom 0 (natPadded width n) = n ∧
      width ≤ (natPadded width n).length := by
  obtain ⟨⟨hne, hdigits⟩, hvalue⟩ := nat_digits n
  unfold natPadded
  refine ⟨⟨by simp [hne], ?_⟩, ?_, ?_⟩
  · intro d hd
    rcases List.mem_append.mp hd with hd | hd
    · rw [List.eq_of_mem_replicate hd]
      decide
    · exact hdigits d hd
  · rw [decimalFrom_append, decimalFrom_zeros, Nat.zero_mul, hvalue]
  · rw [List.length_append, List.length_replicate]
    omega

/-- An integer in text denotes itself. -/
theorem denotes_int (i : Int) : Numeral.Denotes (int i) i := by
  cases i with
  | ofNat n =>
    obtain ⟨⟨hne, hdigits⟩, hvalue⟩ := nat_digits n
    have hplain := Numeral.Denotes.plain hne hdigits
    rw [hvalue] at hplain
    exact hplain
  | negSucc n =>
    obtain ⟨⟨hne, hdigits⟩, hvalue⟩ := nat_digits (n + 1)
    have hminus := Numeral.Denotes.minus hne hdigits
    rw [hvalue] at hminus
    exact hminus

end Bytes

/-! ## Runs of digits -/

namespace Token

theorem IsDigits.append {as bs : Bytes} (ha : IsDigits as) (hb : ∀ d ∈ bs, Bytes.isDigit d) :
    IsDigits (as ++ bs) := by
  refine ⟨by simp [ha.1], ?_⟩
  intro d hd
  rcases List.mem_append.mp hd with hd | hd
  · exact ha.2 d hd
  · exact hb d hd

theorem IsDigits.take {ds : Bytes} (h : IsDigits ds) {k : Nat} (hk : 0 < k) :
    IsDigits (ds.take k) := by
  refine ⟨?_, fun d hd => h.2 d (List.mem_of_mem_take hd)⟩
  have hlength := List.length_pos_iff.mpr h.1
  apply List.ne_nil_of_length_pos
  rw [List.length_take]
  omega

theorem IsDigits.drop {ds : Bytes} (h : IsDigits ds) {k : Nat} (hk : k < ds.length) :
    IsDigits (ds.drop k) := by
  refine ⟨?_, fun d hd => h.2 d (List.mem_of_mem_drop hd)⟩
  apply List.ne_nil_of_length_pos
  rw [List.length_drop]
  omega

theorem isDigits_zero : IsDigits [48] := ⟨by simp, by simp [Bytes.isDigit]⟩

end Token

end TagMachine
