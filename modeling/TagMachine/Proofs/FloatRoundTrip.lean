import Mathlib.Order.Interval.Set.Defs
import TagMachine.Proofs.DecimalFractions
import TagMachine.Proofs.Reassembly

/-!
Floating-point numbers and their texts. The text of a finite number is a decimal that rounds to it
and to no other number, with an exponent just where the number is large or small.
-/

namespace TagMachine

/-! ## Large and small numbers -/

namespace Binary32

/-- A number other than zero that is less than a thousandth, or at least ten million, without its
sign. -/
def IsExtreme (x : Binary32) : Prop := x.toRat ≠ 0 ∧ |x.toRat| ∉ Set.Ico (1 / 1000 : ℚ) (10 ^ 7)

theorem abs_toRat (x : Binary32) : |x.toRat| = x.units / 2 ^ 149 := by
  have hpos : (0 : ℚ) < 2 ^ 149 := by positivity
  rw [toRat, abs_div, abs_of_pos hpos, ← Int.cast_abs, signedUnits]
  split <;> simp

theorem toRat_eq_zero {x : Binary32} : x.toRat = 0 ↔ x.isZero := by
  have hunits : x.units = 0 ↔ x.magnitude = 0 := unitsOf_strictMono.injective.eq_iff (b := 0)
  rw [← abs_eq_zero, abs_toRat, div_eq_zero_iff, Nat.cast_eq_zero, hunits]
  simp [isZero]

theorem isPositional_iff {x : Binary32} :
    x.isPositional ↔ |x.toRat| ∈ Set.Ico (1 / 1000 : ℚ) (10 ^ 7) := by
  have hpos : (0 : ℚ) < 2 ^ 149 := by positivity
  rw [Set.mem_Ico, abs_toRat, div_le_div_iff₀ (by norm_num) hpos, div_lt_iff₀ hpos, isPositional,
    Bool.and_eq_true, decide_eq_true_eq, decide_eq_true_eq, Nat.shiftLeft_eq, Nat.shiftLeft_eq]
  norm_cast

theorem isExtreme_iff {x : Binary32} : x.IsExtreme ↔ ¬ (x.isZero ∨ x.isPositional) := by
  rw [IsExtreme, ne_eq, toRat_eq_zero, ← isPositional_iff, not_or]

end Binary32

/-! ## Decimals -/

namespace Decimal

open Binary32 Token

theorem mark_not_mem_signText (negative : Bool) : 69 ∉ signText negative := by
  cases negative <;> decide

theorem mark_not_mem_digits {ds : Bytes} (h : IsDigits ds) : 69 ∉ ds :=
  fun hmem => absurd (h.2 69 hmem) (by decide)

/-- Only one of the two forms has the mark of an exponent. -/
theorem Plain.not_scientific {text : Bytes} {v w : Decimal} {e : Int} (h : Plain text v) :
    ¬ Scientific e text w := by
  intro hscientific
  have hmark : 69 ∈ text := by
    cases hscientific
    simp
  cases h with
  | mk negative hds hfs =>
    simp [mark_not_mem_signText, mark_not_mem_digits hds, mark_not_mem_digits hfs] at hmark

end Decimal

/-! ## The text of a finite number -/

namespace Binary32

open Decimal Token

theorem readBinary32_text {x : Binary32} (h : x.isFinite) : readBinary32 x.text = .ok x := by
  obtain ⟨v, hwritten, hround⟩ := written_text h
  simp [readBinary32, hwritten.read?, hround, isInfinite_of_isFinite h]

/-- The text of a finite number is the operand of a constant that assembles to its pattern. -/
theorem assemble_text {x : Binary32} (h : x.isFinite) :
    Assembly.assemble (Opcode.cstf.name ++ 32 :: x.text) =
      .ok [Opcode.cstf.word, x.bits.toInt32] := by
  have hlegible : Assembly.LegibleAs .float x.bits.toInt32 := ⟨by simp, fun _ => h⟩
  have hsource : Opcode.cstf.name ++ 32 :: x.text = Opcode.cstf.name ++ [32] ++ x.text := by simp
  rw [hsource]
  exact Assembly.assemble_of_operand rfl isSeparator_space
    (stands_number (Assembly.isNumber_operandText hlegible))
    (Assembly.writes_operandText hlegible rfl rfl)

/-- A finite number is the only one that its text, taken as a decimal, rounds to, so it is read back
from its text bit for bit, and no other finite number has that text. The text has an exponent
exactly for numbers other than zero that are outside the range from a thousandth up to ten million.
Wherever a token may end it is a number, and the assembler writes it as the pattern it came from. -/
theorem a_finite_number_is_read_back_from_its_text (x : Binary32) (hx : x.isFinite) :
    (∃ v : Decimal,
      (x.IsExtreme ∧ (∃ e, Scientific e x.text v) ∨ ¬ x.IsExtreme ∧ Plain x.text v) ∧
        ∀ y, v.RoundsTo y ↔ y = x) ∧
    ((∃ e v, Scientific e x.text v) ↔ x.IsExtreme) ∧
    readBinary32 x.text = .ok x ∧
    (∀ y : Binary32, y.isFinite → y.text = x.text → y = x) ∧
    (∀ rest, isEnd rest → recognize (x.text ++ rest) = ⟨.number, x.text, true⟩) ∧
    Assembly.assemble (Opcode.cstf.name ++ 32 :: x.text) =
      .ok [Opcode.cstf.word, x.bits.toInt32] := by
  obtain ⟨v, hround, hwritten⟩ := exists_text hx
  have hrounds : v.RoundsTo x := by
    rw [← hround] at hx ⊢
    exact roundsTo_toBinary32 (by simp [isInfinite_of_isFinite hx])
  have hform : x.IsExtreme ∧ (∃ e, Scientific e x.text v) ∨ ¬ x.IsExtreme ∧ Plain x.text v := by
    rw [isExtreme_iff, not_not]
    rcases hwritten with hplain | ⟨hextreme, e, -, hscientific⟩
    · exact Or.inr hplain
    · exact Or.inl ⟨hextreme, e, hscientific⟩
  have hnumber : IsNumber x.text := by
    obtain ⟨w, hw, -⟩ := written_text hx
    exact hw.isNumber
  refine ⟨⟨v, hform, fun y => ⟨fun hy => hy.unique hrounds, fun hy => hy ▸ hrounds⟩⟩, ⟨?_, ?_⟩,
    readBinary32_text hx, ?_, fun rest => recognize_number hnumber, assemble_text hx⟩
  · rintro ⟨e, w, hscientific⟩
    rcases hform with ⟨hextreme, -⟩ | ⟨-, hplain⟩
    · exact hextreme
    · exact absurd hscientific hplain.not_scientific
  · intro hextreme
    rcases hform with ⟨-, e, hscientific⟩ | ⟨hnot, -⟩
    · exact ⟨e, v, hscientific⟩
    · exact absurd hextreme hnot
  · intro y hy htext
    have hread := readBinary32_text hy
    rw [htext, readBinary32_text hx] at hread
    exact (Except.ok.inj hread).symm

/-- The negative number nearest to zero is written with the one digit that it takes, and minus zero
with its sign. -/
theorem the_numbers_next_to_zero_are_read_back :
    let least : Binary32 := ⟨0x80000001⟩
    let zero : Binary32 := ⟨0x80000000⟩
    (least.isFinite ∧ least.text = "-1.0E-45" ∧ readBinary32 "-1.0E-45" = .ok least ∧
      Assembly.assemble "CSTF -1.0E-45" = .ok [Opcode.cstf.word, -2147483647] ∧ least.IsExtreme) ∧
    zero.isFinite ∧ zero.text = "-0.0" ∧ readBinary32 "-0.0" = .ok zero ∧ ¬ zero.IsExtreme := by
  intro least zero
  have hleast : least.isFinite ∧ least.text = "-1.0E-45" := by decide +kernel
  have hzero : zero.isFinite ∧ zero.text = "-0.0" := by decide +kernel
  have hsource : Bytes.ofString "CSTF -1.0E-45" =
      Opcode.cstf.name ++ 32 :: Bytes.ofString "-1.0E-45" := by decide +kernel
  obtain ⟨-, -, hread, -, -, hassemble⟩ := a_finite_number_is_read_back_from_its_text least hleast.1
  obtain ⟨-, -, hread', -⟩ := a_finite_number_is_read_back_from_its_text zero hzero.1
  rw [hleast.2] at hread hassemble
  rw [hzero.2] at hread'
  rw [hsource, isExtreme_iff, isExtreme_iff]
  refine ⟨⟨hleast.1, hleast.2, hread, hassemble, ?_⟩, hzero.1, hzero.2, hread', ?_⟩ <;>
    decide +kernel

end Binary32

end TagMachine
