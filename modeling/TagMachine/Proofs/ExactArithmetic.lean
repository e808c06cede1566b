import Mathlib.Data.Int.ModEq
import TagMachine.Proofs.FloatArithmetic
import TagMachine.Proofs.InstructionRules

/-!
What operators come to. The kinds of the operands decide whether they are computed with as ints or
as floats, and only a zero divisor or a remainder of floats leaves two numbers without a result. A
result of arithmetic on ints is the exact one, cut to 32 bits, and one on floats is the exact one,
correctly rounded.
-/

namespace TagMachine

theorem Value.kind_eq_int_iff {v : Value} : v.kind = .int ↔ ∃ i, v = .int i := by
  cases v <;> simp [kind]

theorem Value.kind_eq_float_iff {v : Value} : v.kind = .float ↔ ∃ x, v = .float x := by
  cases v <;> simp [kind]

theorem Value.isNumeric_iff {v : Value} : v.isNumeric ↔ v.kind = .int ∨ v.kind = .float := by
  cases v <;> simp [isNumeric, kind]

theorem Value.ofBool_cases (p : Bool) : ofBool p = .int 0 ∨ ofBool p = .int 1 := by
  cases p with
  | false => exact Or.inl rfl
  | true => exact Or.inr rfl

theorem Value.ofBool_eq_one_iff {p : Bool} : ofBool p = .int 1 ↔ p := by
  cases p <;> simp [ofBool]

namespace Operator

variable {op : Operator} {l r v : Value} {a b : Int32}

/-! ## The operands -/

/-- Both operands are ints or floats. -/
def Numbers (l r : Value) : Prop :=
  (l.kind = .int ∨ l.kind = .float) ∧ (r.kind = .int ∨ r.kind = .float)

/-- An operand is a float, so that both are taken as floats. -/
def InFloats (l r : Value) : Prop := l.kind = .float ∨ r.kind = .float

/-- An int divided by the int zero. -/
def DividesIntByZero (op : Operator) (l r : Value) : Prop :=
  op = .div ∧ l.kind = .int ∧ r = .int 0

/-- The int zero, or a float zero of either sign. -/
def IsZero (r : Value) : Prop := r = .int 0 ∨ r = .float (.zero false) ∨ r = .float (.zero true)

/-- A remainder of floats or by the int zero, or a quotient of floats by a zero. -/
def Refuses (op : Operator) (l r : Value) : Prop :=
  op = .mod ∧ (InFloats l r ∨ r = .int 0) ∨ op = .div ∧ InFloats l r ∧ IsZero r

theorem not_inFloats_int (a b : Int32) : ¬ InFloats (.int a) (.int b) := by
  rintro (h | h) <;> cases h

theorem DividesIntByZero.not_inFloats (h : op.DividesIntByZero l r) : ¬ InFloats l r := by
  obtain ⟨-, hl, rfl⟩ := h
  obtain ⟨a, rfl⟩ := Value.kind_eq_int_iff.mp hl
  exact not_inFloats_int a 0

theorem Refuses.not_dividesIntByZero (h : op.Refuses l r) : ¬ op.DividesIntByZero l r := by
  intro hzero
  rcases h with ⟨hmod, -⟩ | ⟨-, hfloats, -⟩
  · cases hzero.1.symm.trans hmod
  · exact hzero.not_inFloats hfloats

/-- Numbers without a float among them are ints. -/
theorem Numbers.exists_ints (h : Numbers l r) (hints : ¬ InFloats l r) :
    ∃ a b, l = .int a ∧ r = .int b := by
  obtain ⟨hl, hr⟩ := not_or.mp hints
  obtain ⟨a, rfl⟩ := Value.kind_eq_int_iff.mp (h.1.resolve_right hl)
  obtain ⟨b, rfl⟩ := Value.kind_eq_int_iff.mp (h.2.resolve_right hr)
  exact ⟨a, b, rfl, rfl⟩

theorem isZero_int (i : Int32) : IsZero (.int i) ↔ (Binary32.ofInt i.toInt).isZero := by
  rw [Binary32.isZero_ofInt_iff, ← Int32.toInt_zero, Int32.toInt_inj]
  simp [IsZero]

theorem isZero_float (x : Binary32) : IsZero (.float x) ↔ x.isZero := by
  rw [Binary32.isZero_iff_eq_zero]
  simp [IsZero]

/-- A number as a float: an int is taken as the nearest one, with its sign. -/
inductive AsFloat : Value → Binary32 → Prop
  | int {i : Int32} {x : Binary32} : x.Nearest i.toInt → x.isNegative = decide (i.toInt < 0) →
      AsFloat (.int i) x
  | float {x : Binary32} : AsFloat (.float x) x

theorem asFloat_int (i : Int32) : AsFloat (.int i) (.ofInt i.toInt) := by
  refine .int ((Binary32.rounded_ofInt i.toInt).nearest ?_) (Binary32.isNegative_ofInt i.toInt)
  have hle : (i.toInt.natAbs : ℚ) ≤ (2 ^ 31 : Nat) := by
    have hlow := i.le_toInt
    have hhigh := i.toInt_lt
    exact Nat.cast_le.mpr (by omega)
  rw [Binary32.Overflows, not_le, ← Int.cast_abs, ← Int.natCast_natAbs, Int.cast_natCast]
  exact lt_of_le_of_lt hle (by norm_num)

/-- With a float among them, numbers are taken as floats, and no int but zero becomes a zero. -/
theorem Numbers.exists_floats (h : Numbers l r) (hfloats : InFloats l r) :
    ∃ x y, AsFloat l x ∧ AsFloat r y ∧ (∀ op : Operator, op.apply l r = op.applyFloat x y) ∧
      (IsZero r ↔ y.isZero) := by
  obtain ⟨hl | hl, hr | hr⟩ := h
  · obtain ⟨a, rfl⟩ := Value.kind_eq_int_iff.mp hl
    obtain ⟨b, rfl⟩ := Value.kind_eq_int_iff.mp hr
    exact absurd hfloats (not_inFloats_int a b)
  · obtain ⟨a, rfl⟩ := Value.kind_eq_int_iff.mp hl
    obtain ⟨y, rfl⟩ := Value.kind_eq_float_iff.mp hr
    exact ⟨.ofInt a.toInt, y, asFloat_int a, .float, fun _ => rfl, isZero_float y⟩
  · obtain ⟨x, rfl⟩ := Value.kind_eq_float_iff.mp hl
    obtain ⟨b, rfl⟩ := Value.kind_eq_int_iff.mp hr
    exact ⟨x, .ofInt b.toInt, .float, asFloat_int b, fun _ => rfl, isZero_int b⟩
  · obtain ⟨x, rfl⟩ := Value.kind_eq_float_iff.mp hl
    obtain ⟨y, rfl⟩ := Value.kind_eq_float_iff.mp hr
    exact ⟨x, y, .float, .float, fun _ => rfl, isZero_float y⟩

theorem apply_of_left (h : ¬ l.isNumeric) : op.apply l r = .error (.leftNotNumeric op l.kind) := by
  cases l with
  | int | float => exact absurd rfl h
  | _ => rfl

theorem apply_of_right (hl : l.isNumeric) (hr : ¬ r.isNumeric) :
    op.apply l r = .error (.rightNotNumeric op r.kind) := by
  cases r with
  | int | float => exact absurd rfl hr
  | _ =>
    cases l with
    | int | float => rfl
    | _ => cases hl

/-! ## Results -/

/-- The integer that an operator of arithmetic means. A quotient goes toward zero, and a remainder
is what it leaves. -/
def exactInt? (op : Operator) (a b : Int) : Option Int :=
  match op with
  | .add => some (a + b)
  | .sub => some (a - b)
  | .mul => some (a * b)
  | .div => some (a.tdiv b)
  | .mod => some (a.tmod b)
  | .eq | .lt => none

/-- The number that an operator of arithmetic on floats means. -/
def exactRat? (op : Operator) (p q : ℚ) : Option ℚ :=
  match op with
  | .add => some (p + q)
  | .sub => some (p - q)
  | .mul => some (p * q)
  | .div => some (p / q)
  | .mod | .eq | .lt => none

/-- The float that an operator of arithmetic on floats gives, infinite and undefined ones too. -/
def float? (op : Operator) (x y : Binary32) : Option Binary32 :=
  match op with
  | .add => some (x.add y)
  | .sub => some (x.sub y)
  | .mul => some (x.mul y)
  | .div => some (x.div y)
  | .mod | .eq | .lt => none

/-- What a result in floats is. Of finite floats it is the exact one, correctly rounded. Floats are
compared by what they stand for, an infinity by 2^128, which is beyond all finite ones, and what is
not a number is neither equal to a float nor less. -/
structure FloatResult (op : Operator) (x y : Binary32) (v : Value) : Prop where
  value : ∀ z, op.float? x y = some z → v = .float z
  rounded : ∀ q, x.isFinite → y.isFinite → op.exactRat? x.toRat y.toRat = some q →
    ∃ z, v = .float z ∧ z.Rounded q
  equal : op = .eq → (v = .int 1 ↔ x.isNaN = false ∧ y.isNaN = false ∧ x.toRat = y.toRat)
  less : op = .lt → (v = .int 1 ↔ x.isNaN = false ∧ y.isNaN = false ∧ x.toRat < y.toRat)

/-- What a result is. Comparisons give one or zero, in ints by the exact order. Of the others, one
with a float operand gives a float, and one in ints the exact integer modulo 2^32. -/
structure Result (op : Operator) (l r v : Value) : Prop where
  compared : op = .eq ∨ op = .lt → v = .int 0 ∨ v = .int 1
  equal : ∀ a b, op = .eq → l = .int a → r = .int b → (v = .int 1 ↔ a.toInt = b.toInt)
  less : ∀ a b, op = .lt → l = .int a → r = .int b → (v = .int 1 ↔ a.toInt < b.toInt)
  float : op ≠ .eq → op ≠ .lt → InFloats l r → v.kind = .float
  floats : InFloats l r → ∃ x y, AsFloat l x ∧ AsFloat r y ∧ op.FloatResult x y v
  int : ∀ a b e, l = .int a → r = .int b → op.exactInt? a.toInt b.toInt = some e →
    ∃ i, v = .int i ∧ i.toInt ≡ e [ZMOD 2 ^ 32]

/-- What an operator comes to, one case for each kind of outcome. -/
inductive Outcome (op : Operator) (l r : Value) : Except Failure Value → Prop
  | mismatch {why : Failure} : ¬ Numbers l r → why.trapClass = .typeMismatch →
      Outcome op l r (.error why)
  | handled : Numbers l r → op.DividesIntByZero l r → Outcome op l r (.error .intDivisionByZero)
  | refused {why : Failure} : Numbers l r → op.Refuses l r → why.trapClass = .operator →
      Outcome op l r (.error why)
  | result {v : Value} : Numbers l r → ¬ op.DividesIntByZero l r → ¬ op.Refuses l r →
      op.Result l r v → Outcome op l r (.ok v)

/-- Operands that are no numbers are a mismatch of types, and the left one is looked at first. -/
theorem outcome_mismatch (h : ¬ Numbers l r) : Outcome op l r (op.apply l r) := by
  by_cases hl : l.isNumeric
  · have hr : ¬ r.isNumeric := by
      rw [Value.isNumeric_iff] at hl ⊢
      exact fun hr => h ⟨hl, hr⟩
    rw [apply_of_right hl hr]
    exact .mismatch h rfl
  · rw [apply_of_left hl]
    exact .mismatch h rfl

/-- An operator of arithmetic on finite floats is correctly rounded. -/
theorem rounded_of_float? {x y z : Binary32} {q : ℚ} (hz : op.float? x y = some z)
    (hzero : op = .div → ¬ y.isZero) (hx : x.isFinite) (hy : y.isFinite)
    (hq : op.exactRat? x.toRat y.toRat = some q) : z.Rounded q := by
  cases op with
  | add =>
    cases hz
    cases hq
    exact Binary32.rounded_add hx hy
  | sub =>
    cases hz
    cases hq
    exact Binary32.rounded_sub hx hy
  | mul =>
    cases hz
    cases hq
    exact Binary32.rounded_mul hx hy
  | div =>
    cases hz
    cases hq
    exact Binary32.rounded_div hx hy (hzero rfl)
  | mod | eq | lt => cases hz

section Floats

variable {x y z : Binary32}

theorem Result.of_floatResult (hfloats : InFloats l r) (hl : AsFloat l x) (hr : AsFloat r y)
    (hcompared : op = .eq ∨ op = .lt → v = .int 0 ∨ v = .int 1)
    (hfloat : op ≠ .eq → op ≠ .lt → v.kind = .float) (h : op.FloatResult x y v) :
    op.Result l r v := by
  have hints : ∀ a b : Int32, l = .int a → r = .int b → False := by
    rintro a b rfl rfl
    exact not_inFloats_int a b hfloats
  exact ⟨hcompared, fun a b _ ha hb => (hints a b ha hb).elim,
    fun a b _ ha hb => (hints a b ha hb).elim, fun heq hlt _ => hfloat heq hlt,
    fun _ => ⟨x, y, hl, hr, h⟩, fun a b _ ha hb _ => (hints a b ha hb).elim⟩

theorem Result.of_float? (hfloats : InFloats l r) (hl : AsFloat l x) (hr : AsFloat r y)
    (hz : op.float? x y = some z) (hzero : op = .div → ¬ y.isZero) :
    op.Result l r (.float z) := by
  have hop : op ≠ .eq ∧ op ≠ .lt := by
    constructor <;> rintro rfl <;> cases hz
  refine .of_floatResult hfloats hl hr ?_ (fun _ _ => rfl) ⟨?_, ?_, ?_, ?_⟩
  · rintro (heq | hlt)
    · exact absurd heq hop.1
    · exact absurd hlt hop.2
  · intro z' hz'
    rw [hz] at hz'
    cases hz'
    rfl
  · exact fun q hx hy hq => ⟨z, rfl, rounded_of_float? hz hzero hx hy hq⟩
  · exact fun heq => absurd heq hop.1
  · exact fun hlt => absurd hlt hop.2

theorem floatResult_eq (x y : Binary32) : Operator.eq.FloatResult x y (.ofBool (x.eq y)) := by
  refine ⟨nofun, nofun, fun _ => ?_, nofun⟩
  rw [Value.ofBool_eq_one_iff, Binary32.eq_iff_toRat]

theorem floatResult_lt (x y : Binary32) : Operator.lt.FloatResult x y (.ofBool (x.lt y)) := by
  refine ⟨nofun, nofun, nofun, fun _ => ?_⟩
  rw [Value.ofBool_eq_one_iff, Binary32.lt_iff_toRat]

end Floats

theorem outcome_floats (h : Numbers l r) (hfloats : InFloats l r) :
    Outcome op l r (op.apply l r) := by
  obtain ⟨x, y, hl, hr, happly, hzero⟩ := h.exists_floats hfloats
  rw [happly]
  have hcomputed : ∀ v, op ≠ .mod → ¬ (op = .div ∧ y.isZero) → op.Result l r v →
      Outcome op l r (.ok v) := by
    intro v hmod hdiv hresult
    refine .result h (fun hz => hz.not_inFloats hfloats) ?_ hresult
    rintro (⟨hop, -⟩ | ⟨hop, -, hz⟩)
    · exact hmod hop
    · exact hdiv ⟨hop, hzero.mp hz⟩
  cases op with
  | add | sub | mul =>
    exact hcomputed _ nofun nofun (.of_float? hfloats hl hr rfl nofun)
  | eq =>
    exact hcomputed _ nofun nofun (.of_floatResult hfloats hl hr (fun _ => Value.ofBool_cases _)
      (fun heq => absurd rfl heq) (floatResult_eq x y))
  | lt =>
    exact hcomputed _ nofun nofun (.of_floatResult hfloats hl hr (fun _ => Value.ofBool_cases _)
      (fun _ hlt => absurd rfl hlt) (floatResult_lt x y))
  | mod => exact .refused h (Or.inl ⟨rfl, Or.inl hfloats⟩) rfl
  | div =>
    by_cases hy : y.isZero
    · rw [applyFloat, if_pos hy]
      exact .refused h (Or.inr ⟨rfl, hfloats, hzero.mpr hy⟩) rfl
    · rw [applyFloat, if_neg hy]
      exact hcomputed _ nofun (fun hz => hy hz.2) (.of_float? hfloats hl hr rfl fun _ => hy)

/-- An operator of arithmetic on ints gives the exact integer modulo 2^32. -/
theorem Result.of_ints {i : Int32} {e : Int} (hexact : op.exactInt? a.toInt b.toInt = some e)
    (h : i.toInt ≡ e [ZMOD 2 ^ 32]) : op.Result (.int a) (.int b) (.int i) := by
  have hop : op ≠ .eq ∧ op ≠ .lt := by
    constructor <;> rintro rfl <;> cases hexact
  refine ⟨?_, fun _ _ heq => absurd heq hop.1, fun _ _ hlt => absurd hlt hop.2, ?_, ?_, ?_⟩
  · rintro (heq | hlt)
    · exact absurd heq hop.1
    · exact absurd hlt hop.2
  · exact fun _ _ hfloats => absurd hfloats (not_inFloats_int a b)
  · exact fun hfloats => absurd hfloats (not_inFloats_int a b)
  · intro a' b' e' ha hb he
    cases ha
    cases hb
    rw [hexact] at he
    cases he
    exact ⟨i, rfl, h⟩

theorem result_eq (a b : Int32) : Operator.eq.Result (.int a) (.int b) (.ofBool (a == b)) := by
  refine ⟨fun _ => Value.ofBool_cases _, ?_, nofun, nofun,
    fun hfloats => absurd hfloats (not_inFloats_int a b), nofun⟩
  intro a' b' _ ha hb
  cases ha
  cases hb
  rw [Value.ofBool_eq_one_iff, beq_iff_eq, Int32.toInt_inj]

theorem result_lt (a b : Int32) : Operator.lt.Result (.int a) (.int b) (.ofBool (a < b)) := by
  refine ⟨fun _ => Value.ofBool_cases _, nofun, ?_, nofun,
    fun hfloats => absurd hfloats (not_inFloats_int a b), nofun⟩
  intro a' b' _ ha hb
  cases ha
  cases hb
  rw [Value.ofBool_eq_one_iff, decide_eq_true_iff, Int32.lt_iff_toInt_lt]

/-- Cutting an integer to 32 bits changes it by a multiple of 2^32. -/
theorem modEq_of_toInt {i : Int32} {e : Int} (h : i.toInt = e.bmod (2 ^ 32)) :
    i.toInt ≡ e [ZMOD 2 ^ 32] := by
  rw [h]
  exact Int.bmod_emod

theorem outcome_ints (a b : Int32) :
    Outcome op (.int a) (.int b) (op.apply (.int a) (.int b)) := by
  have h : Numbers (.int a) (.int b) := ⟨Or.inl rfl, Or.inl rfl⟩
  have hcomputed : ∀ v, (op = .div ∨ op = .mod → b ≠ 0) → op.Result (.int a) (.int b) v →
      Outcome op (.int a) (.int b) (.ok v) := by
    intro v hb hresult
    refine .result h ?_ ?_ hresult
    · rintro ⟨hop, -, hz⟩
      exact hb (Or.inl hop) (Value.int.inj hz)
    · rintro (⟨hop, hfloats | hz⟩ | ⟨-, hfloats, -⟩)
      · exact not_inFloats_int a b hfloats
      · exact hb (Or.inr hop) (Value.int.inj hz)
      · exact not_inFloats_int a b hfloats
  rw [apply]
  cases op with
  | add => exact hcomputed _ (by simp) (.of_ints rfl (modEq_of_toInt (Int32.toInt_add a b)))
  | sub => exact hcomputed _ (by simp) (.of_ints rfl (modEq_of_toInt (Int32.toInt_sub a b)))
  | mul => exact hcomputed _ (by simp) (.of_ints rfl (modEq_of_toInt (Int32.toInt_mul a b)))
  | div =>
    by_cases hb : b = 0
    · rw [applyInt, if_pos hb, hb]
      exact .handled h ⟨rfl, rfl, rfl⟩
    · rw [applyInt, if_neg hb]
      exact hcomputed _ (fun _ => hb) (.of_ints rfl (modEq_of_toInt (Int32.toInt_div a b)))
  | mod =>
    by_cases hb : b = 0
    · rw [applyInt, if_pos hb, hb]
      exact .refused h (Or.inl ⟨rfl, Or.inr rfl⟩) rfl
    · -- a remainder is smaller than its divisor, so that nothing is cut off
      rw [applyInt, if_neg hb]
      refine hcomputed _ (fun _ => hb) (.of_ints rfl ?_)
      rw [Int32.toInt_mod]
  | eq => exact hcomputed _ (by simp) (result_eq a b)
  | lt => exact hcomputed _ (by simp) (result_lt a b)

/-- Every operator on any two values comes to one of these. -/
theorem outcome_apply (op : Operator) (l r : Value) : Outcome op l r (op.apply l r) := by
  by_cases h : Numbers l r
  · by_cases hfloats : InFloats l r
    · exact outcome_floats h hfloats
    · obtain ⟨a, b, rfl, rfl⟩ := h.exists_ints hfloats
      exact outcome_ints a b
  · exact outcome_mismatch h

/-! ## The outcomes exclude one another -/

namespace Outcome

variable {x : Except Failure Value}

theorem mismatch_iff (h : Outcome op l r x) :
    (∃ why, x = .error why ∧ why.trapClass = .typeMismatch) ↔ ¬ Numbers l r := by
  constructor
  · rintro ⟨why, rfl, hwhy⟩
    cases h with
    | mismatch hno => exact hno
    | handled => cases hwhy
    | refused _ _ hclass =>
      rw [hclass] at hwhy
      cases hwhy
  · intro hno
    cases h with
    | mismatch _ hclass => exact ⟨_, rfl, hclass⟩
    | handled hn | refused hn | result hn => exact absurd hn hno

theorem refused_iff (h : Outcome op l r x) :
    (∃ why, x = .error why ∧ why.trapClass = .operator) ↔ Numbers l r ∧ op.Refuses l r := by
  constructor
  · rintro ⟨why, rfl, hwhy⟩
    cases h with
    | refused hn hrefuses => exact ⟨hn, hrefuses⟩
    | handled => cases hwhy
    | mismatch _ hclass =>
      rw [hclass] at hwhy
      cases hwhy
  · rintro ⟨hn, hrefuses⟩
    cases h with
    | refused _ _ hclass => exact ⟨_, rfl, hclass⟩
    | mismatch hno => exact absurd hn hno
    | handled _ hzero => exact absurd hzero hrefuses.not_dividesIntByZero
    | result _ _ hno => exact absurd hrefuses hno

theorem exists_result (h : Outcome op l r x) (hn : Numbers l r) (hzero : ¬ op.DividesIntByZero l r)
    (hrefuses : ¬ op.Refuses l r) : ∃ v, x = .ok v ∧ op.Result l r v := by
  cases h with
  | result _ _ _ hresult => exact ⟨_, rfl, hresult⟩
  | mismatch hno => exact absurd hn hno
  | handled _ hz => exact absurd hz hzero
  | refused _ hr => exact absurd hr hrefuses

end Outcome

/-- The quotient and the remainder of two ints make up the dividend, and the remainder is smaller
than the divisor, on the dividend's side of zero. -/
theorem quotient_remainder (hb : b ≠ 0) :
    ∃ q m : Int32, Operator.div.apply (.int a) (.int b) = .ok (.int q) ∧
      Operator.mod.apply (.int a) (.int b) = .ok (.int m) ∧
      q.toInt * b.toInt + m.toInt ≡ a.toInt [ZMOD 2 ^ 32] ∧
      m.toInt.natAbs < b.toInt.natAbs ∧ (m = 0 ∨ m.toInt.sign = a.toInt.sign) := by
  have hpos : 0 < b.toInt.natAbs := by
    rw [Int.natAbs_pos, ne_eq, ← Int32.toInt_zero, Int32.toInt_inj]
    exact hb
  refine ⟨a / b, a % b, if_neg hb, if_neg hb, ?_, ?_, ?_⟩
  · calc (a / b).toInt * b.toInt + (a % b).toInt
        ≡ a.toInt.tdiv b.toInt * b.toInt + (a % b).toInt [ZMOD 2 ^ 32] :=
          ((modEq_of_toInt (Int32.toInt_div a b)).mul_right _).add_right _
      _ = a.toInt := by rw [Int32.toInt_mod, Int.tdiv_mul_add_tmod]
  · rw [Int32.toInt_mod, Int.natAbs_tmod]
    exact Nat.mod_lt _ hpos
  · rw [← Int32.toInt_inj, Int32.toInt_mod, Int.sign_tmod]
    by_cases hdvd : b.toInt ∣ a.toInt
    · exact Or.inl (Int.tmod_eq_zero_of_dvd hdvd)
    · exact Or.inr (if_neg hdvd)

/-- An operator on any two values. Only ints and floats go together. Of two numbers, an int divided
by the int zero goes to the handlers, a remainder of floats or by zero and a quotient of floats by
zero are refused, and everything else has a result: one or zero for a comparison, a float if an
operand is one, the exact number correctly rounded, and otherwise the exact integer modulo 2^32.
There the quotient goes toward zero, and with the remainder it makes up the dividend. -/
theorem operators_are_exact_on_the_numbers_they_take (op : Operator) (l r : Value) :
    ((∃ why, op.apply l r = .error why ∧ why.trapClass = .typeMismatch) ↔ ¬ Numbers l r) ∧
    (op.apply l r = .error .intDivisionByZero ↔ op.DividesIntByZero l r) ∧
    ((∃ why, op.apply l r = .error why ∧ why.trapClass = .operator) ↔
      Numbers l r ∧ op.Refuses l r) ∧
    (Numbers l r → ¬ op.DividesIntByZero l r → ¬ op.Refuses l r →
      ∃ v, op.apply l r = .ok v ∧ op.Result l r v) ∧
    Operator.div.apply (.int .minValue) (.int (-1)) = .ok (.int .minValue) ∧
    ∀ a b : Int32, b ≠ 0 → ∃ q m : Int32,
      Operator.div.apply (.int a) (.int b) = .ok (.int q) ∧
      Operator.mod.apply (.int a) (.int b) = .ok (.int m) ∧
      q.toInt * b.toInt + m.toInt ≡ a.toInt [ZMOD 2 ^ 32] ∧
      m.toInt.natAbs < b.toInt.natAbs ∧ (m = 0 ∨ m.toInt.sign = a.toInt.sign) := by
  have h := outcome_apply op l r
  refine ⟨h.mismatch_iff, ?_, h.refused_iff, h.exists_result, rfl,
    fun a b hb => quotient_remainder hb⟩
  rw [apply_divisionByZero_iff, DividesIntByZero, Value.kind_eq_int_iff]

/-- A product that does not fit into 32 bits, a division that does not come out even, and 2^24 as a
float with an int that makes it end halfway between two floats. -/
theorem a_product_wraps_and_a_quotient_goes_toward_zero :
    (Numbers (.int 65537) (.int (-65537)) ∧
      ∃ v, Operator.mul.apply (.int 65537) (.int (-65537)) = .ok v ∧
        Operator.mul.Result (.int 65537) (.int (-65537)) v ∧ v = .int (-131073)) ∧
    (∃ q m : Int32, Operator.div.apply (.int (-7)) (.int 2) = .ok (.int q) ∧
      Operator.mod.apply (.int (-7)) (.int 2) = .ok (.int m) ∧ q = -3 ∧ m = -1 ∧
      q.toInt * 2 + m.toInt ≡ -7 [ZMOD 2 ^ 32]) ∧
    Numbers (.float ⟨0x4B800000⟩) (.int 1) ∧
      ∃ v, Operator.add.apply (.float ⟨0x4B800000⟩) (.int 1) = .ok v ∧
        Operator.add.Result (.float ⟨0x4B800000⟩) (.int 1) v ∧ v = .float ⟨0x4B800000⟩ := by
  obtain ⟨-, -, -, hresult, -, hquotient⟩ :=
    operators_are_exact_on_the_numbers_they_take .mul (.int 65537) (.int (-65537))
  obtain ⟨-, -, -, hsum, -⟩ :=
    operators_are_exact_on_the_numbers_they_take .add (.float ⟨0x4B800000⟩) (.int 1)
  have hints : Numbers (.int 65537) (.int (-65537)) := ⟨Or.inl rfl, Or.inl rfl⟩
  have hfloats : Numbers (.float ⟨0x4B800000⟩) (.int 1) := ⟨Or.inr rfl, Or.inl rfl⟩
  have hmul : ∀ l r, ¬ Operator.mul.Refuses l r := by
    rintro l r (⟨hop, -⟩ | ⟨hop, -⟩) <;> cases hop
  have hadd : ∀ l r, ¬ Operator.add.Refuses l r := by
    rintro l r (⟨hop, -⟩ | ⟨hop, -⟩) <;> cases hop
  obtain ⟨v, hv, hexact⟩ := hresult hints nofun (hmul _ _)
  obtain ⟨w, hw, hrounded⟩ := hsum hfloats nofun (hadd _ _)
  obtain ⟨q, m, hq, hm, hdividend, -⟩ := hquotient (-7) 2 (by decide)
  have heven : Binary32.add ⟨0x4B800000⟩ (.ofInt (Int32.toInt 1)) = ⟨0x4B800000⟩ := by
    decide +kernel
  refine ⟨⟨hints, v, hv, hexact, ?_⟩, ⟨q, m, hq, hm, ?_, ?_, hdividend⟩, hfloats, w, hw, hrounded,
    ?_⟩
  · cases hv
    rfl
  · cases hq
    rfl
  · cases hm
    rfl
  · cases hw
    rw [heven]

end Operator

end TagMachine
