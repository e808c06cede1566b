import Mathlib.Data.Nat.Log
import TagMachine.Proofs.DecimalText

/-!
Numbers as they are written: a sign or none, digits, and perhaps a fraction and an exponent. Such a
text stands for one decimal, as soon as it is said how much an exponent counts. Where decimals are
read, the first five digits of an exponent count, and its others are cut off.
-/

namespace TagMachine.Decimal

open Token

/-! ## The language -/

/-- The first five digits of a number, or all if it has no more. -/
def leading (n : Nat) : Nat := n / 10 ^ (Nat.log 10 n - 4)

/-- The digits behind the point of a number. -/
inductive Places : Bytes → Bytes → Prop
  | none : Places [] []
  | point {fs : Bytes} : IsDigits fs → Places (46 :: fs) fs

/-- The exponent of a number. Its magnitude counts as much as `count` says. -/
inductive Scale (count : Nat → Nat) : Bytes → Int → Prop
  | none : Scale count [] 0
  | mark {x : UInt8} {b : Bytes} {e : Int} : x = 101 ∨ x = 69 → Numeral.Denotes b e →
      Scale count (x :: b) (e.sign * count e.natAbs)

/-- A number in text, and the decimal that it stands for. -/
inductive Written (count : Nat → Nat) : Bytes → Decimal → Prop
  | mk {s ds f fs e : Bytes} {x : Int} : IsSign s → IsDigits ds → Places f fs → Scale count e x →
      Written count (s ++ ds ++ f ++ e)
        ⟨s == [45], Bytes.decimalFrom 0 (ds ++ fs), x - fs.length⟩

variable {count : Nat → Nat} {text : Bytes} {v w : Decimal}

theorem Places.isFraction {f fs : Bytes} (h : Places f fs) : IsFraction f := by
  cases h with
  | none => exact Or.inl rfl
  | point hfs => exact Or.inr ⟨fs, hfs, rfl⟩

theorem Scale.isExponent {e : Bytes} {x : Int} (h : Scale count e x) : IsExponent e := by
  cases h with
  | none => exact Or.inl rfl
  | mark hx hdenotes =>
    obtain ⟨s, ds, hs, hds, rfl⟩ := exists_digits_of_denotes hdenotes
    exact Or.inr ⟨_, s, ds, hx, hs, hds, rfl⟩

theorem Written.isNumber (h : Written count text v) : IsNumber text := by
  cases h with
  | mk hs hds hf he => exact ⟨_, _, _, _, hs, hds, hf.isFraction, he.isExponent, rfl⟩

/-- Every number stands for a decimal. -/
theorem exists_written (count : Nat → Nat) (h : IsNumber text) : ∃ v, Written count text v := by
  obtain ⟨s, ds, f, e, hs, hds, hf, he, rfl⟩ := h
  obtain ⟨fs, hplaces⟩ : ∃ fs, Places f fs := by
    rcases hf with rfl | ⟨fs, hfs, rfl⟩
    · exact ⟨[], .none⟩
    · exact ⟨fs, .point hfs⟩
  obtain ⟨x, hscale⟩ : ∃ x, Scale count e x := by
    rcases he with rfl | ⟨mark, s, es, hmark, hs, hes, rfl⟩
    · exact ⟨0, .none⟩
    · obtain ⟨n, hdenotes⟩ := exists_denotes hs hes
      exact ⟨_, .mark hmark hdenotes⟩
  exact ⟨_, .mk hs hds hplaces hscale⟩

/-! ## One decimal for each number -/

/-- The text does not go on with a digit. -/
def EndsDigits (rest : Bytes) : Prop := ∀ x ∈ rest.head?, ¬ Bytes.isDigit x

theorem Scale.endsDigits {e : Bytes} {x : Int} (h : Scale count e x) : EndsDigits e := by
  cases h with
  | none => simp [EndsDigits]
  | mark hx => rcases hx with rfl | rfl <;> simp [EndsDigits, Bytes.isDigit]

theorem Places.endsDigits {f fs e : Bytes} (h : Places f fs) (he : EndsDigits e) :
    EndsDigits (f ++ e) := by
  cases h with
  | none => exact he
  | point => simp [EndsDigits, Bytes.isDigit]

theorem takeWhile_digits {ds rest : Bytes} (h : ∀ d ∈ ds, Bytes.isDigit d)
    (hrest : EndsDigits rest) : (ds ++ rest).takeWhile Bytes.isDigit = ds := by
  rw [List.takeWhile_append_of_pos h]
  cases rest with
  | nil => simp
  | cons x rest =>
    rw [List.takeWhile_cons_of_neg (hrest x rfl), List.append_nil]

theorem digits_inj {as bs r r' : Bytes} (ha : ∀ d ∈ as, Bytes.isDigit d)
    (hb : ∀ d ∈ bs, Bytes.isDigit d) (hr : EndsDigits r) (hr' : EndsDigits r')
    (h : as ++ r = bs ++ r') : as = bs ∧ r = r' := by
  have hsame : as = bs := by rw [← takeWhile_digits ha hr, h, takeWhile_digits hb hr']
  subst hsame
  exact ⟨rfl, List.append_cancel_left h⟩

theorem splitSign_of_isSign {s ds : Bytes} (hs : IsSign s) (hds : IsDigits ds) (rest : Bytes) :
    Numeral.splitSign (s ++ (ds ++ rest)) = (s == [45], ds ++ rest) := by
  rcases hs with rfl | rfl | rfl
  · obtain ⟨d, ds, rfl⟩ := List.exists_cons_of_ne_nil hds.1
    have hd := hds.2 d List.mem_cons_self
    -- a digit is no sign
    rw [List.nil_append, List.cons_append]
    unfold Numeral.splitSign
    split
    · next heq =>
      cases heq
      exact absurd hd (by decide)
    · next heq =>
      cases heq
      exact absurd hd (by decide)
    · rfl
  · rfl
  · rfl

theorem places_inj {f f' fs fs' e e' : Bytes} {x x' : Int} (hf : Places f fs) (hf' : Places f' fs')
    (he : Scale count e x) (he' : Scale count e' x') (h : f ++ e = f' ++ e') :
    fs = fs' ∧ e = e' := by
  have hpoint : ∀ {b e : Bytes} {x : Int}, Scale count e x → e ≠ 46 :: b := by
    rintro b e x hscale rfl
    cases hscale with
    | mark hx => rcases hx with hx | hx <;> cases hx
  cases hf with
  | none =>
    cases hf' with
    | none => exact ⟨rfl, h⟩
    | point => exact absurd h (hpoint he)
  | point hfs =>
    cases hf' with
    | none => exact absurd h.symm (hpoint he')
    | point hfs' => exact digits_inj hfs.2 hfs'.2 he.endsDigits he'.endsDigits (List.cons.inj h).2

theorem Scale.unique {e : Bytes} {x y : Int} (h : Scale count e x) (h' : Scale count e y) :
    x = y := by
  cases h with
  | none =>
    cases h' with
    | none => rfl
  | mark _ hdenotes =>
    cases h' with
    | mark _ hdenotes' =>
      rw [(Numeral.denotes_iff.mp hdenotes).2.2, (Numeral.denotes_iff.mp hdenotes').2.2]

/-- A number stands for one decimal only. -/
theorem Written.unique (h : Written count text v) (h' : Written count text w) : v = w := by
  cases h with
  | @mk s ds f fs e x hs hds hf he =>
    generalize htext : s ++ ds ++ f ++ e = text at h'
    cases h' with
    | mk hs' hds' hf' he' =>
      simp only [List.append_assoc] at htext
      have hsplit := congrArg Numeral.splitSign htext
      rw [splitSign_of_isSign hs hds, splitSign_of_isSign hs' hds', Prod.mk.injEq] at hsplit
      obtain ⟨hsign, hunsigned⟩ := hsplit
      obtain ⟨rfl, hrest⟩ := digits_inj hds.2 hds'.2 (hf.endsDigits he.endsDigits)
        (hf'.endsDigits he'.endsDigits) hunsigned
      obtain ⟨rfl, rfl⟩ := places_inj hf hf' he he' hrest
      rw [hsign, he.unique he']

/-! ## Reading them -/

theorem leading_of_lt {n : Nat} (h : n < 100000) : leading n = n := by
  have hlog : Nat.log 10 n < 5 := Nat.log_lt_of_lt_pow' (by decide) h
  rw [leading, Nat.sub_eq_zero_of_le (by omega), Nat.pow_zero, Nat.div_one]

theorem le_leading {n : Nat} (h : 10000 ≤ n) : 10000 ≤ leading n := by
  have hlog : 4 ≤ Nat.log 10 n := Nat.le_log_of_pow_le (by decide) h
  rw [leading, Nat.le_div_iff_mul_le (Nat.pow_pos (by decide))]
  calc 10000 * 10 ^ (Nat.log 10 n - 4) = 10 ^ (4 + (Nat.log 10 n - 4)) := (Nat.pow_add 10 4 _).symm
    _ = 10 ^ Nat.log 10 n := by rw [Nat.add_sub_cancel' hlog]
    _ ≤ n := Nat.pow_log_le_self 10 (by omega)

/-- One more digit counts while there are fewer than five. -/
theorem leading_digit (n : Nat) {d : Nat} (hd : d < 10) :
    leading (n * 10 + d) = if leading n < 10000 then leading n * 10 + d else leading n := by
  by_cases hsmall : n < 10000
  · have hself : leading n = n := leading_of_lt (by omega)
    rw [hself, if_pos hsmall, leading_of_lt (by omega)]
  · have hmany := le_leading (Nat.le_of_not_lt hsmall)
    have hlog : 4 ≤ Nat.log 10 n := Nat.le_log_of_pow_le (by decide) (Nat.le_of_not_lt hsmall)
    have hstep : (n * 10 + d) / 10 = n := by omega
    have hnext : Nat.log 10 (n * 10 + d) = Nat.log 10 n + 1 := by
      rw [Nat.log_of_one_lt_of_le (by decide) (by omega), hstep]
    rw [if_neg (by omega), leading, leading, hnext, Nat.sub_add_comm hlog, Nat.pow_succ',
      ← Nat.div_div_eq_div_mul, hstep]

/-- The digits of an exponent are read up to the fifth. -/
theorem exponentDigits_eq {ds : Bytes} (h : ∀ d ∈ ds, Bytes.isDigit d) (n : Nat) :
    exponentDigits (leading n) ds = (leading (Bytes.decimalFrom n ds), []) := by
  induction ds generalizing n with
  | nil => rfl
  | cons d ds ih =>
    obtain ⟨hd, hds⟩ := List.forall_mem_cons.mp h
    have h95 : d ≠ 95 := by rintro rfl; exact absurd hd (by decide)
    have hvalue := (Bytes.isDigit_iff d).mp hd
    rw [exponentDigits, if_neg h95, if_pos hd, ← leading_digit n (by omega), ih hds]
    rfl

theorem sign_mul_leading (negative : Bool) (n : Nat) :
    (if negative then -(n : Int) else n).sign *
        leading (if negative then -(n : Int) else n).natAbs =
      if negative then -(leading n : Int) else leading n := by
  rcases Nat.eq_zero_or_pos n with rfl | hn
  · cases negative <;> simp [leading]
  · have hsign : (n : Int).sign = 1 := Int.sign_eq_one_of_pos (by omega)
    cases negative <;> simp [hsign]

/-- An exponent counts with its first five digits. -/
theorem exponent?_of_scale {e : Bytes} {x : Int} (h : Scale leading e x) :
    exponent? e = some (x, []) := by
  cases h with
  | none => rfl
  | @mark mark b e hmark hdenotes =>
    have hlower : Bytes.lower mark = 101 := by rcases hmark with rfl | rfl <;> rfl
    obtain ⟨hne, hdigits, hvalue⟩ := Numeral.denotes_iff.mp hdenotes
    have hread := exponentDigits_eq hdigits 0
    rw [leading_of_lt (by decide)] at hread
    unfold exponent?
    dsimp only
    rw [if_pos hlower]
    generalize Numeral.splitSign b = split at *
    obtain ⟨negative, ds⟩ := split
    dsimp only at *
    cases ds with
    | nil => exact absurd rfl hne
    | cons d ds =>
      dsimp only
      rw [if_pos (hdigits d List.mem_cons_self), hread]
      rw [hvalue, sign_mul_leading]

/-- Behind the digits comes an exponent or nothing, and both end the mantissa. -/
theorem mantissa_exponent {e : Bytes} (h : IsExponent e) (m : Mantissa) :
    mantissa m e = (m, e) := by
  rcases h with rfl | ⟨x, s, ds, hx, -, -, rfl⟩
  · rfl
  · rcases hx with rfl | rfl <;> rfl

/-- Digits are added to the value and, behind the point, counted. -/
theorem mantissa_of_isDigits {ds : Bytes} (h : IsDigits ds) (m : Mantissa) (rest : Bytes) :
    mantissa m (ds ++ rest) =
      mantissa
        { m with
          value := Bytes.decimalFrom m.value ds
          places := if m.hasPoint then m.places + ds.length else m.places
          hasDigit := true } rest := by
  obtain ⟨hne, hdigits⟩ := h
  induction ds generalizing m with
  | nil => exact absurd rfl hne
  | cons d ds ih =>
    obtain ⟨hd, hds⟩ := List.forall_mem_cons.mp hdigits
    have h95 : d ≠ 95 := by rintro rfl; exact absurd hd (by decide)
    have h46 : d ≠ 46 := by rintro rfl; exact absurd hd (by decide)
    rw [List.cons_append, mantissa, if_neg h95, if_neg h46, if_pos hd]
    cases ds with
    | nil => rfl
    | cons e ds =>
      rw [ih _ (by simp) hds]
      cases hpoint : m.hasPoint with
      | false => rfl
      | true =>
        simp only [if_true, List.length_cons]
        rw [Nat.add_assoc, Nat.add_comm 1]
        rfl

/-- A fraction is added to the value, and its digits are counted. -/
theorem mantissa_of_places {f fs e : Bytes} (hf : Places f fs) (he : IsExponent e) {m : Mantissa}
    (hm : m.hasPoint = false) (hdigit : m.hasDigit) :
    ∃ k, mantissa m (f ++ e) = (k, e) ∧ k.value = Bytes.decimalFrom m.value fs ∧
      k.places = m.places + fs.length ∧ k.hasDigit := by
  cases hf with
  | none => exact ⟨m, mantissa_exponent he m, rfl, rfl, hdigit⟩
  | point hfs =>
    have hpoint : mantissa m (46 :: fs ++ e) = mantissa { m with hasPoint := true } (fs ++ e) := by
      rw [List.cons_append, mantissa, if_neg (by decide), if_pos rfl, hm]
      rfl
    rw [hpoint, mantissa_of_isDigits hfs, mantissa_exponent he]
    exact ⟨_, rfl, rfl, rfl, rfl⟩

theorem not_mem_underscore {l : Bytes} (h : IsNumber l) : (95 : UInt8) ∉ l := by
  obtain ⟨s, ds, f, e, hs, hds, hf, he, rfl⟩ := h
  have hdigits : ∀ {ds : Bytes}, IsDigits ds → (95 : UInt8) ∉ ds :=
    fun h hmem => absurd (h.2 95 hmem) (by decide)
  have hsign : ∀ {s : Bytes}, IsSign s → (95 : UInt8) ∉ s := by
    rintro s (rfl | rfl | rfl) <;> decide
  simp only [List.mem_append, not_or]
  refine ⟨⟨⟨hsign hs, hdigits hds⟩, ?_⟩, ?_⟩
  · rcases hf with rfl | ⟨ds, hds, rfl⟩
    · simp
    · simpa using hdigits hds
  · rcases he with rfl | ⟨x, s, ds, hx, hs, hds, rfl⟩
    · simp
    · have hne : (95 : UInt8) ≠ x := by rcases hx with rfl | rfl <;> decide
      simp [hne, hsign hs, hdigits hds]

/-- A number is read as the decimal that it stands for, where the first five digits of its exponent
count. -/
theorem Written.read? (h : Written leading text v) : read? text = some v := by
  have hplain : text.contains 95 = false := by simpa using not_mem_underscore h.isNumber
  cases h with
  | @mk s ds f fs e x hs hds hf he =>
    -- the reader goes through the parts of the number in order and stops at the end of each
    have hsplit : Numeral.splitSign (s ++ ds ++ f ++ e) = (s == [45], ds ++ (f ++ e)) := by
      rw [List.append_assoc, List.append_assoc, splitSign_of_isSign hs hds]
    have hdigits := mantissa_of_isDigits hds ⟨0, 0, false, false⟩ (f ++ e)
    obtain ⟨k, hmantissa, hvalue, hplaces, hdigit⟩ := mantissa_of_places hf he.isExponent
      (m := ⟨Bytes.decimalFrom 0 ds, 0, true, false⟩) rfl rfl
    unfold Decimal.read?
    rw [hsplit, hplain]
    dsimp only
    rw [hdigits]
    dsimp only
    rw [if_neg Bool.false_ne_true, hmantissa]
    dsimp only
    rw [if_pos hdigit, exponent?_of_scale he, hvalue, hplaces, Bytes.decimalFrom_append,
      Nat.zero_add]
    rfl

/-! ## Short exponents -/

/-- An exponent at the end of the text has no more than five digits, zeros in front of them
apart. -/
def ShortExponent (text : Bytes) : Prop :=
  ∀ front e x, text = front ++ e → Scale id e x → x.natAbs < 100000

theorem scale_leading_iff {e : Bytes} {x : Int} (h : ∀ y, Scale id e y → y.natAbs < 100000) :
    Scale leading e x ↔ Scale id e x := by
  have hsame : ∀ {mark : UInt8} {b : Bytes} {y : Int}, mark = 101 ∨ mark = 69 →
      Numeral.Denotes b y → e = mark :: b → leading y.natAbs = id y.natAbs := by
    rintro mark b y hmark hdenotes rfl
    have hshort := h _ (.mark hmark hdenotes)
    rw [id, Int.sign_mul_natAbs] at hshort
    exact leading_of_lt hshort
  constructor
  · intro hscale
    cases hscale with
    | none => exact .none
    | mark hmark hdenotes =>
      rw [hsame hmark hdenotes rfl]
      exact .mark hmark hdenotes
  · intro hscale
    cases hscale with
    | none => exact .none
    | mark hmark hdenotes =>
      rw [← hsame hmark hdenotes rfl]
      exact .mark hmark hdenotes

/-- Of a short exponent all digits count. -/
theorem written_leading_iff (h : ShortExponent text) :
    Written leading text v ↔ Written id text v := by
  constructor
  · intro hwritten
    cases hwritten with
    | mk hs hds hf he =>
      exact .mk hs hds hf ((scale_leading_iff fun y => h _ _ y rfl).mp he)
  · intro hwritten
    cases hwritten with
    | mk hs hds hf he =>
      exact .mk hs hds hf ((scale_leading_iff fun y => h _ _ y rfl).mpr he)

/-! ## The two ways to write a decimal -/

/-- The sign of a decimal in text. -/
def signText (negative : Bool) : Bytes := if negative then [45] else []

theorem isSign_signText (negative : Bool) : IsSign (signText negative) := by
  cases negative with
  | false => exact Or.inl rfl
  | true => exact Or.inr (Or.inr rfl)

theorem signText_beq (negative : Bool) : (signText negative == [45]) = negative := by
  cases negative <;> rfl

theorem denotes_signText (negative : Bool) {ds : Bytes} (h : IsDigits ds) :
    Numeral.Denotes (signText negative ++ ds)
      (if negative then -(Bytes.decimalFrom 0 ds : Int) else Bytes.decimalFrom 0 ds) := by
  cases negative with
  | false => exact .plain h.1 h.2
  | true => exact .minus h.1 h.2

/-- An integer with the sign of a decimal. -/
theorem int_eq_signText (i : Int) :
    ∃ negative ds, Bytes.int i = signText negative ++ ds ∧ IsDigits ds ∧
      i = if negative then -(Bytes.decimalFrom 0 ds : Int) else Bytes.decimalFrom 0 ds := by
  cases i with
  | ofNat n =>
    obtain ⟨hdigits, hvalue⟩ := Bytes.nat_digits n
    refine ⟨false, Bytes.nat n, rfl, hdigits, ?_⟩
    rw [hvalue]
    rfl
  | negSucc n =>
    obtain ⟨hdigits, hvalue⟩ := Bytes.nat_digits (n + 1)
    refine ⟨true, Bytes.nat (n + 1), rfl, hdigits, ?_⟩
    rw [hvalue]
    rfl

/-- A decimal without an exponent: a minus or nothing, and digits on both sides of a point. -/
inductive Plain : Bytes → Decimal → Prop
  | mk (negative : Bool) {ds fs : Bytes} (hds : IsDigits ds) (hfs : IsDigits fs) :
      Plain (signText negative ++ (ds ++ 46 :: fs))
        ⟨negative, Bytes.decimalFrom 0 (ds ++ fs), -(fs.length : Int)⟩

/-- A decimal with the exponent `e`: a minus or nothing, one digit in front of the point and at
least one behind it, and the exponent behind its mark, with a sign only below zero. -/
inductive Scientific (e : Int) : Bytes → Decimal → Prop
  | mk (negative : Bool) {down : Bool} {d : UInt8} {fs es : Bytes} (hd : Bytes.isDigit d)
      (hfs : IsDigits fs) (hes : IsDigits es)
      (he : e = if down then -(Bytes.decimalFrom 0 es : Int) else Bytes.decimalFrom 0 es) :
      Scientific e (signText negative ++ (d :: 46 :: (fs ++ 69 :: (signText down ++ es))))
        ⟨negative, Bytes.decimalFrom 0 (d :: fs), e - fs.length⟩

theorem Plain.written (h : Plain text v) : Written count text v := by
  cases h with
  | mk negative hds hfs =>
    have hscale : Scale count [] 0 := .none
    have hwritten := Written.mk (isSign_signText negative) hds (.point hfs) hscale
    rw [signText_beq, Int.zero_sub] at hwritten
    simpa using hwritten

/-- An exponent of up to five digits counts as a whole. -/
theorem Scientific.written {e : Int} (h : Scientific e text v) (hsmall : e.natAbs < 100000) :
    Written leading text v := by
  cases h with
  | @mk negative down d fs es hd hfs hes he =>
    have hone : IsDigits [d] := ⟨by simp, by simpa using hd⟩
    have hdenotes := denotes_signText down hes
    rw [← he] at hdenotes
    have hscale : Scale leading (69 :: (signText down ++ es)) (e.sign * leading e.natAbs) :=
      .mark (Or.inr rfl) hdenotes
    rw [leading_of_lt hsmall, Int.sign_mul_natAbs] at hscale
    have hwritten := Written.mk (isSign_signText negative) hone (.point hfs) hscale
    rw [signText_beq] at hwritten
    simpa using hwritten

end TagMachine.Decimal
