import TagMachine.Text.Utf8

/-!
Reading UTF-8 undoes writing it: a text starts with a character exactly if it starts with the bytes
of that character, so a text is valid exactly if it is the bytes of some characters.
-/

namespace TagMachine

theorem Bytes.toUInt8_eq {n : Nat} {a : UInt8} (h : n = a.toNat) : n.toUInt8 = a := by
  subst h
  exact UInt8.ofNat_toNat

theorem Bytes.toNat_toUInt8 {n : Nat} (h : n < 256) : n.toUInt8.toNat = n := by
  simp only [Nat.toUInt8_eq, UInt8.toNat_ofNat', Nat.reducePow]
  omega

namespace Utf8

open Bytes

/-! ## Bytes and codes -/

theorem toNat_ofNat {n : Nat} (h : n.isValidChar) : (Char.ofNat n).toNat = n := by
  unfold Char.ofNat
  rw [dif_pos h]
  rfl

theorem toNat_lt (c : Char) : c.toNat < 0x110000 := by
  have := c.valid
  unfold UInt32.isValidChar Nat.isValidChar at this
  unfold Char.toNat
  omega

theorem scalarFrom?_eq_some_iff {least n : Nat} {c : Char} :
    scalarFrom? least n = some c ↔ least ≤ n ∧ c.toNat = n := by
  unfold scalarFrom?
  constructor
  · intro h
    split at h
    · next hn =>
      cases h
      exact ⟨hn.1, toNat_ofNat hn.2⟩
    · cases h
  · rintro ⟨hle, rfl⟩
    rw [if_pos ⟨hle, c.valid⟩, Char.ofNat_toNat]

theorem continuation?_eq_some_iff {b : UInt8} {x : Nat} :
    continuation? b = some x ↔ x < 64 ∧ b = (0x80 + x).toUInt8 := by
  unfold continuation?
  simp only [UInt8.le_iff_toNat_le, UInt8.lt_iff_toNat_lt, UInt8.reduceToNat, Bool.and_eq_true,
    decide_eq_true_eq]
  constructor
  · intro h
    split at h
    · next hb =>
      rw [Option.some_inj] at h
      exact ⟨by omega, (toUInt8_eq (by omega)).symm⟩
    · cases h
  · rintro ⟨hx, rfl⟩
    rw [toNat_toUInt8 (by omega), if_pos (by omega), Nat.add_sub_cancel_left]

/-! ## One character -/

/-- The bytes of a character are those it has in a `String`. -/
theorem encode_eq (c : Char) : encode c = String.utf8EncodeChar c := by
  have hlt := toNat_lt c
  have hbyte : ∀ {x y : Nat}, x = y → x.toUInt8 = UInt8.ofNat y := by
    rintro x - rfl
    rfl
  unfold encode String.utf8EncodeChar
  unfold Char.toNat at *
  dsimp only
  generalize c.val.toNat = n at *
  by_cases h1 : n < 0x80
  · rw [if_pos h1, if_pos (show n ≤ 127 by omega), hbyte rfl]
  · rw [if_neg h1, if_neg (show ¬ n ≤ 127 by omega)]
    by_cases h2 : n < 0x800
    · rw [if_pos h2, if_pos (show n ≤ 2047 by omega), hbyte, hbyte] <;> omega
    · rw [if_neg h2, if_neg (show ¬ n ≤ 2047 by omega)]
      by_cases h3 : n < 0x10000
      · rw [if_pos h3, if_pos (show n ≤ 65535 by omega), hbyte, hbyte, hbyte] <;> omega
      · rw [if_neg h3, if_neg (show ¬ n ≤ 65535 by omega), hbyte, hbyte, hbyte, hbyte] <;> omega

/-- An ASCII byte in the bytes of a character is the character. -/
theorem toNat_of_mem_encode {c : Char} {x : UInt8} (hx : x ∈ encode c) (hlt : x.toNat < 128) :
    c.toNat = x.toNat := by
  have hc := toNat_lt c
  unfold encode at hx
  dsimp only at hx
  by_cases h1 : c.toNat < 0x80
  · rw [if_pos h1, List.mem_singleton] at hx
    rw [hx, Bytes.toNat_toUInt8 (by omega)]
  -- the bytes of any other character lie above ASCII
  · exfalso
    rw [if_neg h1] at hx
    by_cases h2 : c.toNat < 0x800
    · rw [if_pos h2] at hx
      simp only [List.mem_cons, List.not_mem_nil, or_false] at hx
      rcases hx with rfl | rfl <;> rw [Bytes.toNat_toUInt8 (by omega)] at hlt <;> omega
    · rw [if_neg h2] at hx
      by_cases h3 : c.toNat < 0x10000
      · rw [if_pos h3] at hx
        simp only [List.mem_cons, List.not_mem_nil, or_false] at hx
        rcases hx with rfl | rfl | rfl <;> rw [Bytes.toNat_toUInt8 (by omega)] at hlt <;> omega
      · rw [if_neg h3] at hx
        simp only [List.mem_cons, List.not_mem_nil, or_false] at hx
        rcases hx with rfl | rfl | rfl | rfl <;> rw [Bytes.toNat_toUInt8 (by omega)] at hlt <;>
          omega

/-- A text starts with the bytes of the character that is read off it. -/
theorem eq_encode_of_scalar? {b rest : Bytes} {c : Char} (h : scalar? b = some (c, rest)) :
    b = encode c ++ rest := by
  unfold scalar? at h
  cases b with
  | nil => cases h
  | cons a tail =>
    simp only [UInt8.lt_iff_toNat_lt, UInt8.reduceToNat, Option.bind_eq_bind] at h
    -- the first byte tells how many follow, and the bits of all of them are the code
    by_cases h1 : a.toNat < 128
    · simp only [if_pos h1, Option.some.injEq, Prod.mk.injEq] at h
      obtain ⟨rfl, rfl⟩ := h
      have hc : (Char.ofNat a.toNat).toNat = a.toNat := toNat_ofNat (Or.inl (by omega))
      simp only [encode, hc, if_pos h1, toUInt8_eq rfl, List.cons_append, List.nil_append]
    by_cases h2 : a.toNat < 192
    · simp only [if_neg h1, if_pos h2] at h
      cases h
    by_cases h3 : a.toNat < 224
    · simp only [if_neg h1, if_neg h2, if_pos h3] at h
      match tail, h with
      | b :: tail, h =>
        simp only [Option.bind_eq_some_iff, continuation?_eq_some_iff, scalarFrom?_eq_some_iff,
          Option.some.injEq, Prod.mk.injEq] at h
        obtain ⟨x, ⟨hx, rfl⟩, c, ⟨hle, hc⟩, rfl, rfl⟩ := h
        have hfirst : 0xC0 + c.toNat / 64 = a.toNat := by omega
        have hlast : c.toNat % 64 = x := by omega
        unfold encode
        dsimp only
        rw [if_neg (by omega), if_pos (by omega), hfirst, hlast, toUInt8_eq rfl]
        rfl
    by_cases h4 : a.toNat < 240
    · simp only [if_neg h1, if_neg h2, if_neg h3, if_pos h4] at h
      match tail, h with
      | b :: d :: tail, h =>
        simp only [Option.bind_eq_some_iff, continuation?_eq_some_iff, scalarFrom?_eq_some_iff,
          Option.some.injEq, Prod.mk.injEq] at h
        obtain ⟨x, ⟨hx, rfl⟩, y, ⟨hy, rfl⟩, c, ⟨hle, hc⟩, rfl, rfl⟩ := h
        have hfirst : 0xE0 + c.toNat / 4096 = a.toNat := by omega
        have hmiddle : c.toNat / 64 % 64 = x := by omega
        have hlast : c.toNat % 64 = y := by omega
        unfold encode
        dsimp only
        rw [if_neg (by omega), if_neg (by omega), if_pos (by omega), hfirst, hmiddle, hlast,
          toUInt8_eq rfl]
        rfl
    by_cases h5 : a.toNat < 248
    · simp only [if_neg h1, if_neg h2, if_neg h3, if_neg h4, if_pos h5] at h
      match tail, h with
      | b :: d :: e :: tail, h =>
        simp only [Option.bind_eq_some_iff, continuation?_eq_some_iff, scalarFrom?_eq_some_iff,
          Option.some.injEq, Prod.mk.injEq] at h
        obtain ⟨x, ⟨hx, rfl⟩, y, ⟨hy, rfl⟩, z, ⟨hz, rfl⟩, c, ⟨hle, hc⟩, rfl, rfl⟩ := h
        have hfirst : 0xF0 + c.toNat / 262144 = a.toNat := by omega
        have hsecond : c.toNat / 4096 % 64 = x := by omega
        have hthird : c.toNat / 64 % 64 = y := by omega
        have hlast : c.toNat % 64 = z := by omega
        unfold encode
        dsimp only
        rw [if_neg (by omega), if_neg (by omega), if_neg (by omega), hfirst, hsecond, hthird, hlast,
          toUInt8_eq rfl]
        rfl
    · simp only [if_neg h1, if_neg h2, if_neg h3, if_neg h4, if_neg h5] at h
      cases h

/-- Reading gives back a character that was written, and what follows it. -/
theorem scalar?_encode (c : Char) (rest : Bytes) : scalar? (encode c ++ rest) = some (c, rest) := by
  have hlt := toNat_lt c
  have hcont : ∀ n : Nat, continuation? (0x80 + n % 64).toUInt8 = some (n % 64) := fun n =>
    continuation?_eq_some_iff.mpr ⟨Nat.mod_lt _ (by decide), rfl⟩
  unfold encode
  dsimp only
  by_cases h1 : c.toNat < 0x80
  · rw [if_pos h1]
    unfold scalar?
    simp only [List.cons_append, List.nil_append, UInt8.lt_iff_toNat_lt, UInt8.reduceToNat]
    rw [toNat_toUInt8 (by omega), if_pos h1, Char.ofNat_toNat]
  by_cases h2 : c.toNat < 0x800
  · have hfirst : (0xC0 + c.toNat / 64).toUInt8.toNat = 0xC0 + c.toNat / 64 :=
      toNat_toUInt8 (by omega)
    have hcode : scalarFrom? 0x80 ((0xC0 + c.toNat / 64 - 0xC0) * 64 + c.toNat % 64) = some c :=
      scalarFrom?_eq_some_iff.mpr (by omega)
    rw [if_neg h1, if_pos h2]
    unfold scalar?
    simp only [List.cons_append, List.nil_append, UInt8.lt_iff_toNat_lt, UInt8.reduceToNat, hfirst]
    rw [if_neg (by omega), if_neg (by omega), if_pos (by omega), hcont]
    simp only [Option.bind_eq_bind, Option.bind_some, hcode]
  by_cases h3 : c.toNat < 0x10000
  · have hfirst : (0xE0 + c.toNat / 4096).toUInt8.toNat = 0xE0 + c.toNat / 4096 :=
      toNat_toUInt8 (by omega)
    have hcode : scalarFrom? 0x800 (((0xE0 + c.toNat / 4096 - 0xE0) * 64 + c.toNat / 64 % 64) * 64 +
        c.toNat % 64) = some c :=
      scalarFrom?_eq_some_iff.mpr (by omega)
    rw [if_neg h1, if_neg h2, if_pos h3]
    unfold scalar?
    simp only [List.cons_append, List.nil_append, UInt8.lt_iff_toNat_lt, UInt8.reduceToNat, hfirst]
    rw [if_neg (by omega), if_neg (by omega), if_neg (by omega), if_pos (by omega), hcont, hcont]
    simp only [Option.bind_eq_bind, Option.bind_some, hcode]
  · have hfirst : (0xF0 + c.toNat / 262144).toUInt8.toNat = 0xF0 + c.toNat / 262144 :=
      toNat_toUInt8 (by omega)
    have hcode : scalarFrom? 0x10000 ((((0xF0 + c.toNat / 262144 - 0xF0) * 64 +
        c.toNat / 4096 % 64) * 64 + c.toNat / 64 % 64) * 64 + c.toNat % 64) = some c :=
      scalarFrom?_eq_some_iff.mpr (by omega)
    rw [if_neg h1, if_neg h2, if_neg h3]
    unfold scalar?
    simp only [List.cons_append, List.nil_append, UInt8.lt_iff_toNat_lt, UInt8.reduceToNat, hfirst]
    rw [if_neg (by omega), if_neg (by omega), if_neg (by omega), if_neg (by omega),
      if_pos (by omega), hcont, hcont, hcont]
    simp only [Option.bind_eq_bind, Option.bind_some, hcode]

/-! ## Whole texts -/

theorem isValid_encodeAll (cs : List Char) : isValid (encodeAll cs) := by
  induction cs with
  | nil =>
    unfold encodeAll isValid
    rfl
  | cons c cs ih =>
    have hfirst : scalar? (encodeAll (c :: cs)) = some (c, encodeAll cs) :=
      scalar?_encode c (encodeAll cs)
    unfold isValid
    split
    · next hnone => simp [hfirst] at hnone
    · next hsome =>
      rw [hfirst] at hsome
      cases hsome
      exact ih

theorem exists_encodeAll_of_isValid {b : Bytes} (h : isValid b) : ∃ cs, b = encodeAll cs := by
  fun_induction isValid b with
  | case1 b hnone => exact ⟨[], List.isEmpty_iff.mp h⟩
  | case2 b c rest hsome ih =>
    obtain ⟨cs, rfl⟩ := ih h
    exact ⟨c :: cs, eq_encode_of_scalar? hsome⟩

/-- A text is valid exactly if it is the bytes of some string. -/
theorem isValid_iff {b : Bytes} : isValid b ↔ b.toByteArray.IsValidUTF8 := by
  have hall : ∀ cs : List Char, encodeAll cs = cs.flatMap String.utf8EncodeChar := by
    intro cs
    unfold encodeAll
    congr 1
    funext c
    exact encode_eq c
  constructor
  · intro h
    obtain ⟨cs, rfl⟩ := exists_encodeAll_of_isValid h
    rw [hall]
    exact ⟨cs, rfl⟩
  · rintro ⟨cs, hcs⟩
    obtain rfl := List.toByteArray_inj.mp hcs
    rw [← hall]
    exact isValid_encodeAll cs

/-! ## Texts that need not be valid -/

/-- The characters of a text: those of its valid sequences, and one replacement character for each
byte that starts none. -/
inductive Runes : Bytes → List Char → Prop
  | nil : Runes [] []
  | valid {rest : Bytes} {cs : List Char} (c : Char) : Runes rest cs →
      Runes (encode c ++ rest) (c :: cs)
  | invalid {a : UInt8} {rest : Bytes} {cs : List Char} : (∀ c tail, a :: rest ≠ encode c ++ tail) →
      Runes rest cs → Runes (a :: rest) (replacement :: cs)

theorem scalar?_eq_none_iff {b : Bytes} : scalar? b = none ↔ ∀ c rest, b ≠ encode c ++ rest := by
  constructor
  · rintro h c rest rfl
    rw [scalar?_encode] at h
    cases h
  · intro h
    cases hs : scalar? b with
    | none => rfl
    | some p => exact absurd (eq_encode_of_scalar? hs) (h p.1 p.2)

theorem first?_encode (c : Char) (rest : Bytes) :
    first? (encode c ++ rest) = some (c, rest) := by
  have hscalar := scalar?_encode c rest
  cases hb : encode c ++ rest with
  | nil =>
    rw [hb] at hscalar
    cases hscalar
  | cons x tail =>
    rw [hb] at hscalar
    rw [first?, hscalar, Option.getD_some]

theorem first?_invalid {a : UInt8} {rest : Bytes} (h : ∀ c tail, a :: rest ≠ encode c ++ tail) :
    first? (a :: rest) = some (replacement, rest) := by
  rw [first?, scalar?_eq_none_iff.mpr h, Option.getD_none]

/-- A text starts with the bytes of its first character, or with a byte that starts no character. -/
theorem first?_cases {b rest : Bytes} {c : Char} (h : first? b = some (c, rest)) :
    b = encode c ++ rest ∨
      c = replacement ∧ ∃ a, b = a :: rest ∧ ∀ d tail, a :: rest ≠ encode d ++ tail := by
  cases b with
  | nil => cases h
  | cons a tail =>
    rw [first?, Option.some_inj] at h
    cases hscalar : scalar? (a :: tail) with
    | some p =>
      rw [hscalar, Option.getD_some] at h
      subst h
      exact Or.inl (eq_encode_of_scalar? hscalar)
    | none =>
      rw [hscalar, Option.getD_none] at h
      cases h
      exact Or.inr ⟨rfl, a, rfl, scalar?_eq_none_iff.mp hscalar⟩

theorem runes_decode (b : Bytes) : Runes b (decode b) := by
  fun_induction decode b with
  | case1 b hnone =>
    cases b with
    | nil => exact .nil
    | cons a rest => cases hnone
  | case2 b c rest hfirst ih =>
    rcases first?_cases hfirst with rfl | ⟨rfl, a, rfl, hinvalid⟩
    · exact .valid c ih
    · exact .invalid hinvalid ih

theorem decode_of_first? {b rest : Bytes} {c : Char} (h : first? b = some (c, rest)) :
    decode b = c :: decode rest := by
  rw [decode]
  split
  · next hnone => cases h.symm.trans hnone
  · next hsome =>
    cases h.symm.trans hsome
    rfl

/-- A text has its characters and no others. -/
theorem Runes.unique {b : Bytes} {cs : List Char} (h : Runes b cs) : cs = decode b := by
  induction h with
  | nil =>
    rw [decode]
    rfl
  | @valid rest cs c _ ih => rw [decode_of_first? (first?_encode c rest), ih]
  | invalid hinvalid _ ih => rw [decode_of_first? (first?_invalid hinvalid), ih]

/-- Every ASCII byte of a text is one of its characters. -/
theorem Runes.mem_of_lt {b : Bytes} {cs : List Char} (h : Runes b cs) {x : UInt8} (hx : x ∈ b)
    (hlt : x.toNat < 128) : Char.ofNat x.toNat ∈ cs := by
  induction h with
  | nil => cases hx
  | valid c _ ih =>
    rcases List.mem_append.mp hx with hx | hx
    · rw [← toNat_of_mem_encode hx hlt, Char.ofNat_toNat]
      exact List.mem_cons_self ..
    · exact List.mem_cons_of_mem _ (ih hx)
  | @invalid a rest cs hnone _ ih =>
    rcases List.mem_cons.mp hx with rfl | hx
    · -- an ASCII byte is a valid sequence
      have hcode : (Char.ofNat x.toNat).toNat = x.toNat := toNat_ofNat (Or.inl (by omega))
      refine absurd ?_ (hnone (Char.ofNat x.toNat) rest)
      simp only [encode, hcode, if_pos hlt, toUInt8_eq rfl, List.cons_append, List.nil_append]
    · exact List.mem_cons_of_mem _ (ih hx)

/-- A valid text is the bytes of its characters. -/
theorem Runes.encodeAll_eq {b : Bytes} {cs : List Char} (h : Runes b cs) (hvalid : isValid b) :
    encodeAll cs = b := by
  obtain ⟨chars, rfl⟩ := exists_encodeAll_of_isValid hvalid
  have hruns : ∀ chars : List Char, Runes (encodeAll chars) chars := by
    intro chars
    induction chars with
    | nil => exact .nil
    | cons c chars ih => exact .valid c ih
  rw [h.unique, (hruns chars).unique.symm]

end Utf8

end TagMachine
