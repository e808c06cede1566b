import Mathlib.Algebra.Ring.Nat
import TagMachine.Proofs.SpacedLexemes

/-!
Quoted text read back. Whatever text is put in quotes, valid UTF-8 or not, is one string of a
source, and that string stands for the very same text.
-/

namespace TagMachine

/-! ## Digits -/

theorem Bytes.digit_cases {n : Nat} (h : n < 16) :
    digitValue? (digit n) = some n ∧ digit n ≠ 34 ∧ digit n ≠ 92 := by
  have hall : ∀ n < 16, digitValue? (digit n) = some n ∧ digit n ≠ 34 ∧ digit n ≠ 92 := by decide
  exact hall n h

theorem Token.isBody_hex (width n : Nat) : IsBody (Bytes.hex width n) := by
  induction width generalizing n with
  | zero => exact .nil
  | succ width ih =>
    obtain ⟨-, hquote, hslash⟩ := Bytes.digit_cases (Nat.mod_lt n (by decide : 16 > 0))
    exact (ih (n / 16)).append (.byte hquote hslash .nil)

namespace Quoted

open Token

/-- One more digit behind those that are read. -/
theorem digits?_succ {base width value x d : Nat} {b rest : Bytes} {y : UInt8}
    (h : digits? base width value b = some (x, y :: rest)) (hy : Bytes.digitValue? y = some d)
    (hd : d < base) : digits? base (width + 1) value b = some (x * base + d, rest) := by
  fun_induction digits? base width value b with
  | case1 value b =>
    cases h
    simp [digits?, hy, hd]
  | case2 => cases h
  | case3 width value z b e hz he ih =>
    rw [digits?, hz]
    simp only [he, if_true]
    exact ih h
  | case4 => cases h
  | case5 => cases h

theorem digits?_hex (width n : Nat) (rest : Bytes) :
    digits? 16 width 0 (Bytes.hex width n ++ rest) = some (n % 16 ^ width, rest) := by
  induction width generalizing n rest with
  | zero => simp [digits?, Bytes.hex, Nat.mod_one]
  | succ width ih =>
    have hlt : n % 16 < 16 := Nat.mod_lt n (by decide)
    have hfront := ih (n / 16) (Bytes.digit (n % 16) :: rest)
    -- the last digit of a number is its remainder, the others are its quotient
    have hvalue : n / 16 % 16 ^ width * 16 + n % 16 = n % 16 ^ (width + 1) := by
      rw [Nat.pow_succ', Nat.mod_mul]
      omega
    rw [Bytes.hex, List.append_assoc, List.singleton_append,
      digits?_succ hfront (Bytes.digit_cases hlt).1 hlt, hvalue]

/-- Hexadecimal digits are read back. -/
theorem digits?_hex_of_lt {width n : Nat} (h : n < 16 ^ width) (rest : Bytes) :
    digits? 16 width 0 (Bytes.hex width n ++ rest) = some (n, rest) := by
  rw [digits?_hex, Nat.mod_eq_of_lt h]

/-! ## Escapes -/

/-- The text behind a backslash, and the bytes it stands for. -/
inductive Escape : Bytes → Bytes → Prop
  | letter {y x : UInt8} : letterValue? y = some x → Escape [y] [x]
  | byte (x : UInt8) : Escape (120 :: Bytes.hex 2 x.toNat) [x]
  | short {c : Char} : c.toNat < 16 ^ 4 → Escape (117 :: Bytes.hex 4 c.toNat) (Utf8.encode c)
  | long (c : Char) : Escape (85 :: Bytes.hex 8 c.toNat) (Utf8.encode c)

theorem Escape.read {e out : Bytes} (h : Escape e out) (rest : Bytes) :
    readEscape? (e ++ rest) = some (out, rest) := by
  cases h with
  | letter hy => simp [readEscape?, hy]
  | byte x =>
    have hx : x.toNat < 16 ^ 2 := x.toNat_lt
    simp [readEscape?, letterValue?, digits?_hex_of_lt hx]
  | @short c hc =>
    have hvalid : c.toNat.isValidChar := c.valid
    simp [readEscape?, letterValue?, digits?_hex_of_lt hc, hvalid]
  | long c =>
    have hvalid : c.toNat.isValidChar := c.valid
    have hc : c.toNat < 16 ^ 8 := Nat.lt_trans (Utf8.toNat_lt c) (by decide)
    simp [readEscape?, letterValue?, digits?_hex_of_lt hc, hvalid]

theorem Escape.isBody {e out : Bytes} (h : Escape e out) : IsBody (92 :: e) := by
  cases h with
  | letter hy =>
    refine .escape ?_ .nil
    rintro rfl
    cases hy
  | byte x => exact .escape (by decide) (isBody_hex _ _)
  | short => exact .escape (by decide) (isBody_hex _ _)
  | long c => exact .escape (by decide) (isBody_hex _ _)

theorem readBody?_escape {e out : Bytes} (h : Escape e out) (rest : Bytes) :
    readBody? (92 :: e ++ rest) = (readBody? rest).map (out ++ ·) := by
  have hread := h.read rest
  rw [List.cons_append, readBody?, if_neg (by decide), if_pos rfl]
  split
  · next heq =>
    rw [hread] at heq
    cases heq
    rfl
  · next heq =>
    rw [hread] at heq
    cases heq

/-! ## Characters -/

/-- The character stands for itself inside quotes. -/
def IsPlain (c : Char) : Prop := c ≠ '"' ∧ c ≠ '\\' ∧ c ≠ '\n'

theorem IsPlain.ne_of_mem {c : Char} (h : IsPlain c) {x : UInt8} (hx : x ∈ Utf8.encode c) :
    x ≠ 34 ∧ x ≠ 92 ∧ x ≠ 10 := by
  have hascii : ∀ y : UInt8, y.toNat < 128 → x = y → c = Char.ofNat y.toNat := by
    rintro y hy rfl
    rw [← Utf8.toNat_of_mem_encode hx hy, Char.ofNat_toNat]
  obtain ⟨hquote, hslash, hline⟩ := h
  exact ⟨fun hx => hquote (hascii 34 (by decide) hx), fun hx => hslash (hascii 92 (by decide) hx),
    fun hx => hline (hascii 10 (by decide) hx)⟩

theorem IsPlain.isBody {c : Char} (h : IsPlain c) : IsBody (Utf8.encode c) := by
  have hall : ∀ b : Bytes, (∀ x ∈ b, x ≠ 34 ∧ x ≠ 92) → IsBody b := by
    intro b hb
    induction b with
    | nil => exact .nil
    | cons x b ih =>
      obtain ⟨⟨hquote, hslash⟩, hb⟩ := List.forall_mem_cons.mp hb
      exact .byte hquote hslash (ih hb)
  apply hall
  intro x hx
  exact ⟨(h.ne_of_mem hx).1, (h.ne_of_mem hx).2.1⟩

theorem readBody?_plain {c : Char} (h : IsPlain c) (rest : Bytes) :
    readBody? (Utf8.encode c ++ rest) = (readBody? rest).map (Utf8.encode c ++ ·) := by
  have hfirst := Utf8.first?_encode c rest
  cases hc : Utf8.encode c with
  | nil =>
    have hnone := Utf8.scalar?_encode c []
    rw [hc] at hnone
    cases hnone
  | cons x tail =>
    obtain ⟨-, hslash, hline⟩ := h.ne_of_mem (x := x) (by simp [hc])
    rw [hc, List.cons_append] at hfirst
    rw [List.cons_append, readBody?]
    simp only [hline, hslash, if_false]
    split
    · next hread =>
      rw [hfirst] at hread
      cases hread
      rw [hc]
    · next hnone =>
      rw [hfirst] at hnone
      cases hnone

theorem letterValue?_letterEscape {n : Nat} {letter : UInt8} (h : letterEscape? n = some letter) :
    n < 128 ∧ letterValue? letter = some n.toUInt8 := by
  unfold letterEscape? at h
  split at h <;> cases h <;> decide

theorem encode_of_lt {c : Char} (h : c.toNat < 128) : Utf8.encode c = [c.toNat.toUInt8] := by
  rw [Utf8.encode, if_pos h]

/-- A character is written as it is, or as an escape that stands for it. -/
theorem writeChar_cases (c : Char) :
    IsPlain c ∧ writeChar c = Utf8.encode c ∨
      ∃ e, Escape e (Utf8.encode c) ∧ writeChar c = 92 :: e := by
  by_cases hspecial : c = '"' ∨ c = '\\'
  · right
    refine ⟨Utf8.encode c, ?_, ?_⟩
    · rcases hspecial with rfl | rfl
      · exact .letter (y := 34) rfl
      · exact .letter (y := 92) rfl
    · rw [writeChar, if_pos (by simpa using hspecial)]
  · have hwrite : writeChar c = writePlain c := by rw [writeChar, if_neg (by simpa using hspecial)]
    rw [not_or] at hspecial
    rw [hwrite]
    unfold writePlain
    dsimp only
    by_cases hprint : isPrintable c
    · left
      rw [if_pos hprint]
      refine ⟨⟨hspecial.1, hspecial.2, ?_⟩, rfl⟩
      rintro rfl
      exact absurd hprint (by decide +kernel)
    · right
      rw [if_neg hprint]
      split
      · next letter hletter =>
        obtain ⟨hlt, hvalue⟩ := letterValue?_letterEscape hletter
        rw [encode_of_lt hlt]
        exact ⟨[letter], .letter hvalue, rfl⟩
      · by_cases hlow : (c.toNat < 0x20 || c.toNat == 0x7F) = true
        · rw [if_pos hlow]
          have hlt : c.toNat < 128 := by
            simp only [Bool.or_eq_true, decide_eq_true_eq, beq_iff_eq] at hlow
            omega
          have hbyte := Escape.byte c.toNat.toUInt8
          rw [Bytes.toNat_toUInt8 (by omega)] at hbyte
          rw [encode_of_lt hlt]
          exact ⟨_, hbyte, rfl⟩
        · rw [if_neg hlow]
          by_cases hshort : c.toNat < 0x10000
          · rw [if_pos hshort]
            exact ⟨_, .short hshort, rfl⟩
          · rw [if_neg hshort]
            exact ⟨_, .long c, rfl⟩

/-! ## Texts -/

theorem isBody_writeChar (c : Char) : IsBody (writeChar c) := by
  rcases writeChar_cases c with ⟨hplain, hwrite⟩ | ⟨e, he, hwrite⟩
  · rw [hwrite]
    exact hplain.isBody
  · rw [hwrite]
    exact he.isBody

theorem readBody?_writeChar (c : Char) (rest : Bytes) :
    readBody? (writeChar c ++ rest) = (readBody? rest).map (Utf8.encode c ++ ·) := by
  rcases writeChar_cases c with ⟨hplain, hwrite⟩ | ⟨e, he, hwrite⟩
  · rw [hwrite, readBody?_plain hplain]
  · rw [hwrite, readBody?_escape he]

theorem isBody_writeBody (b : Bytes) : IsBody (writeBody b) := by
  fun_induction writeBody b with
  | case1 => exact .nil
  | case2 a tail c rest _ ih => exact (isBody_writeChar c).append ih
  | case3 a tail _ ih => exact (Escape.byte a).isBody.append ih

/-- What is written between quotes is read back. -/
theorem readBody?_writeBody (b : Bytes) : readBody? (writeBody b) = some b := by
  fun_induction writeBody b with
  | case1 => simp [readBody?]
  | case2 a tail c rest hscalar ih =>
    rw [readBody?_writeChar, ih, Option.map_some, ← Utf8.eq_encode_of_scalar? hscalar]
  | case3 a tail _ ih =>
    have hescape := readBody?_escape (Escape.byte a) (writeBody tail)
    rw [ih] at hescape
    exact hescape

/-- A text in quotes is a string that stands for the text. -/
theorem isString_write (b : Bytes) : IsString (write b) ∧ stringValue (write b) = b := by
  refine ⟨⟨writeBody b, isBody_writeBody b, rfl⟩, ?_⟩
  have hbody : (write b).tail.dropLast = writeBody b := by simp [write]
  rw [stringValue, hbody, readBody?_writeBody]
  rfl

end Quoted

end TagMachine
