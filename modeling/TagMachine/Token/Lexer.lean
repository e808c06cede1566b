import TagMachine.Token

/-!
Cutting a text into tokens. Whitespace and comments, which run from `//` to the end of the line,
separate tokens and belong to none.
-/

namespace TagMachine

/-- A place in a text together with what is left of the text there. -/
structure Cursor where
  rest : Bytes
  pos : Position
  deriving DecidableEq, Repr

namespace Cursor

/-- The start of a text. -/
def ofText (b : Bytes) : Cursor := ⟨b, .start⟩

/-- The cursor `n` bytes on. -/
def skip (c : Cursor) (n : Nat) : Cursor := ⟨c.rest.drop n, c.pos.advance (c.rest.take n)⟩

/-- The length of the comment at the start of a text, up to but without its newline. -/
def comment? : Bytes → Option Nat
  | 47 :: 47 :: rest => some (2 + (rest.takeWhile (· != 10)).length)
  | _ => none

/-- The length of the whitespace character or comment at the start of a text. -/
def blank? (b : Bytes) : Option Nat :=
  match Utf8.first? b with
  | none => none
  | some (c, rest) => if isSpace c then some (b.length - rest.length) else comment? b

theorem blank?_pos {b : Bytes} {n : Nat} (h : blank? b = some n) : 0 < n ∧ b ≠ [] := by
  unfold blank? at h
  split at h
  · simp at h
  · next c rest hf =>
    have hl := Utf8.length_lt_of_first? hf
    have hb : b ≠ [] := by rintro rfl; simp at hl
    split at h
    · simp only [Option.some.injEq] at h
      exact ⟨by omega, hb⟩
    · unfold comment? at h
      split at h
      · simp only [Option.some.injEq] at h
        exact ⟨by omega, hb⟩
      · simp at h

/-- The cursor behind all whitespace and comments. -/
def skipBlanks (c : Cursor) : Cursor :=
  match _h : blank? c.rest with
  | some n => skipBlanks (c.skip n)
  | none => c
termination_by c.rest.length
decreasing_by
  have hn := blank?_pos ‹_›
  have := List.length_pos_iff.2 hn.2
  simp [skip]
  omega

theorem length_skipBlanks_le (c : Cursor) : c.skipBlanks.rest.length ≤ c.rest.length := by
  fun_induction skipBlanks c with
  | case1 c n h ih =>
    have : (c.skip n).rest.length ≤ c.rest.length := by simp [skip]
    omega
  | case2 => simp

/-- The next token and the cursor behind it. At the end of the text the token is the end token. -/
def next (c : Cursor) : Token × Cursor :=
  let c := c.skipBlanks
  if c.rest.isEmpty then (⟨.eof, [], [], c.pos⟩, c)
  else
    let r := Token.recognize c.rest
    let literal :=
      if r.kind == .illegal then []
      else if r.kind == .string then Token.stringValue r.lexeme
      else r.lexeme
    (⟨r.kind, r.lexeme, literal, c.pos⟩, c.skip r.lexeme.length)

theorem length_next_lt {c : Cursor} (h : c.next.1.kind ≠ .eof) :
    c.next.2.rest.length < c.rest.length := by
  have hle := c.length_skipBlanks_le
  unfold next at h ⊢
  by_cases he : c.skipBlanks.rest.isEmpty
  · simp [he] at h
  · have hne : c.skipBlanks.rest ≠ [] := by simpa using he
    have hp := List.length_pos_iff.2 hne
    have hl := List.length_pos_iff.2 (Token.recognize_lexeme_ne_nil hne)
    simp [he, skip]
    omega

/-- Every token from the cursor on, the end token last. -/
def tokens (c : Cursor) : List Token :=
  if _h : c.next.1.kind = .eof then [c.next.1] else c.next.1 :: tokens c.next.2
termination_by c.rest.length
decreasing_by exact length_next_lt ‹_›

end Cursor

/-- The tokens of a text, the end token last. -/
def Token.ofText (b : Bytes) : List Token := (Cursor.ofText b).tokens

end TagMachine
