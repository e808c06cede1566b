import TagMachine.Text.Bytes

/-!
UTF-8. A byte that starts no valid sequence is read on its own, as the replacement character;
overlong forms, surrogates and codes above U+10FFFF are not valid.
-/

namespace TagMachine.Utf8

/-- The character read in place of a byte that starts no valid sequence. -/
def replacement : Char := '\uFFFD'

/-- The bytes of a character. -/
def encode (c : Char) : Bytes :=
  let n := c.toNat
  if n < 0x80 then [n.toUInt8]
  else if n < 0x800 then [(0xC0 + n / 64).toUInt8, (0x80 + n % 64).toUInt8]
  else if n < 0x10000 then
    [(0xE0 + n / 4096).toUInt8, (0x80 + n / 64 % 64).toUInt8, (0x80 + n % 64).toUInt8]
  else
    [(0xF0 + n / 262144).toUInt8, (0x80 + n / 4096 % 64).toUInt8, (0x80 + n / 64 % 64).toUInt8,
      (0x80 + n % 64).toUInt8]

/-- The six bits of a continuation byte. -/
def continuation? (b : UInt8) : Option Nat :=
  if 0x80 ≤ b && b < 0xC0 then some (b.toNat - 0x80) else none

/-- The character with code `n`, if it is a scalar value not below `least`. -/
def scalarFrom? (least n : Nat) : Option Char :=
  if least ≤ n ∧ n.isValidChar then some (Char.ofNat n) else none

/-- The valid sequence at the start of a text, and what follows it. -/
def scalar? : Bytes → Option (Char × Bytes)
  | [] => none
  | a :: rest =>
    if a < 0x80 then some (Char.ofNat a.toNat, rest)
    else if a < 0xC0 then none
    else if a < 0xE0 then
      match rest with
      | b :: rest => do
        let x ← continuation? b
        let c ← scalarFrom? 0x80 ((a.toNat - 0xC0) * 64 + x)
        some (c, rest)
      | [] => none
    else if a < 0xF0 then
      match rest with
      | b :: d :: rest => do
        let x ← continuation? b
        let y ← continuation? d
        let c ← scalarFrom? 0x800 (((a.toNat - 0xE0) * 64 + x) * 64 + y)
        some (c, rest)
      | _ => none
    else if a < 0xF8 then
      match rest with
      | b :: d :: e :: rest => do
        let x ← continuation? b
        let y ← continuation? d
        let z ← continuation? e
        let c ← scalarFrom? 0x10000 ((((a.toNat - 0xF0) * 64 + x) * 64 + y) * 64 + z)
        some (c, rest)
      | _ => none
    else none

/-- A valid sequence takes at least one byte. -/
theorem length_lt_of_scalar? {b rest : Bytes} {c : Char} (h : scalar? b = some (c, rest)) :
    rest.length < b.length := by
  unfold scalar? at h
  repeat' split at h
  all_goals simp_all [Option.bind_eq_some_iff]
  all_goals grind

/-- The first character of a text and what follows it; `none` for the empty text only. -/
def first? : Bytes → Option (Char × Bytes)
  | [] => none
  | a :: rest => some ((scalar? (a :: rest)).getD (replacement, rest))

/-- The first character takes at least one byte. -/
theorem length_lt_of_first? {b rest : Bytes} {c : Char} (h : first? b = some (c, rest)) :
    rest.length < b.length := by
  match b, h with
  | a :: r, h =>
    cases hs : scalar? (a :: r) with
    | none => simp_all [first?]
    | some p =>
      have := length_lt_of_scalar? (b := a :: r) (c := p.1) hs
      simp_all [first?]

/-- All characters of a text. -/
def decode (b : Bytes) : List Char :=
  match _h : first? b with
  | none => []
  | some (c, rest) => c :: decode rest
termination_by b.length
decreasing_by exact length_lt_of_first? ‹_›

/-- Every byte belongs to a valid sequence. -/
def isValid (b : Bytes) : Bool :=
  match _h : scalar? b with
  | none => b.isEmpty
  | some (_, rest) => isValid rest
termination_by b.length
decreasing_by exact length_lt_of_scalar? ‹_›

/-- The bytes of the characters one after another. -/
def encodeAll (cs : List Char) : Bytes := cs.flatMap encode

/-- The bytes of a code; one that is no scalar value is written as the replacement character. -/
def encodeCode (code : Int) : Bytes :=
  if 0 ≤ code ∧ code.toNat.isValidChar then encode (Char.ofNat code.toNat) else encode replacement

/-- `p` holds of some character of the text. -/
def any (p : Char → Bool) (b : Bytes) : Bool := (decode b).any p

end TagMachine.Utf8
