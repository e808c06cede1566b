import TagMachine.Text.Printable
import TagMachine.Text.Utf8

/-!
Double-quoted text. Writing escapes the quote, the backslash, control characters, everything that
is not printable and bytes that are no valid UTF-8; reading also takes octal escapes.
-/

namespace TagMachine.Quoted

/-- Control characters with an escape letter of their own. -/
def letterEscape? (n : Nat) : Option UInt8 :=
  match n with
  | 7 => some 97
  | 8 => some 98
  | 12 => some 102
  | 10 => some 110
  | 13 => some 114
  | 9 => some 116
  | 11 => some 118
  | _ => none

/-- A character inside quotes, without regard to quote and backslash: itself if it is printable,
else its shortest escape. -/
def writePlain (c : Char) : Bytes :=
  let n := c.toNat
  if isPrintable c then Utf8.encode c
  else match letterEscape? n with
    | some letter => [92, letter]
    | none =>
      if n < 0x20 || n == 0x7F then [92, 120] ++ Bytes.hex 2 n
      else if n < 0x10000 then [92, 117] ++ Bytes.hex 4 n
      else [92, 85] ++ Bytes.hex 8 n

/-- A character inside quotes. -/
def writeChar (c : Char) : Bytes :=
  if c = '"' || c = '\\' then 92 :: Utf8.encode c else writePlain c

/-- The text between the quotes. -/
def writeBody : Bytes → Bytes
  | [] => []
  | a :: tail =>
    match _h : Utf8.scalar? (a :: tail) with
    | some (c, rest) => writeChar c ++ writeBody rest
    | none => [92, 120] ++ Bytes.hex 2 a.toNat ++ writeBody tail
termination_by b => b.length
decreasing_by
  · exact Utf8.length_lt_of_scalar? ‹_›
  · simp

/-- A text in double quotes. -/
def write (b : Bytes) : Bytes := 34 :: writeBody b ++ [34]

/-! ## Reading -/

/-- The value of the next `width` digits in a base up to 16, and what follows them. -/
def digits? (base : Nat) : (width : Nat) → (value : Nat) → Bytes → Option (Nat × Bytes)
  | 0, value, b => some (value, b)
  | _ + 1, _, [] => none
  | width + 1, value, x :: b =>
    match Bytes.digitValue? x with
    | some d => if d < base then digits? base width (value * base + d) b else none
    | none => none

/-- The control character an escape letter stands for. -/
def letterValue? (letter : UInt8) : Option UInt8 :=
  match letter.toNat with
  | 97 => some 7
  | 98 => some 8
  | 102 => some 12
  | 110 => some 10
  | 114 => some 13
  | 116 => some 9
  | 118 => some 11
  | 92 => some 92
  | 34 => some 34
  | _ => none

/-- What an escape stands for, given the text after its backslash, and what follows the escape. -/
def readEscape? : Bytes → Option (Bytes × Bytes)
  | [] => none
  | letter :: b =>
    match letterValue? letter with
    | some byte => some ([byte], b)
    | none =>
      if letter = 120 then
        (digits? 16 2 0 b).map fun (n, rest) => ([n.toUInt8], rest)
      else if letter = 117 ∨ letter = 85 then
        match digits? 16 (if letter = 117 then 4 else 8) 0 b with
        | some (n, rest) => if n.isValidChar then some (Utf8.encode (Char.ofNat n), rest) else none
        | none => none
      else
        match digits? 8 3 0 (letter :: b) with
        | some (n, rest) => if n ≤ 255 then some ([n.toUInt8], rest) else none
        | none => none

/-- The digits of an escape are part of the text. -/
theorem length_le_of_digits? {base width value n : Nat} {b rest : Bytes}
    (h : digits? base width value b = some (n, rest)) : rest.length ≤ b.length := by
  fun_induction digits? base width value b with
  | case1 => simp_all
  | case2 => simp_all
  | case3 width value x b d hd hlt ih => have := ih h; simp; omega
  | case4 => simp_all
  | case5 => simp_all

/-- Reading an escape leaves no more than what stood after its backslash. -/
theorem length_le_of_readEscape? {b rest out : Bytes} (h : readEscape? b = some (out, rest)) :
    rest.length ≤ b.length := by
  match b, h with
  | letter :: b, h =>
    unfold readEscape? at h
    repeat' split at h
    all_goals simp_all [Option.map_eq_some_iff]
    all_goals grind [→ length_le_of_digits?]

/-- Reads the text between quotes; `none` if a line ends inside or an escape is malformed. A byte
that is no valid UTF-8 stands for the replacement character. -/
def readBody? : Bytes → Option Bytes
  | [] => some []
  | x :: tail =>
    if x = 10 then none
    else if x = 92 then
      match _h : readEscape? tail with
      | some (out, rest) => (readBody? rest).map (out ++ ·)
      | none => none
    else
      match _h : Utf8.first? (x :: tail) with
      | some (c, rest) => (readBody? rest).map (Utf8.encode c ++ ·)
      | none => none
termination_by b => b.length
decreasing_by
  · have := length_le_of_readEscape? ‹_›
    simp
    omega
  · exact Utf8.length_lt_of_first? ‹_›

end TagMachine.Quoted
