import TagMachine.Text.Utf8

/-!
Whitespace, and the words it separates.
-/

namespace TagMachine

/-- `c` is whitespace: the ASCII blanks and the separators of the other blocks. -/
def isSpace (c : Char) : Bool :=
  let n := c.toNat
  (9 ≤ n && n ≤ 13) || n == 0x20 || n == 0x85 || n == 0xA0 || n == 0x1680 ||
    (0x2000 ≤ n && n ≤ 0x200A) || n == 0x2028 || n == 0x2029 || n == 0x202F || n == 0x205F ||
    n == 0x3000

/-- The text starts with a whitespace character. -/
def Bytes.startsWithSpace (b : Bytes) : Bool :=
  match Utf8.first? b with
  | some (c, _) => isSpace c
  | none => false

/-- The text up to its first whitespace character, and the rest. -/
def Bytes.spanWord (b : Bytes) : Bytes × Bytes :=
  match _h : Utf8.first? b with
  | none => ([], [])
  | some (c, rest) =>
    if isSpace c then ([], b)
    else
      let (word, after) := spanWord rest
      (b.take (b.length - rest.length) ++ word, after)
termination_by b.length
decreasing_by exact Utf8.length_lt_of_first? ‹_›

/-- The words of a text that continues the word `current`. -/
def Bytes.wordsFrom (current b : Bytes) : List Bytes :=
  match _h : Utf8.first? b with
  | none => if current.isEmpty then [] else [current]
  | some (c, rest) =>
    if isSpace c then
      if current.isEmpty then wordsFrom [] rest else current :: wordsFrom [] rest
    else wordsFrom (current ++ b.take (b.length - rest.length)) rest
termination_by b.length
decreasing_by all_goals exact Utf8.length_lt_of_first? ‹_›

/-- The whitespace-separated words of a text. -/
def Bytes.words (b : Bytes) : List Bytes := Bytes.wordsFrom [] b

end TagMachine
