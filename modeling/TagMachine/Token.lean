import TagMachine.Text.Quoted
import TagMachine.Text.Space

/-!
Tokens of program text: numbers, names, strings and colons. A token ends where the text ends or
where whitespace, a colon or a comment starts; whatever runs on is one illegal token.
-/

namespace TagMachine

/-- A place in a text. Lines and columns start at one, offsets at zero, and columns count bytes. -/
structure Position where
  line : Nat
  column : Nat
  offset : Nat
  deriving DecidableEq, Repr

namespace Position

/-- Where a text starts. -/
def start : Position := ⟨1, 1, 0⟩

/-- The place behind one more byte. -/
def next (p : Position) (b : UInt8) : Position :=
  if b = 10 then ⟨p.line + 1, 1, p.offset + 1⟩ else ⟨p.line, p.column + 1, p.offset + 1⟩

/-- The place behind more text. -/
def advance (p : Position) (b : Bytes) : Position := b.foldl next p

/-- Line and column. -/
def text (p : Position) : Bytes := Bytes.cat [Bytes.nat p.line, ":", Bytes.nat p.column]

end Position

namespace Token

/-- The classes of tokens. -/
inductive Kind where
  | eof
  | number
  | name
  | string
  | colon
  | illegal
  deriving DecidableEq, Repr, Inhabited

namespace Kind

/-- The classes in the order of their numbers. -/
def all : List Kind := [eof, number, name, string, colon, illegal]

/-- How a class is shown. -/
def text : Kind → Bytes
  | eof => "$"
  | number => "num"
  | name => "id"
  | string => "string"
  | colon => ":"
  | illegal => "illegal"

/-- How the class with a given number is shown. -/
def numberText (n : Int) : Bytes :=
  match if 0 ≤ n then all[n.toNat]? else none with
  | some k => k.text
  | none => Bytes.cat ["UNKNOWN(", Bytes.int n, ")"]

end Kind

/-! ## Lexemes

Each function splits a lexeme of its class off the start of a text. -/

/-- A sign, or nothing. -/
def sign (b : Bytes) : Bytes × Bytes :=
  match b with
  | x :: rest => if x = 43 || x = 45 then ([x], rest) else ([], b)
  | [] => ([], [])

/-- As many digits as there are. -/
def digits (b : Bytes) : Bytes × Bytes := (b.takeWhile Bytes.isDigit, b.dropWhile Bytes.isDigit)

/-- A point with digits behind it, or nothing. -/
def fraction (b : Bytes) : Bytes × Bytes :=
  match b with
  | 46 :: rest =>
    let (ds, after) := digits rest
    if ds.isEmpty then ([], b) else (46 :: ds, after)
  | _ => ([], b)

/-- An exponent, or nothing. -/
def exponent (b : Bytes) : Bytes × Bytes :=
  match b with
  | [] => ([], [])
  | e :: rest =>
    if e = 101 || e = 69 then
      let (s, unsigned) := sign rest
      let (ds, after) := digits unsigned
      if ds.isEmpty then ([], b) else (e :: s ++ ds, after)
    else ([], b)

/-- A signed decimal number with optional fraction and exponent. -/
def number? (b : Bytes) : Option (Bytes × Bytes) :=
  let (s, unsigned) := sign b
  let (ds, afterDigits) := digits unsigned
  if ds.isEmpty then none
  else
    let (f, afterFraction) := fraction afterDigits
    let (e, after) := exponent afterFraction
    some (s ++ ds ++ f ++ e, after)

/-- The rest of a string behind its opening quote, up to the closing one. A backslash takes the next
byte with it, which may not end the line. -/
def stringTail? : Bytes → Option (Bytes × Bytes)
  | [] => none
  | x :: rest =>
    if x = 34 then some ([34], rest)
    else if x = 92 then
      match rest with
      | [] => none
      | y :: rest =>
        if y = 10 then none
        else (stringTail? rest).map fun (body, after) => (92 :: y :: body, after)
    else (stringTail? rest).map fun (body, after) => (x :: body, after)

/-- A string with its quotes. -/
def string? : Bytes → Option (Bytes × Bytes)
  | 34 :: rest => (stringTail? rest).map fun (body, after) => (34 :: body, after)
  | _ => none

/-- A byte that may start a name. -/
def isNameStart (b : UInt8) : Bool := Bytes.isLetter b || b == 95

/-- A byte that may continue a name. -/
def isNamePart (b : UInt8) : Bool := isNameStart b || Bytes.isDigit b || b == 46

/-- A mnemonic or a label name. -/
def name? : Bytes → Option (Bytes × Bytes)
  | x :: rest =>
    if isNameStart x then some (x :: rest.takeWhile isNamePart, rest.dropWhile isNamePart) else none
  | [] => none

/-- The lexeme at the start of a text, its class and what follows it. The classes start with
different bytes, so at most one fits. -/
def lexeme? (b : Bytes) : Option (Kind × Bytes × Bytes) :=
  match number? b with
  | some r => some (.number, r)
  | none =>
    match string? b with
    | some r => some (.string, r)
    | none =>
      match name? b with
      | some r => some (.name, r)
      | none =>
        match b with
        | 58 :: rest => some (.colon, [58], rest)
        | _ => none

/-! ## Recognition -/

/-- A token may end in front of this text. -/
def isEnd (b : Bytes) : Bool :=
  match b with
  | [] => true
  | x :: rest => x == 58 || (x == 47 && rest.head? == some 47) || b.startsWithSpace

/-- The text up to the next whitespace, or one character if it starts with whitespace. -/
def illegalRun (b : Bytes) : Bytes :=
  match Utf8.first? b with
  | none => []
  | some (c, rest) => if isSpace c then b.take (b.length - rest.length) else b.spanWord.1

/-- What stands at the start of a text. -/
structure Recognized where
  kind : Kind
  lexeme : Bytes
  /-- The lexeme is a token of the language. -/
  accepted : Bool

/-- The token at the start of a text. -/
def recognize (b : Bytes) : Recognized :=
  if b.isEmpty then ⟨.eof, [], false⟩
  else
    match lexeme? b with
    | some (kind, lexeme, rest) =>
      if kind == .colon || isEnd rest then ⟨kind, lexeme, true⟩ else ⟨.illegal, illegalRun b, false⟩
    | none => ⟨.illegal, illegalRun b, false⟩

end Token

/-- A token and its place. The literal is the lexeme, for a string the text it stands for, and empty
for an illegal token and at the end. -/
structure Token where
  kind : Token.Kind
  lexeme : Bytes
  literal : Bytes
  pos : Position
  deriving DecidableEq, Repr

namespace Token

/-- How a token is shown. -/
def text (t : Token) : Bytes :=
  let literal := if t.literal.isEmpty then Bytes.ofString "nil" else Quoted.write t.literal
  Bytes.cat ["T_\x7b", t.kind.text, ", ", t.lexeme, ", ", literal, ", ", t.pos.text, "\x7d"]

/-- The text that a string lexeme stands for; one with a malformed escape stands for its own
body. -/
def stringValue (lexeme : Bytes) : Bytes :=
  let body := lexeme.tail.dropLast
  (Quoted.readBody? body).getD body

/-! ## A token is never empty -/

theorem number?_ne_nil {b l r : Bytes} (h : number? b = some (l, r)) : l ≠ [] := by
  simp only [number?] at h
  split at h
  · simp at h
  · simp only [Option.some.injEq, Prod.mk.injEq] at h
    obtain ⟨rfl, -⟩ := h
    simp_all

theorem string?_ne_nil {b l r : Bytes} (h : string? b = some (l, r)) : l ≠ [] := by
  unfold string? at h
  split at h
  · simp only [Option.map_eq_some_iff, Prod.mk.injEq] at h
    obtain ⟨_, _, rfl, _⟩ := h
    simp
  · simp at h

theorem name?_ne_nil {b l r : Bytes} (h : name? b = some (l, r)) : l ≠ [] := by
  unfold name? at h
  split at h
  · split at h
    · simp only [Option.some.injEq, Prod.mk.injEq] at h
      obtain ⟨rfl, _⟩ := h
      simp
    · simp at h
  · simp at h

theorem lexeme?_ne_nil {b l r : Bytes} {k : Kind} (h : lexeme? b = some (k, l, r)) : l ≠ [] := by
  unfold lexeme? at h
  split at h
  · next hn => cases h; exact number?_ne_nil hn
  · split at h
    · next hs => cases h; exact string?_ne_nil hs
    · split at h
      · next hm => cases h; exact name?_ne_nil hm
      · split at h <;> cases h
        simp

theorem illegalRun_ne_nil {b : Bytes} (h : b ≠ []) : illegalRun b ≠ [] := by
  unfold illegalRun
  split
  · next hf => cases b <;> simp_all [Utf8.first?]
  · next c rest hf =>
    have hl := Utf8.length_lt_of_first? hf
    have hb : 0 < b.length := List.length_pos_iff.2 h
    have ht : b.take (b.length - rest.length) ≠ [] := by
      intro h0
      have := congrArg List.length h0
      simp only [List.length_take, List.length_nil] at this
      omega
    split
    · exact ht
    · next hs =>
      unfold Bytes.spanWord
      split
      · simp_all
      · next c' rest' hf' =>
        rw [hf] at hf'
        cases hf'
        simp [hs, ht]

theorem recognize_lexeme_ne_nil {b : Bytes} (h : b ≠ []) : (recognize b).lexeme ≠ [] := by
  unfold recognize
  split
  · simp_all
  · split
    · next hl =>
      split
      · exact lexeme?_ne_nil hl
      · exact illegalRun_ne_nil h
    · exact illegalRun_ne_nil h

end Token

end TagMachine
