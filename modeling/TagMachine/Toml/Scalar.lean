import TagMachine.Number.Decimal
import TagMachine.Text.Quoted

/-!
Scalars of TOML: strings, numbers and dates. Each reader splits a scalar off the start of a text and
gives `none` if what stands there is malformed.
-/

namespace TagMachine.Toml

/-- Spaces and tabs. -/
def isBlank (b : UInt8) : Bool := b == 32 || b == 9

/-- The bytes that end a line. -/
def isLineEnd (b : UInt8) : Bool := b == 10 || b == 13

/-! ## Strings -/

/-- The character with a code, if it is a scalar value. -/
def charBytes? (n : Nat) : Option Bytes :=
  if n.isValidChar then some (Utf8.encode (Char.ofNat n)) else none

/-- What an escape stands for, given the text after its backslash. -/
def escape? : Bytes → Option (Bytes × Bytes)
  | [] => none
  | x :: rest =>
    let hex (width : Nat) : Option (Bytes × Bytes) := do
      let (n, rest) ← Quoted.digits? 16 width 0 rest
      let out ← charBytes? n
      some (out, rest)
    match x.toNat with
    | 98 => some ([8], rest)
    | 116 => some ([9], rest)
    | 110 => some ([10], rest)
    | 102 => some ([12], rest)
    | 114 => some ([13], rest)
    | 101 => some ([27], rest)
    | 34 => some ([34], rest)
    | 92 => some ([92], rest)
    | 120 => hex 2
    | 117 => hex 4
    | 85 => hex 8
    | _ => none

/-- Reads a basic string behind its opening quote. -/
def basic? : (fuel : Nat) → Bytes → Option (Bytes × Bytes)
  | 0, _ => none
  | _, [] => none
  | fuel + 1, x :: rest =>
    if x = 34 then some ([], rest)
    else if isLineEnd x then none
    else if x = 92 then do
      let (out, rest) ← escape? rest
      let (more, rest) ← basic? fuel rest
      some (out ++ more, rest)
    else do
      let (more, rest) ← basic? fuel rest
      some (x :: more, rest)

/-- Reads a literal string behind its opening quote. -/
def literal? : Bytes → Option (Bytes × Bytes)
  | [] => none
  | x :: rest =>
    if x = 39 then some ([], rest)
    else if isLineEnd x then none
    else (literal? rest).map fun (more, rest) => (x :: more, rest)

/-- What a quote inside a multi-line string does. -/
inductive QuoteRole where
  | closes (rest : Bytes)
  | belongs
  | tooMany

/-- The role of a quote with `rest` behind it and `before` in front of it, nearest byte first. Three
quotes close the string, and up to two more may belong to it in front of them. -/
def quoteRole (quote : UInt8) (before rest : Bytes) : QuoteRole :=
  match rest with
  | q :: r :: after =>
    if q = quote ∧ r = quote then
      if after.head? = some quote then
        match before with
        | a :: b :: others =>
          if a = quote ∧ b = quote ∧ ¬(quote = 34 ∧ others.head? = some 92) then .tooMany
          else .belongs
        | _ => .belongs
      else .closes after
    else .belongs
  | _ => .belongs

/-- Skips a multi-line basic string behind its opening quotes. A backslash in front of a line end
takes the whitespace around it. -/
def skipMultiBasic? : (fuel : Nat) → (before : Bytes) → Bytes → Option Bytes
  | 0, _, _ => none
  | _, _, [] => none
  | fuel + 1, before, x :: rest =>
    if x = 34 then
      match quoteRole 34 before rest with
      | .closes after => some after
      | .belongs => skipMultiBasic? fuel (x :: before) rest
      | .tooMany => none
    else if x = 92 then
      let blanks := rest.takeWhile fun b => isBlank b || isLineEnd b
      if blanks.isEmpty then
        match escape? rest with
        | some (_, after) =>
          skipMultiBasic? fuel
            ((rest.take (rest.length - after.length)).reverse ++ x :: before) after
        | none => none
      else if blanks.contains 10 then
        skipMultiBasic? fuel (blanks.reverse ++ x :: before) (rest.drop blanks.length)
      else none
    else skipMultiBasic? fuel (x :: before) rest

/-- Skips a multi-line literal string behind its opening quotes. -/
def skipMultiLiteral? : (before : Bytes) → Bytes → Option Bytes
  | _, [] => none
  | before, x :: rest =>
    if x = 39 then
      match quoteRole 39 before rest with
      | .closes after => some after
      | .belongs => skipMultiLiteral? (x :: before) rest
      | .tooMany => none
    else skipMultiLiteral? (x :: before) rest

/-- Skips a string value behind its first quote. -/
def skipString? (quote : UInt8) (b : Bytes) : Option Bytes :=
  match b with
  | q :: r :: rest =>
    if q = quote ∧ r = quote then
      if quote = 34 then skipMultiBasic? (rest.length + 1) [] rest else skipMultiLiteral? [] rest
    else single
  | _ => single
where
  /-- A string on one line. -/
  single : Option Bytes :=
    if quote = 34 then (basic? (b.length + 1) b).map (·.2) else (literal? b).map (·.2)

/-! ## Numbers -/

/-- A byte next to which an underscore may stand. -/
def isHexDigit (b : UInt8) : Bool := (Bytes.digitValue? b).isSome

/-- Every underscore has a digit in front of it, and the text ends in a digit. -/
def underscoresFit : (afterDigit : Bool) → Bytes → Bool
  | afterDigit, [] => afterDigit
  | afterDigit, x :: b => (x != 95 || afterDigit) && underscoresFit (isHexDigit x) b

/-- A number starts with a zero that does not count, unless the zero marks a base. -/
def hasLeadingZero : Bytes → Bool
  | 48 :: x :: _ => !(x == 98 || x == 111 || x == 120)
  | s :: 48 :: _ :: _ => s == 43 || s == 45
  | _ => false

/-- A 64-bit integer from its text. -/
def integer? (text : Bytes) : Option Int :=
  if underscoresFit false text && !hasLeadingZero text then (Numeral.readMarked 64 text).toOption
  else none

/-- Every point has a digit behind it. -/
def pointsFit : Bytes → Bool
  | [] => true
  | 46 :: rest => (rest.head?.any Bytes.isDigit) && pointsFit rest
  | _ :: rest => pointsFit rest

/-- The parts of a number between points and exponent marks, without empty ones. -/
def numberParts (text : Bytes) : List Bytes :=
  (Bytes.splitOn 46 (text.map fun b => if b = 101 || b = 69 then 46 else b)).filter (!·.isEmpty)

/-- A decimal is in the range of 64-bit floating-point numbers. -/
def inFloatRange (d : Decimal) : Bool :=
  d.digits * Nat.pow 10 d.exponent.toNat < (1 <<< 1024 - 1 <<< 970) * Nat.pow 10 (-d.exponent).toNat

/-- The text is a floating-point number. -/
def isFloat (text : Bytes) : Bool :=
  let parts := numberParts text
  parts.all (underscoresFit false) && !(parts.head?.any hasLeadingZero) && pointsFit text &&
    match Decimal.read? (text.filter (· != 95)) with
    | some d => inFloatRange d
    | none => false

/-! ## Dates and times -/

/-- Reads `width` digits. -/
def fixed? (width : Nat) (b : Bytes) : Option (Nat × Bytes) := Quoted.digits? 10 width 0 b

/-- Reads a given byte. -/
def expect? (x : UInt8) : Bytes → Option Bytes
  | y :: b => if x = y then some b else none
  | [] => none

/-- The number of days of a month. -/
def daysIn (year month : Nat) : Nat :=
  if month = 2 then
    if year % 4 = 0 ∧ (year % 100 ≠ 0 ∨ year % 400 = 0) then 29 else 28
  else if month = 4 ∨ month = 6 ∨ month = 9 ∨ month = 11 then 30
  else 31

/-- Reads a date. -/
def date? (b : Bytes) : Option Bytes := do
  let (year, b) ← fixed? 4 b
  let (month, b) ← fixed? 2 (← expect? 45 b)
  let (day, b) ← fixed? 2 (← expect? 45 b)
  if 1 ≤ month ∧ month ≤ 12 ∧ 1 ≤ day ∧ day ≤ daysIn year month then some b else none

/-- Reads a time of day; seconds and their fraction may be left out. -/
def time? (b : Bytes) : Option Bytes := do
  let (hour, b) ← fixed? 2 b
  let (minute, b) ← fixed? 2 (← expect? 58 b)
  if 24 ≤ hour ∨ 60 ≤ minute then none
  match expect? 58 b with
  | none => some b
  | some b =>
    let (second, b) ← fixed? 2 b
    if 60 ≤ second then none
    match b with
    | 46 :: x :: rest => if Bytes.isDigit x then some (rest.dropWhile Bytes.isDigit) else some b
    | _ => some b

/-- Reads an offset from universal time. -/
def zone? : Bytes → Option Bytes
  | 90 :: b => some b
  | s :: b =>
    if s = 43 ∨ s = 45 then do
      let (hour, b) ← fixed? 2 b
      let (minute, b) ← fixed? 2 (← expect? 58 b)
      if hour ≤ 24 ∧ minute ≤ 60 then some b else none
    else none
  | [] => none

/-- The text is a date, a time, or both, the latter with or without an offset. -/
def isMoment (text : Bytes) : Bool :=
  let whole (r : Option Bytes) : Bool := r == some []
  whole (date? text) || whole (time? text) ||
    whole (do time? (← expect? 84 (← date? text))) ||
    whole (do zone? (← time? (← expect? 84 (← date? text))))

/-- A text with the letters of a date and time in upper case and `T` between the two. -/
def momentText (text : Bytes) : Bytes :=
  text.map fun b => if b = 122 then 90 else if b = 116 ∨ b = 32 then 84 else b

/-- A text without its trailing spaces. -/
def trimEnd (text : Bytes) : Bytes := (text.reverse.dropWhile (· == 32)).reverse

end TagMachine.Toml
