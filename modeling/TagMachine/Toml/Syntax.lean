import TagMachine.Toml.Scalar

/-!
TOML documents as they are written: table headers and assignments, in order. Of the values, only
integers and booleans keep what they stand for.
-/

namespace TagMachine.Toml

/-- The parts of a dotted key. -/
abbrev Key := List Bytes

/-- A byte of a key that needs no quotes. -/
def isBareKeyByte (b : UInt8) : Bool := Bytes.isLetter b || Bytes.isDigit b || b == 95 || b == 45

/-- A byte inside a quoted key. -/
def quotedKeyByte (b : UInt8) : Bytes :=
  match b.toNat with
  | 34 => [92, 34]
  | 92 => [92, 92]
  | 8 => [92, 98]
  | 9 => [92, 116]
  | 10 => [92, 110]
  | 12 => [92, 102]
  | 13 => [92, 114]
  | n => if n < 0x20 || n == 0x7F then [92, 117] ++ Bytes.hex 4 n else [b]

/-- A part of a key in text. -/
def keyPartText (part : Bytes) : Bytes :=
  if !part.isEmpty && part.all isBareKeyByte then part else 34 :: part.flatMap quotedKeyByte ++ [34]

/-- A key in text. -/
def keyText (k : Key) : Bytes := Bytes.join [46] (k.map keyPartText)

/-- A value as it is written. -/
inductive Value where
  | integer (n : Int)
  | boolean (b : Bool)
  /-- A string, a floating-point number, a date or a time. -/
  | scalar
  | array (items : List Value)
  | inlineTable (entries : List (Key × Value))
  deriving Repr, Inhabited

/-- A statement of a document. -/
inductive Statement where
  | table (key : Key)
  | arrayTable (key : Key)
  | assign (key : Key) (value : Value)
  deriving Repr

/-! ## Layout -/

/-- The text without leading blanks. -/
def skipBlanks (b : Bytes) : Bytes := b.dropWhile isBlank

/-- The text behind a comment, from its line end on. -/
def skipComment (b : Bytes) : Bytes := b.dropWhile (!isLineEnd ·)

/-- The text without leading blanks, line ends and comments. -/
def skipLayout : (fuel : Nat) → Bytes → Bytes
  | 0, b => b
  | _, [] => []
  | fuel + 1, x :: rest =>
    if isBlank x || isLineEnd x then skipLayout fuel rest
    else if x = 35 then skipLayout fuel (skipComment rest)
    else x :: rest

/-! ## Keys -/

/-- Reads one part of a key. -/
def keyPart? (b : Bytes) : Option (Bytes × Bytes) :=
  match skipBlanks b with
  | 34 :: rest => basic? (rest.length + 1) rest
  | 39 :: rest => literal? rest
  | b =>
    let name := b.takeWhile isBareKeyByte
    if name.isEmpty then none else some (name, b.dropWhile isBareKeyByte)

/-- Reads the parts of a key up to the byte `stop`. -/
def key? (stop : UInt8) : (fuel : Nat) → Bytes → Option (Key × Bytes)
  | 0, _ => none
  | fuel + 1, b => do
    let (part, rest) ← keyPart? b
    match skipBlanks rest with
    | x :: rest =>
      if x = stop then some ([part], rest)
      else if x = 46 then do
        let (parts, rest) ← key? stop fuel rest
        some (part :: parts, rest)
      else none
    | [] => none

/-! ## Numbers and dates -/

/-- Reads an integer whose text is known. -/
def endInteger (text rest : Bytes) : Option (Value × Bytes) :=
  (integer? text).map fun n => (.integer n, rest)

/-- Reads the rest of a floating-point number behind `lead`. -/
def restOfFloat (lead b : Bytes) : Option (Value × Bytes) :=
  let isPart (x : UInt8) : Bool :=
    Bytes.isDigit x || x == 95 || x == 46 || x == 45 || x == 43 || x == 101 || x == 69
  if isFloat (lead ++ b.takeWhile isPart) then some (.scalar, b.dropWhile isPart) else none

/-- Reads the rest of a date or time behind `lead`. -/
def restOfMoment (lead b : Bytes) : Option (Value × Bytes) :=
  let isPart (x : UInt8) : Bool := Bytes.isDigit x || (Bytes.ofString "-:Tt .Zz+").contains x
  if isMoment (momentText (trimEnd (lead ++ b.takeWhile isPart))) then
    some (.scalar, b.dropWhile isPart)
  else none

/-- A point or an exponent mark. -/
def startsFraction (b : UInt8) : Bool := b == 46 || b == 101 || b == 69

/-- Reads the rest of a decimal number behind `lead`. -/
def restOfDecimal (lead b : Bytes) : Option (Value × Bytes) :=
  let isPart (x : UInt8) : Bool := Bytes.isDigit x || x == 95
  let text := lead ++ b.takeWhile isPart
  match b.dropWhile isPart with
  | x :: rest =>
    if startsFraction x then restOfFloat (text ++ [x]) rest else endInteger text (x :: rest)
  | [] => endInteger text []

/-- Reads the rest of a number or a date behind the digits `lead`. -/
def restOfNumberOrMoment (lead b : Bytes) : Option (Value × Bytes) :=
  let text := lead ++ b.takeWhile Bytes.isDigit
  match b.dropWhile Bytes.isDigit with
  | x :: rest =>
    if x = 45 ∨ x = 58 then restOfMoment (text ++ [x]) rest
    else if x = 95 then restOfDecimal (text ++ [x]) rest
    else if startsFraction x then restOfFloat (text ++ [x]) rest
    else endInteger text (x :: rest)
  | [] => endInteger text []

/-- Reads the digits of an integer behind its base marker. -/
def restOfMarked (base : Nat) (lead b : Bytes) : Option (Value × Bytes) :=
  let isPart (x : UInt8) : Bool := (Bytes.digitValue? x).any (· < base)
  if b.head?.any isPart then
    let isMore (x : UInt8) : Bool := isPart x || x == 95
    endInteger (lead ++ b.takeWhile isMore) (b.dropWhile isMore)
  else none

/-- Reads what starts with a zero. -/
def restOfZero : Bytes → Option (Value × Bytes)
  | [] => endInteger [48] []
  | x :: rest =>
    if Bytes.isDigit x then restOfNumberOrMoment [48, x] rest
    else if x = 95 then restOfDecimal [48, x] rest
    else if startsFraction x then restOfFloat [48, x] rest
    else if x = 98 then restOfMarked 2 [48, x] rest
    else if x = 111 then restOfMarked 8 [48, x] rest
    else if x = 120 then restOfMarked 16 [48, x] rest
    else endInteger [48] (x :: rest)

/-- Reads a special floating-point number. -/
def special? (b : Bytes) : Option (Value × Bytes) :=
  match Bytes.after? "inf" b with
  | some rest => some (.scalar, rest)
  | none => (Bytes.after? "nan" b).map fun rest => (.scalar, rest)

/-- Reads what follows a sign. -/
def restOfSigned (sign : UInt8) (b : Bytes) : Option (Value × Bytes) :=
  match special? b with
  | some r => some r
  | none =>
    match b with
    | [] => none
    | x :: rest =>
      if x = 48 ∧ (rest.head?.any fun m => m == 98 || m == 111 || m == 120) then none
      else if Bytes.isDigit x then restOfDecimal [sign, x] rest
      else none

/-- Reads a boolean, which ends where its letters end. -/
def boolean? (b : Bytes) : Option (Value × Bytes) :=
  let word := b.takeWhile Bytes.isLetter
  let rest := b.dropWhile Bytes.isLetter
  if word = Bytes.ofString "true" then some (.boolean true, rest)
  else if word = Bytes.ofString "false" then some (.boolean false, rest)
  else none

/-! ## Values -/

mutual

/-- Reads a value; blanks may stand in front of it. -/
def value? : (fuel : Nat) → Bytes → Option (Value × Bytes)
  | 0, _ => none
  | fuel + 1, b =>
    match skipBlanks b with
    | [] => none
    | x :: rest =>
      if x = 48 then restOfZero rest
      else if Bytes.isDigit x then restOfNumberOrMoment [x] rest
      else if x = 91 then do
        let (items, rest) ← items? fuel rest
        some (.array items, rest)
      else if x = 123 then do
        let (entries, rest) ← entries? fuel rest
        some (.inlineTable entries, rest)
      else if x = 34 ∨ x = 39 then (skipString? x rest).map fun rest => (.scalar, rest)
      else if x = 43 ∨ x = 45 then restOfSigned x rest
      else
        match special? (x :: rest) with
        | some r => some r
        | none => boolean? (x :: rest)

/-- Reads the items of an array up to its closing bracket. -/
def items? : (fuel : Nat) → Bytes → Option (List Value × Bytes)
  | 0, _ => none
  | fuel + 1, b =>
    match skipLayout b.length b with
    | 93 :: rest => some ([], rest)
    | b => do
      let (v, rest) ← value? fuel b
      match skipLayout rest.length rest with
      | 44 :: rest => do
        let (vs, rest) ← items? fuel rest
        some (v :: vs, rest)
      | 93 :: rest => some ([v], rest)
      | _ => none

/-- Reads the entries of an inline table up to its closing brace. -/
def entries? : (fuel : Nat) → Bytes → Option (List (Key × Value) × Bytes)
  | 0, _ => none
  | fuel + 1, b =>
    match skipLayout b.length b with
    | 125 :: rest => some ([], rest)
    | b => do
      let (k, rest) ← key? 61 (b.length + 1) b
      let (v, rest) ← value? fuel rest
      match skipLayout rest.length rest with
      | 44 :: rest => do
        let (es, rest) ← entries? fuel rest
        some ((k, v) :: es, rest)
      | 125 :: rest => some ([(k, v)], rest)
      | _ => none

end

/-! ## Statements -/

/-- Reads what may follow a statement: blanks, then a comment or nothing up to the line end. -/
def endOfLine? (b : Bytes) : Option Bytes :=
  match skipBlanks b with
  | [] => some []
  | x :: rest =>
    if x = 35 then some (skipComment rest) else if isLineEnd x then some rest else none

/-- Reads a statement. -/
def statement? (b : Bytes) : Option (Statement × Bytes) :=
  match b with
  | 91 :: 91 :: rest => do
    let (k, rest) ← key? 93 (rest.length + 1) rest
    let rest ← expect? 93 rest
    some (.arrayTable k, rest)
  | 91 :: rest => do
    let (k, rest) ← key? 93 (rest.length + 1) rest
    some (.table k, rest)
  | _ => do
    let (k, rest) ← key? 61 (b.length + 1) b
    let (v, rest) ← value? (2 * rest.length + 2) rest
    some (.assign k v, rest)

/-- Reads statements up to the end. -/
def statements? : (fuel : Nat) → Bytes → Option (List Statement)
  | 0, _ => none
  | fuel + 1, b =>
    match skipLayout b.length b with
    | [] => some []
    | b => do
      let (s, rest) ← statement? b
      let rest ← endOfLine? rest
      let ss ← statements? fuel rest
      some (s :: ss)

/-- The text is valid UTF-8 without control characters other than tabs and line ends. -/
def isPlain (b : Bytes) : Bool := Utf8.isValid b && noControls b
where
  /-- No control characters; a carriage return stands only in front of a newline. -/
  noControls : Bytes → Bool
    | [] => true
    | 13 :: rest => rest.head? == some 10 && noControls rest
    | x :: rest => !((x < 32 && x != 9 && x != 10) || x == 127) && noControls rest

/-- A text without its byte order mark. -/
def withoutMark (b : Bytes) : Bytes :=
  match b with
  | 0xFF :: 0xFE :: rest | 0xFE :: 0xFF :: rest | 0xEF :: 0xBB :: 0xBF :: rest => rest
  | _ => b

/-- Reads a document. -/
def parse? (text : Bytes) : Option (List Statement) :=
  let b := withoutMark text
  if isPlain b then statements? (b.length + 1) b else none

end TagMachine.Toml
