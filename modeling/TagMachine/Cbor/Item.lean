import TagMachine.Text.Utf8

/-!
CBOR data items. An item starts with a head, which gives its major type and a number; reading takes
definite and indefinite lengths and refuses nesting and counts beyond fixed limits.
-/

namespace TagMachine.Cbor

/-- A well-formed data item. -/
inductive Item where
  | unsigned (n : Nat)
  /-- The number `-1 - n`. -/
  | negative (n : Nat)
  | bytes (b : Bytes)
  /-- A text in the chunks it was written in. -/
  | text (chunks : List Bytes)
  | array (items : List Item)
  | map (entries : List (Item × Item))
  | tag (number : Nat) (content : Item)
  | simple (n : Nat)
  | float (payload : Bytes)
  deriving Repr, Inhabited

/-- The deepest nesting that is read. -/
def maxNesting : Nat := 32

/-- The most elements or entries that are read. -/
def maxCount : Nat := 131072

/-! ## Heads -/

/-- The number that bytes stand for, most significant first. -/
def bigEndian (b : Bytes) : Nat := b.foldl (fun n x => n * 256 + x.toNat) 0

/-- The last `width` bytes of a number, most significant first. -/
def toBigEndian : (width : Nat) → Nat → Bytes
  | 0, _ => []
  | width + 1, n => toBigEndian width (n / 256) ++ [(n % 256).toUInt8]

/-- What the number of a head means. -/
inductive Length where
  | definite (n : Nat)
  | indefinite
  deriving DecidableEq, Repr

/-- The start of an item. -/
structure Head where
  major : Nat
  /-- The low five bits of the first byte. -/
  info : Nat
  length : Length
  deriving DecidableEq, Repr

/-- Splits `n` bytes off a text. -/
def take? (n : Nat) (b : Bytes) : Option (Bytes × Bytes) :=
  if n ≤ b.length then some (b.take n, b.drop n) else none

/-- Reads a head. -/
def head? : Bytes → Option (Head × Bytes)
  | [] => none
  | x :: rest =>
    let major := x.toNat / 32
    let info := x.toNat % 32
    if info < 24 then some (⟨major, info, .definite info⟩, rest)
    else if info < 28 then
      match take? (1 <<< (info - 24)) rest with
      | some (number, rest) => some (⟨major, info, .definite (bigEndian number)⟩, rest)
      | none => none
    else if info = 31 then some (⟨major, info, .indefinite⟩, rest)
    else none

/-- Writes a head in the shortest form. -/
def head (major n : Nat) : Bytes :=
  if n < 24 then [(major * 32 + n).toUInt8]
  else if n < 1 <<< 8 then (major * 32 + 24).toUInt8 :: toBigEndian 1 n
  else if n < 1 <<< 16 then (major * 32 + 25).toUInt8 :: toBigEndian 2 n
  else if n < 1 <<< 32 then (major * 32 + 26).toUInt8 :: toBigEndian 4 n
  else (major * 32 + 27).toUInt8 :: toBigEndian 8 n

/-! ## Writing -/

/-- Writes a text. -/
def writeText (b : Bytes) : Bytes := head 3 b.length ++ b

/-- Writes an integer. -/
def writeInt : Int → Bytes
  | .ofNat n => head 0 n
  | .negSucc n => head 1 n

/-! ## Reading -/

/-- Reads items of one kind. -/
abbrev Reader := Bytes → Option (Item × Bytes)

/-- Reads `n` items behind those of `acc`, which come last first. -/
def readMany (read : Reader) : (n : Nat) → (acc : List Item) → Bytes → Option (List Item × Bytes)
  | 0, acc, b => some (acc.reverse, b)
  | n + 1, acc, b =>
    match read b with
    | some (i, rest) => readMany read n (i :: acc) rest
    | none => none

/-- Reads at most `most` items up to a break, behind those of `acc`. -/
def readToBreak (read : Reader) :
    (most : Nat) → (acc : List Item) → Bytes → Option (List Item × Bytes)
  | _, _, [] => none
  | most, acc, x :: b =>
    if x = 0xFF then some (acc.reverse, b)
    else
      match most with
      | 0 => none
      | most + 1 =>
        match read (x :: b) with
        | some (i, rest) => readToBreak read most (i :: acc) rest
        | none => none

/-- Reads the chunks of a string of indefinite length: strings of definite length and of the same
major type, up to a break. -/
def readChunks (major : Nat) : (fuel : Nat) → Bytes → Option (List Bytes × Bytes)
  | _, [] => none
  | fuel, x :: b =>
    if x = 0xFF then some ([], b)
    else
      match fuel, head? (x :: b) with
      | fuel + 1, some (⟨m, _, .definite n⟩, rest) =>
        if m = major then
          match take? n rest with
          | some (chunk, rest) =>
            (readChunks major fuel rest).map fun (chunks, rest) => (chunk :: chunks, rest)
          | none => none
        else none
      | _, _ => none

/-- Items in pairs; `none` if one is left over. -/
def pairs? : List Item → Option (List (Item × Item))
  | [] => some []
  | [_] => none
  | k :: v :: rest => (pairs? rest).map ((k, v) :: ·)

/-- Reads the chunks of a string. -/
def readString (major : Nat) (length : Length) (b : Bytes) : Option (List Bytes × Bytes) :=
  match length with
  | .definite n => (take? n b).map fun (chunk, rest) => ([chunk], rest)
  | .indefinite => readChunks major b.length b

/-- Reads the elements of an array, or the keys and values of a map, of which `per` make one. -/
def readItems (per : Nat) (length : Length) (read : Reader) (b : Bytes) :
    Option (List Item × Bytes) :=
  match length with
  | .definite n => if n ≤ maxCount then readMany read (n * per) [] b else none
  | .indefinite => readToBreak read (maxCount * per + (per - 1)) [] b

/-- Reads an item that is not a tag. `inner` reads the items in it; there is none where no deeper
nesting is allowed. -/
def readUntagged (inner : Option Reader) (b : Bytes) : Option (Item × Bytes) :=
  match head? b with
  | none => none
  | some (h, rest) =>
    match h.major, h.length with
    | 0, .definite n => some (.unsigned n, rest)
    | 1, .definite n => some (.negative n, rest)
    | 2, length =>
      (readString 2 length rest).map fun (chunks, rest) => (.bytes chunks.flatten, rest)
    | 3, length => (readString 3 length rest).map fun (chunks, rest) => (.text chunks, rest)
    | 4, length => do
      let (items, rest) ← readItems 1 length (← inner) rest
      some (.array items, rest)
    | 5, length => do
      let (items, rest) ← readItems 2 length (← inner) rest
      let entries ← pairs? items
      some (.map entries, rest)
    | 7, .definite n =>
      if h.info < 24 then some (.simple n, rest)
      else if h.info = 24 then if 32 ≤ n then some (.simple n, rest) else none
      else some (.float (toBigEndian (1 <<< (h.info - 24)) n), rest)
    | _, _ => none

/-- The text starts with a tag. -/
def startsWithTag (b : Bytes) : Bool :=
  match b with
  | x :: _ => x.toNat / 32 == 6
  | [] => false

/-- Reads an item. The first tag of several costs no nesting, each further one does. -/
def readWith (inner : Option Reader) (b : Bytes) : Option (Item × Bytes) :=
  if startsWithTag b then
    match head? b with
    | some (⟨_, _, .definite n⟩, rest) => do
      let (content, rest) ← if startsWithTag rest then (← inner) rest else readUntagged inner rest
      some (.tag n content, rest)
    | _ => none
  else readUntagged inner b

/-- Reads an item that may nest up to `levels` deep. -/
def read : (levels : Nat) → Reader
  | 0 => readWith none
  | levels + 1 => readWith (some (read levels))

/-- Reads a text that is one item and nothing else. -/
def parse? (b : Bytes) : Option Item :=
  match read maxNesting b with
  | some (i, []) => some i
  | _ => none

end TagMachine.Cbor
