import TagMachine.Cbor.Item
import TagMachine.Program.Text

/-!
Program images: a program and optionally its source, as one CBOR map. Writing is canonical, so equal
images have equal bytes; reading takes any well-formed map that has the right fields.
-/

namespace TagMachine

/-- A program image. -/
structure Image where
  magic : Bytes
  version : Int
  words : Program
  source : Bytes
  deriving DecidableEq, Repr

/-- Why an image was refused. -/
inductive ImageError where
  /-- Not one CBOR item, or not one that fits an image. -/
  | notAnImage
  | badMagic
  | badVersion (version : Int)
  deriving DecidableEq, Repr

/-- The error in words. -/
def ImageError.message : ImageError → Bytes
  | .notAnImage => "program: unmarshal image"
  | .badMagic => "invalid image magic"
  | .badVersion v => "unsupported image version: " ++ Bytes.int v

namespace Image

/-- The mark of an image. -/
def expectedMagic : Bytes := "TVMI"

/-- The version that is written and read. -/
def expectedVersion : Int := 1

/-! ## Writing -/

/-- Writes a program and its source. Keys come shorter first, and an empty source is left out. -/
def encode (words : Program) (source : Bytes) : Bytes :=
  Bytes.cat
    [Cbor.head 5 (if source.isEmpty then 3 else 4),
      Cbor.writeText "magic", Cbor.writeText expectedMagic,
      Cbor.writeText "words", Cbor.head 4 words.length,
      words.flatMap fun w => Cbor.writeInt w.toInt,
      if source.isEmpty then [] else Cbor.writeText "source" ++ Cbor.writeText source,
      Cbor.writeText "version", Cbor.writeInt expectedVersion]

/-! ## Reading fields -/

/-- The content of a tag is of the kind that the tag asks for: a date is a text, a time a number,
and a big number a byte string. -/
def tagFits (number : Nat) (content : Cbor.Item) : Bool :=
  match number, content with
  | 0, .text _ => true
  | 1, .unsigned _ | 1, .negative _ | 1, .float _ => true
  | 2, .bytes _ | 3, .bytes _ => true
  | n, _ => 3 < n

/-- The item under its tags; only the tag of a big number stays. -/
def untag? : Cbor.Item → Option Cbor.Item
  | .tag n content =>
    if tagFits n content then
      if n = 2 ∨ n = 3 then some (.tag n content) else untag? content
    else none
  | item => some item

/-- The item is null or undefined, which leaves a field as it is. -/
def isNothing : Cbor.Item → Bool
  | .simple n => n == 22 || n == 23
  | _ => false

/-- The integer of an item. A simple value without a meaning of its own counts as its number. -/
def integer? : Cbor.Item → Option Int
  | .unsigned n => some n
  | .negative n => some (-1 - n)
  | .simple n => if n = 20 ∨ n = 21 then none else some n
  | .tag 2 (.bytes b) => some (Cbor.bigEndian b)
  | .tag 3 (.bytes b) => some (-1 - Cbor.bigEndian b)
  | _ => none

/-- A signed integer field of the given width. -/
def readInt? (bits : Nat) (item : Cbor.Item) : Option Int := do
  let item ← untag? item
  if isNothing item then return 0
  let n ← integer? item
  if -Numeral.signedLimit bits ≤ n ∧ n < Numeral.signedLimit bits then some n else none

/-- A text that is valid UTF-8 in each of its chunks. -/
def validText? : Cbor.Item → Option Bytes
  | .text chunks => if chunks.all Utf8.isValid then some chunks.flatten else none
  | _ => none

/-- A text field. -/
def readText? (item : Cbor.Item) : Option Bytes := do
  let item ← untag? item
  if isNothing item then return []
  validText? item

/-- A field of program words. -/
def readWords? (item : Cbor.Item) : Option Program := do
  let item ← untag? item
  if isNothing item then return []
  match item with
  | .array items => items.mapM fun i => (readInt? 32 i).map Int32.ofInt
  | _ => none

/-! ## Reading an image -/

/-- The fields of an image. -/
inductive Field where
  | magic
  | version
  | words
  | source
  deriving DecidableEq, Repr

namespace Field

/-- The fields. -/
def all : List Field := [magic, version, words, source]

/-- The key of a field. -/
def key : Field → Bytes
  | magic => "magic"
  | version => "version"
  | words => "words"
  | source => "source"

/-- The field for a key in any case, of those not in `seen`. -/
def ofKey? (seen : List Field) (key : Bytes) : Option Field :=
  all.find? fun f => !seen.contains f && f.key == key.map Bytes.lower

end Field

/-- What a map key asks for. -/
inductive Key where
  | field (f : Field)
  | ignored
  deriving DecidableEq, Repr

/-- The field that a map key means. Integer keys mean none; other kinds of keys are refused. -/
def key? (seen : List Field) : Cbor.Item → Option Key
  | .text chunks => do
    let name ← validText? (.text chunks)
    return match Field.ofKey? seen name with
      | some f => .field f
      | none => .ignored
  | .unsigned _ => some .ignored
  | .negative n => if n < 1 <<< 63 then some .ignored else none
  | _ => none

/-- The image with a field read from an item. -/
def withField? (img : Image) (f : Field) (item : Cbor.Item) : Option Image :=
  match f with
  | .magic => (readText? item).map fun magic => { img with magic }
  | .version => (readInt? 64 item).map fun version => { img with version }
  | .words => (readWords? item).map fun words => { img with words }
  | .source => (readText? item).map fun source => { img with source }

/-- Reads map entries; the first key for a field decides it. -/
def readEntries? (seen : List Field) (img : Image) : List (Cbor.Item × Cbor.Item) → Option Image
  | [] => some img
  | (k, v) :: rest =>
    match key? seen k with
    | none => none
    | some .ignored => readEntries? seen img rest
    | some (.field f) =>
      match withField? img f v with
      | some img => readEntries? (f :: seen) img rest
      | none => none

/-- An image with no field set. -/
def blank : Image := ⟨[], 0, [], []⟩

/-- The fields of an image that an item holds. -/
def ofItem? (item : Cbor.Item) : Option Image := do
  let item ← untag? item
  if isNothing item then return blank
  match item with
  | .map entries => readEntries? [] blank entries
  | _ => none

/-- Reads an image. -/
def decode (data : Bytes) : Except ImageError Image :=
  match (Cbor.parse? data).bind ofItem? with
  | none => .error .notAnImage
  | some img =>
    if img.magic ≠ expectedMagic then .error .badMagic
    else if img.version ≠ expectedVersion then .error (.badVersion img.version)
    else .ok img

end Image

end TagMachine
