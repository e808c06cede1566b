import TagMachine.FileTree
import TagMachine.Machine.Basic
import TagMachine.Toml.Document

/-!
Settings of a run, and the file that holds them. Keys of the file are known by name in any case; a
key that is not known is an error.
-/

namespace TagMachine

/-- The settings. -/
structure Settings where
  stackSize : Int
  maxSteps : Int
  trace : Bool
  color : Bool
  debug : Bool
  deriving DecidableEq, Repr

/-- A setting out of its range. -/
inductive LimitError where
  | stackSize (given : Int)
  | maxSteps (given : Int)
  deriving DecidableEq, Repr

/-- What every message about settings starts with. -/
def invalidSettings : Bytes := "invalid configuration: "

/-- The error in words. -/
def LimitError.message : LimitError → Bytes
  | .stackSize n =>
    Bytes.cat [invalidSettings, "machine.stack-size must be positive, got ", Bytes.int n]
  | .maxSteps n =>
    Bytes.cat [invalidSettings, "machine.max-steps must not be negative, got ", Bytes.int n]

/-- Why settings could not be read. -/
inductive SettingsError where
  | unreadable (path : Bytes) (e : FileError)
  | malformed (path : Bytes)
  | unknownKeys (path : Bytes) (keys : List Toml.Key)
  | outOfRange (path : Bytes) (e : LimitError)
  | unreachable (e : FileError)
  deriving Repr

/-- The error in words. -/
def SettingsError.message : SettingsError → Bytes
  | .unreadable path e => Bytes.cat ["cannot read ", path, ": ", e.message]
  | .malformed path => "parse error in " ++ path
  | .unknownKeys path keys =>
    Bytes.cat [invalidSettings, "unknown keys in ", path, ": ",
      Bytes.join ", " (keys.map Toml.keyText)]
  | .outOfRange path e => Bytes.cat [path, ": ", e.message]
  | .unreachable e => e.message

namespace Settings

/-- The settings without a file. -/
def default : Settings := ⟨Machine.defaultCapacity, 0, false, true, false⟩

/-- The machine limits are in range. -/
def validate (s : Settings) : Except LimitError Unit :=
  if s.stackSize ≤ 0 then .error (.stackSize s.stackSize)
  else if s.maxSteps < 0 then .error (.maxSteps s.maxSteps)
  else .ok ()

/-! ## The file -/

/-- What a key of the file sets. -/
inductive Item where
  | stackSize
  | maxSteps
  | trace
  | color
  | debug
  deriving DecidableEq, Repr

/-- The sections of the file and their items. -/
def sections : List (Bytes × List (Bytes × Item)) :=
  [("machine", [("stack-size", .stackSize), ("max-steps", .maxSteps)]),
    ("trace", [("enabled", .trace), ("color", .color)]),
    ("log", [("debug", .debug)])]

/-- A character without its case: besides the ASCII letters, the long s and the Kelvin sign. -/
def foldCase (c : Char) : Char :=
  if c = '\u017f' then 's' else if c = '\u212a' then 'k' else c.toLower

/-- Two names that differ in case at most. -/
def sameName (a b : Bytes) : Bool := (Utf8.decode a).map foldCase == (Utf8.decode b).map foldCase

/-- The items of a section. -/
def section? (name : Bytes) : Option (List (Bytes × Item)) :=
  (sections.find? fun s => sameName s.1 name).map (·.2)

/-- The item with a name. -/
def item? (items : List (Bytes × Item)) (name : Bytes) : Option Item :=
  (items.find? fun i => sameName i.1 name).map (·.2)

/-- The key is one of the file's, and a document whose root is `t` holds it. -/
def isKnown (t : Toml.Table) : Toml.Key → Bool
  | [name] => (section? name).isSome && (t.lookup name).isSome
  | [name, item] =>
    ((section? name).bind (item? · item)).isSome && match t.lookup name with
      | some (.table entries) => (entries.lookup item).isSome
      | _ => false
  | _ => false

/-- The settings with an item set; `none` if its value is of the wrong kind. -/
def withItem (s : Settings) : Item → Toml.Node → Option Settings
  | .stackSize, .integer n => some { s with stackSize := n }
  | .maxSteps, .integer n => some { s with maxSteps := n }
  | .trace, .boolean b => some { s with trace := b }
  | .color, .boolean b => some { s with color := b }
  | .debug, .boolean b => some { s with debug := b }
  | _, _ => none

/-- The settings with the entries of a section set. -/
def withEntries (items : List (Bytes × Item)) (s : Settings) : Toml.Table → Option Settings
  | [] => some s
  | (name, n) :: rest =>
    match item? items name with
    | none => withEntries items s rest
    | some i => (s.withItem i n).bind fun s => withEntries items s rest

/-- The settings with the sections of a document set. -/
def withSections (s : Settings) : Toml.Table → Option Settings
  | [] => some s
  | (name, n) :: rest =>
    match section? name, n with
    | none, _ => withSections s rest
    | some items, .table entries => (s.withEntries items entries).bind fun s => withSections s rest
    | some _, _ => none

/-- Reads the settings that the file at `path` holds. -/
def parse (path text : Bytes) : Except SettingsError Settings :=
  match (do
    let d ← Toml.Document.ofText? text
    let s ← default.withSections d.root
    some (d, s)) with
  | none => .error (.malformed path)
  | some (d, s) =>
    let unknown := d.keys.filter (!isKnown d.root ·)
    if unknown.isEmpty then
      match s.validate with
      | .ok _ => .ok s
      | .error e => .error (.outOfRange path e)
    else .error (.unknownKeys path unknown)

/-- Reads settings off what was read from the file at `path`. -/
def load (path : Bytes) : Except FileError Bytes → Except SettingsError Settings
  | .ok text => parse path text
  | .error e => .error (.unreadable path e)

/-- The name of the file in a directory. -/
def fileName : Bytes := "tagvm.toml"

/-- Settings, and the file they come from if there is one. -/
structure Found where
  settings : Settings
  path : Bytes
  deriving DecidableEq, Repr

/-- Reads the file at a path. -/
def loadFile (t : FileTree) (path : Bytes) : Except SettingsError Found :=
  (load path (t.read path)).map (⟨·, path⟩)

/-- Reads the file of a directory; without one the settings are the default. -/
def find (t : FileTree) (dir : Bytes) : Except SettingsError Found :=
  let path := Path.join dir fileName
  match t.stat path with
  | .ok _ => loadFile t path
  | .error e => if e.cause = .notFound then .ok ⟨default, []⟩ else .error (.unreachable e)

end Settings

end TagMachine
