import TagMachine.Assembly
import TagMachine.FileTree
import TagMachine.Program.Image
import TagMachine.Text.Lowercase

/-!
Loading programs. The extension of a path tells the format: images, mnemonics, or numeric text for
every other extension.
-/

namespace TagMachine

/-- Why a program could not be loaded. -/
inductive LoadError where
  | unreadable (path : Bytes) (e : FileError)
  | image (path : Bytes) (e : ImageError)
  | assembly (path : Bytes) (problems : List Assembly.Problem)
  | text (path : Bytes) (e : Program.SyntaxError)
  deriving DecidableEq, Repr

/-- The error in words. -/
def LoadError.message : LoadError → Bytes
  | .unreadable path e => Bytes.cat ["cannot read ", path, ": ", e.message]
  | .image path e => Bytes.cat [path, ": ", e.message]
  | .assembly path problems => Bytes.cat [path, ": ", Assembly.failureMessage problems]
  | .text path e => Bytes.cat [path, ": ", e.message]

namespace Program

/-- The formats of program files. -/
inductive Format where
  | image
  | assembly
  | text
  deriving DecidableEq, Repr

/-- The format that the extension of a path tells. -/
def Format.ofPath (path : Bytes) : Format :=
  let ext := (Path.extension path).lowercase
  if ext = Bytes.ofString ".tvmi" then .image
  else if ext = Bytes.ofString ".asm" then .assembly
  else .text

/-- A program and the text it comes from. -/
structure Loaded where
  words : Program
  source : Bytes
  deriving DecidableEq, Repr

/-- Loads a program from the contents of the file at `path`. -/
def ofContents (path data : Bytes) : Except LoadError Loaded :=
  match Format.ofPath path with
  | .image =>
    match Image.decode data with
    | .ok img => .ok ⟨img.words, img.source⟩
    | .error e => .error (.image path e)
  | .assembly =>
    match Assembly.assemble data with
    | .ok words => .ok ⟨words, data⟩
    | .error ps => .error (.assembly path ps)
  | .text =>
    match parse data with
    | .ok words => .ok ⟨words, data⟩
    | .error e => .error (.text path e)

/-- Loads a program from what was read from the file at `path`. -/
def load (path : Bytes) : Except FileError Bytes → Except LoadError Loaded
  | .ok data => ofContents path data
  | .error e => .error (.unreadable path e)

/-- Reads numeric text whatever the extension. -/
def loadText (path : Bytes) : Except FileError Bytes → Except LoadError Program
  | .ok data => (parse data).mapError (.text path)
  | .error e => .error (.unreadable path e)

/-- Reads an image whatever the extension. -/
def loadImage (path : Bytes) : Except FileError Bytes → Except LoadError Program
  | .ok data =>
    match Image.decode data with
    | .ok img => .ok img.words
    | .error e => .error (.image path e)
  | .error e => .error (.unreadable path e)

end Program

end TagMachine
