import TagMachine.Text.Bytes

/-!
Files and directories below one working directory, and how a path is followed through them.
-/

namespace TagMachine

/-! ## Paths -/

namespace Path

/-- The parts of a path between its slashes. -/
def parts (path : Bytes) : List Bytes := (Bytes.splitOn 47 path).filter (!·.isEmpty)

/-- The path ends in a slash. -/
def endsInSlash (path : Bytes) : Bool := path.getLast? == some 47

/-- The parts of a path with `.` left out and `..` taken back where that can be done. `done` holds
the parts so far, the last one first. -/
def cleanParts (rooted : Bool) (done : List Bytes) : List Bytes → List Bytes
  | [] => done.reverse
  | p :: rest =>
    if p = [46] then cleanParts rooted done rest
    else if p = [46, 46] then
      match done with
      | q :: others =>
        if q = [46, 46] then cleanParts rooted (p :: done) rest else cleanParts rooted others rest
      | [] => cleanParts rooted (if rooted then [] else [p]) rest
    else cleanParts rooted (p :: done) rest

/-- The shortest path with the same meaning. -/
def clean (path : Bytes) : Bytes :=
  let rooted := path.head? == some 47
  let body := Bytes.join [47] (cleanParts rooted [] (parts path))
  if rooted then 47 :: body else if body.isEmpty then [46] else body

/-- A name in a directory. -/
def join (dir name : Bytes) : Bytes := clean (if dir.isEmpty then name else dir ++ 47 :: name)

/-- The end of a path from the last point of its last part on; empty without one. -/
def extension (path : Bytes) : Bytes :=
  let name := (path.reverse.takeWhile (· != 47)).reverse
  if name.contains 46 then 46 :: (name.reverse.takeWhile (· != 46)).reverse else []

end Path

/-! ## Errors -/

/-- Why a file could not be reached. -/
inductive FileCause where
  | notFound
  | notDirectory
  | isDirectory
  | nameTooLong
  | badArgument
  /-- Whatever else the system says. -/
  | other (text : Bytes)
  deriving DecidableEq, Repr

/-- The cause in words. -/
def FileCause.message : FileCause → Bytes
  | .notFound => "no such file or directory"
  | .notDirectory => "not a directory"
  | .isDirectory => "is a directory"
  | .nameTooLong => "file name too long"
  | .badArgument => "invalid argument"
  | .other text => text

/-- What was tried with a file. -/
inductive FileAction where
  | open
  | read
  | stat
  deriving DecidableEq, Repr

/-- The action in words. -/
def FileAction.name : FileAction → Bytes
  | .open => "open"
  | .read => "read"
  | .stat => "stat"

/-- An action on a path that failed. -/
structure FileError where
  action : FileAction
  path : Bytes
  cause : FileCause
  deriving DecidableEq, Repr

/-- The error in words. -/
def FileError.message (e : FileError) : Bytes :=
  Bytes.cat [e.action.name, " ", e.path, ": ", e.cause.message]

/-! ## The tree -/

/-- A file or a directory. -/
inductive FileNode where
  | file (data : Bytes)
  | directory (entries : List (Bytes × FileNode))
  deriving Repr, Inhabited

/-- The contents of a directory. -/
abbrev FileTree := List (Bytes × FileNode)

namespace FileTree

/-- A directory with nothing in it. -/
def empty : FileTree := []

/-- What stands at the parts of a path. -/
def node? : FileTree → List Bytes → Option FileNode
  | t, [] => some (.directory t)
  | t, p :: rest =>
    match t.lookup p, rest with
    | some n, [] => some n
    | some (.directory s), rest => node? s rest
    | _, _ => none

/-- The tree with a name in use for something. -/
def put (t : FileTree) (name : Bytes) (n : FileNode) : FileTree :=
  (name, n) :: t.filter (·.1 != name)

/-- The tree with something at the parts of a path, whose directories are made where they are
missing. -/
def insert (t : FileTree) (n : FileNode) : List Bytes → FileTree
  | [] => t
  | [p] => t.put p n
  | p :: rest =>
    let inner : FileTree := match t.lookup p with
      | some (.directory s) => s
      | _ => []
    t.put p (.directory (insert inner n rest))

/-- Where a path leads. -/
inductive Place where
  /-- The parts from the working directory on. -/
  | inside (parts : List Bytes)
  /-- A directory above the working directory. Nothing is known there but the way further up. -/
  | above
  deriving DecidableEq, Repr

/-- Follows parts of a path. All but the last one have to be directories. -/
def follow (t : FileTree) : Place → List Bytes → Except FileCause Place
  | place, [] => .ok place
  | .above, p :: rest => if p = [46] ∨ p = [46, 46] then t.follow .above rest else .error .notFound
  | .inside here, p :: rest =>
    if p = [46] then t.follow (.inside here) rest
    else if p = [46, 46] then
      t.follow (if here.isEmpty then .above else .inside here.dropLast) rest
    else if 255 < p.length then .error .nameTooLong
    else
      match t.node? (here ++ [p]), rest with
      | some (.directory _), rest => t.follow (.inside (here ++ [p])) rest
      | _, [] => .ok (.inside (here ++ [p]))
      | some (.file _), _ => .error .notDirectory
      | none, _ => .error .notFound

/-- Where a path starts and the parts it goes through. -/
def entry (path : Bytes) : Except FileCause (Place × List Bytes) :=
  if path.contains 0 then .error .badArgument
  else if path.isEmpty then .error .notFound
  else if 4096 ≤ path.length then .error .nameTooLong
  else .ok (if path.head? = some 47 then .above else .inside [], Path.parts path)

/-- Follows a path, from the working directory or from the top. -/
def resolve (t : FileTree) (path : Bytes) : Except FileCause Place :=
  match entry path with
  | .error e => .error e
  | .ok (place, parts) => t.follow place parts

/-- Follows a path up to its last part, whatever that is. What is reached has to be a directory. -/
def resolveParent (t : FileTree) (path : Bytes) : Except FileCause Place :=
  match entry path with
  | .error e => .error e
  | .ok (place, parts) => t.follow place (parts.dropLast ++ [[46]])

/-- What stands at a place. -/
def nodeAt? (t : FileTree) : Place → Option FileNode
  | .inside parts => t.node? parts
  | .above => some (.directory [])

/-- What a path leads to. -/
def find (t : FileTree) (path : Bytes) : Except FileCause FileNode :=
  match t.resolve path with
  | .error e => .error e
  | .ok place =>
    match t.nodeAt? place with
    | none => .error .notFound
    | some (.file data) =>
      if Path.endsInSlash path then .error .notDirectory else .ok (.file data)
    | some n => .ok n

/-- The contents of a file. -/
def read (t : FileTree) (path : Bytes) : Except FileError Bytes :=
  match t.find path with
  | .error cause => .error ⟨.open, path, cause⟩
  | .ok (.file data) => .ok data
  | .ok (.directory _) => .error ⟨.read, path, .isDirectory⟩

/-- Whether there is something at a path. -/
def stat (t : FileTree) (path : Bytes) : Except FileError Unit :=
  match t.find path with
  | .error cause => .error ⟨.stat, path, cause⟩
  | .ok _ => .ok ()

/-- Writes a file, in place of what it held before. A path that ends in a slash means a directory,
which is noticed before its last part is looked at. -/
def write (t : FileTree) (path data : Bytes) : Except FileError FileTree :=
  if Path.endsInSlash path then
    match t.resolveParent path with
    | .error cause => .error ⟨.open, path, cause⟩
    | .ok _ => .error ⟨.open, path, .isDirectory⟩
  else
    match t.resolve path with
    | .error cause => .error ⟨.open, path, cause⟩
    | .ok .above => .error ⟨.open, path, .isDirectory⟩
    | .ok (.inside parts) =>
      match t.node? parts with
      | some (.directory _) => .error ⟨.open, path, .isDirectory⟩
      | _ => .ok (t.insert (.file data) parts)

/-- Adds a file with the directories above it, or a directory if the name ends in a slash. -/
def add (t : FileTree) (name data : Bytes) : FileTree :=
  let parts := Path.parts name
  if Path.endsInSlash name then
    match t.node? parts with
    | some _ => t
    | none => t.insert (.directory []) parts
  else t.insert (.file data) parts

end FileTree

end TagMachine
