import TagMachine.Toml.Syntax

/-!
TOML documents as trees. Statements are applied in order; a key that stands for a table only because
a longer key or a header goes through it is implicit, and may still be defined once.
-/

namespace TagMachine.Toml

/-- The value is an array. -/
def Value.isArray : Value → Bool
  | .array _ => true
  | _ => false

/-- What a key of a document holds. -/
inductive Node where
  | integer (n : Int)
  | boolean (b : Bool)
  /-- A string, a floating-point number, a date, a time or an array of values. -/
  | value
  | table (entries : List (Bytes × Node))
  /-- An array of tables, the newest first. -/
  | tables (elems : List (List (Bytes × Node)))
  deriving Repr, Inhabited

/-- Keys and what they hold, in the order they came. -/
abbrev Table := List (Bytes × Node)

/-- The table with a key set. -/
def Table.set (t : Table) (k : Bytes) (n : Node) : Table :=
  if t.any (·.1 == k) then t.map fun (k', n') => if k' = k then (k', n) else (k', n')
  else t ++ [(k, n)]

/-- The table with a name set in the table at `path`, where missing tables are made; `none` if
something on the way is no table. -/
def Table.setAt? (name : Bytes) (n : Node) : (path : Key) → Table → Option Table
  | [], t => some (t.set name n)
  | k :: path, t =>
    match t.lookup k with
    | none => (setAt? name n path []).map fun s => t.set k (.table s)
    | some (.table s) => (setAt? name n path s).map fun s => t.set k (.table s)
    | some _ => none

/-- A document as far as it is built. -/
structure Document where
  root : Table
  /-- Tables that were not defined themselves. -/
  implicit : List Key
  /-- Keys that were given an array. -/
  arrays : List Key
  /-- All keys in the order they were written, the newest first. -/
  written : List Key

namespace Document

/-- A document without statements. -/
def empty : Document := ⟨[], [], [], []⟩

/-- Applies `f` to the table at the end of a path; of an array of tables, the newest counts. -/
def updateTable (f : Table → Option Table) : (path : Key) → Table → Option Table
  | [], t => f t
  | k :: path, t =>
    match t.lookup k with
    | some (.table s) => (updateTable f path s).map fun s => t.set k (.table s)
    | some (.tables (s :: older)) =>
      (updateTable f path s).map fun s => t.set k (.tables (s :: older))
    | _ => none

/-- The table at the end of a path. -/
def tableAt? : (path : Key) → Table → Option Table
  | [], t => some t
  | k :: path, t =>
    match t.lookup k with
    | some (.table s) => tableAt? path s
    | some (.tables (s :: _)) => tableAt? path s
    | _ => none

/-- Marks a key as implicit. -/
def addImplicit (d : Document) (k : Key) : Document := { d with implicit := k :: d.implicit }

/-- Marks a key as defined. -/
def removeImplicit (d : Document) (k : Key) : Document :=
  { d with implicit := d.implicit.filter (· != k) }

/-- The key whose kind of value is noted for `name` in the table at `path`. -/
def kindKey (path : Key) (name : Bytes) : Key :=
  if name.isEmpty then if path.isEmpty then [[]] else path else path ++ [name]

/-- Notes whether a key holds an array. -/
def noteKind (d : Document) (path : Key) (name : Bytes) (isArray : Bool) : Document :=
  let k := kindKey path name
  let others := d.arrays.filter (· != k)
  { d with arrays := if isArray then k :: others else others }

/-- Defines `name` in the table at `path`. A name in use may be defined again only while it is
implicit; what it holds stays, unless its kind was noted as an array. -/
def define (d : Document) (path : Key) (name : Bytes) (n : Node) : Option Document := do
  let t ← tableAt? path d.root
  let k := path ++ [name]
  let put (d : Document) : Option Document :=
    (updateTable (fun t => some (Table.set t name n)) path d.root).map fun root => { d with root }
  if (t.lookup name).isSome then
    if d.implicit.contains k then
      if d.arrays.contains k then put (d.removeImplicit k) else some (d.removeImplicit k)
    else none
  else put d

/-- Makes the tables of `path` behind `done`, those that are missing as implicit ones. -/
def makeParents (d : Document) (done : Key) : (path : Key) → Option Document
  | [] => some d
  | k :: path => do
    let t ← tableAt? done d.root
    let here := done ++ [k]
    let d ←
      if (t.lookup k).isSome then some d
      else
        let root ← updateTable (fun t => some (Table.set t k (.table []))) done d.root
        some ({ d with root }.addImplicit here)
    let _ ← tableAt? here d.root
    makeParents d here path

/-- Opens the table at a key, which must be free or implicit. -/
def openTable (d : Document) (k : Key) : Option Document := do
  let d ← d.makeParents [] k.dropLast
  d.define k.dropLast (k.getLast?.getD []) (.table [])

/-- Opens a new table in the array of tables at a key. -/
def openArrayTable (d : Document) (k : Key) : Option Document := do
  let d ← d.makeParents [] k.dropLast
  let name := k.getLast?.getD []
  let root ← updateTable
    (fun t =>
      match t.lookup name with
      | none => some (t.set name (.tables [[]]))
      | some (.tables elems) => some (t.set name (.tables ([] :: elems)))
      | some _ => none)
    k.dropLast d.root
  some { d with root }

/-- Opens the tables that a dotted key goes through, starting in the table at `path`. -/
def openDotted (d : Document) (path : Key) : (parts : Key) → Option Document
  | [] => some d
  | part :: parts => do
    let here := path ++ [part]
    let d ← (d.addImplicit here).openTable here
    openDotted d here parts

/-- Notes that a key was written. -/
def note (d : Document) (k : Key) : Document := { d with written := k :: d.written }

mutual

/-- Builds the value of `name` in the table at `path`. -/
def build (d : Document) (path : Key) (name : Bytes) (inArray : Bool) :
    Value → Option (Node × Document)
  | .integer n => some (.integer n, d)
  | .boolean b => some (.boolean b, d)
  | .scalar => some (.value, d)
  | .array items => buildItems (d.noteKind path name true) path name items
  | .inlineTable entries => do
    let here := path ++ [name]
    let d := d.addImplicit here
    let d ← if inArray then d.openArrayTable here else d.openTable here
    let (own, d) ← buildEntries d here [] entries
    some (.table own, d)

/-- Builds the items of an array. -/
def buildItems (d : Document) (path : Key) (name : Bytes) : List Value → Option (Node × Document)
  | [] => some (.value, d)
  | v :: vs => do
    let (_, d) ← build d path name true v
    buildItems d path name vs

/-- Builds entries of the table at `path` and collects them behind `own`. -/
def buildEntries (d : Document) (path : Key) (own : Table) :
    List (Key × Value) → Option (Table × Document)
  | [] => some (own, d)
  | (k, v) :: rest => do
    let here := path ++ k.dropLast
    let name := k.getLast?.getD []
    let d ← d.openDotted path k.dropLast
    let (n, d) ← build (d.note (here ++ [name])) here name false v
    let d ← d.define here name n
    let own ← own.setAt? name n k.dropLast
    buildEntries (d.noteKind here name v.isArray) path own rest

end

/-- Applies a statement in the table at `path`, and tells the table for the next one. -/
def apply (d : Document) (path : Key) : Statement → Option (Document × Key)
  | .table k => (d.openTable k).map fun d => ((d.noteKind k [] false).note k, k)
  | .arrayTable k => (d.openArrayTable k).map fun d => ((d.noteKind k [] false).note k, k)
  | .assign k v => (d.buildEntries path [] [(k, v)]).map fun r => (r.2, path)

/-- Applies statements in order, starting in the table at `path`. -/
def applyAll (d : Document) (path : Key) : List Statement → Option Document
  | [] => some d
  | s :: rest =>
    match d.apply path s with
    | some (d, path) => applyAll d path rest
    | none => none

/-- Reads a document; `none` if it is malformed or defines something twice. -/
def ofText? (text : Bytes) : Option Document := do applyAll empty [] (← parse? text)

/-- All keys in the order they were written. -/
def keys (d : Document) : List Key := d.written.reverse

end Document

end TagMachine.Toml
