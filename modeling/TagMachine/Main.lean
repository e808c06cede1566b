import TagMachine.CommandLine

/-!
The program in a terminal: files of the working directory, the standard streams and the clock. What
to do is decided by `CommandLine` and `Session`; here it is only done.
-/

namespace TagMachine.Terminal

/-! ## Files -/

/-- A path as the system takes it. -/
def pathText (path : Bytes) : String := (String.fromUTF8? (ByteArray.mk path.toArray)).getD ""

/-- The cause of an error of the system. -/
def causeOf : IO.Error → FileCause
  | .noFileOrDirectory _ _ _ => .notFound
  | .inappropriateType _ code details =>
    if code = 20 then .notDirectory else if code = 21 then .isDirectory else .other details
  | .invalidArgument _ _ _ => .badArgument
  | e => .other (toString e)

/-- Carries out an action on a path. -/
def attempt {α : Type} (action : FileAction) (path : Bytes) (run : IO α) :
    IO (Except FileError α) := do
  try
    return .ok (← run)
  catch e => return .error ⟨action, path, causeOf e⟩

/-- The contents of a file. -/
def readFile (path : Bytes) : IO (Except FileError Bytes) := do
  match ← attempt .open path (IO.FS.Handle.mk (pathText path) .read) with
  | .error e => return .error e
  | .ok handle =>
    return (← attempt .read path handle.readBinToEnd).map (·.data.toList)

/-- Writes a file, in place of what it held before. -/
def writeFile (path data : Bytes) : IO (Except FileError Unit) :=
  attempt .open path (IO.FS.writeBinFile (pathText path) (ByteArray.mk data.toArray))

/-- The file is not there. -/
def isMissing : Except FileError Bytes → Bool
  | .error e => e.cause = .notFound
  | .ok _ => false

/-- The settings that an invocation asks for. -/
def findSettings (i : CommandLine.Invocation) : IO (Except SettingsError Settings.Found) := do
  let path := if i.config.isEmpty then Settings.fileName else i.config
  let data ← readFile path
  if i.config.isEmpty && isMissing data then return .ok ⟨.default, []⟩
  return (Settings.load path data).map (⟨·, path⟩)

/-! ## Streams -/

/-- Writes to the standard output. -/
def showText (text : Bytes) : IO Unit := do
  let out ← IO.getStdout
  out.write (ByteArray.mk text.toArray)
  out.flush

/-- Writes to the standard error output. -/
def showError (text : Bytes) : IO Unit := do
  (← IO.getStderr).write (ByteArray.mk text.toArray)

/-- Writes an event to the stream it belongs to. -/
def showEvent (verbose : Bool) (seconds : Bytes) (e : Event) : IO Unit := do
  showText e.onOutput
  showError (e.onError verbose seconds)

/-- Writes log entries. -/
def logAll (verbose : Bool) (entries : List LogEntry) : IO Unit :=
  entries.forM fun e => showEvent verbose [] (.logged e)

/-! ## Runs -/

/-- How many steps are taken between two writes. -/
def stride : Nat := 4096

/-- Runs a machine to its end and writes what it writes. -/
partial def runToEnd (watch : Observer) (m : Machine) : IO (Machine × Option RunError) := do
  let r := m.run watch stride
  showText r.output
  match r.ending with
  | .unfinished => runToEnd watch r.machine
  | .stopped => return (r.machine, none)
  | .failed e => return (r.machine, some e)

/-- Gives lines to the debugger; those that come when it is done are left out. -/
def giveLines (setup : Debugger.Setup) (d : Debugger) : List Bytes → IO Debugger
  | [] => return d
  | line :: rest => do
    if d.done then return d
    let (out, d) := d.execute setup line
    showText out
    giveLines setup d rest

/-- Asks for lines until the debugger is done or the input ends. -/
partial def converse (setup : Debugger.Setup) (d : Debugger) : IO Debugger := do
  if d.done then return d
  showText Session.prompt
  let line ← (← IO.getStdin).getLine
  if line.isEmpty then return d
  converse setup (← giveLines setup d (Session.lines (Bytes.ofString line)))

/-- More steps than a debugger command takes in a lifetime. -/
def debugBudget : Nat := 1 <<< 62

/-- A debugging session. -/
def debug (o : Options) (palette : Palette) (m : Machine) : IO (Machine × Option RunError) := do
  showText (Trace.line m ++ [10])
  let d ← converse ⟨palette, o.watch palette, debugBudget⟩ (.new m)
  if !d.machine.halted && d.error.isNone then
    logAll o.verbose [Session.quitEntry d.machine.pc]
  return (d.machine, d.error)

/-- Carries out a program and reports how long it took. -/
def execute (o : Options) (palette : Palette) (m : Machine) : IO (Option SessionError) := do
  let start ← IO.monoMsNow
  let (m, error) ← if o.debug then debug o palette m else runToEnd (o.watch palette) m
  let seconds := secondsText ((← IO.monoMsNow) - start)
  let (closing, error) := Session.conclude m error
  (Event.elapsed :: closing).forM (showEvent o.verbose seconds)
  return error

/-- A session on the files of the working directory. -/
def session (o : Options) (palette : Palette) : IO (Option SessionError) := do
  logAll o.verbose [Session.loadingEntry o.program]
  match Program.load o.program (← readFile o.program) with
  | .error e => return some (.load e)
  | .ok p =>
    logAll o.verbose [Session.loadedEntry p.words.length]
    match Session.plan o palette p with
    | .list text =>
      showText text
      return none
    | .refuse e => return some (.arguments e)
    | .store path image =>
      match ← writeFile path image with
      | .error e => return some (.write e)
      | .ok _ =>
        logAll o.verbose [Session.writtenEntry path p.words.length]
        return none
    | .execute m => execute o palette m

/-- A variable of the environment; empty if it is not set. -/
def variableText (name : String) : IO Bytes := return Bytes.ofString ((← IO.getEnv name).getD "")

/-- Carries out an invocation. -/
def proceed (i : CommandLine.Invocation) (arguments : List Bytes) : IO UInt32 := do
  let c := CommandLine.configure i arguments (← findSettings i)
  logAll c.verbose c.entries
  match c.session with
  | none => return 1
  | some o =>
    let palette := Palette.forTerminal (← variableText "TERM") (← variableText "NO_COLOR")
    let error ← session o (palette.under o)
    logAll c.verbose (CommandLine.closing error)
    return if error.isSome then 1 else 0

end TagMachine.Terminal

/-- The command line. -/
def main (arguments : List String) : IO UInt32 := do
  match TagMachine.CommandLine.start (arguments.map TagMachine.Bytes.ofString) with
  | .done code output errors =>
    TagMachine.Terminal.showText output
    TagMachine.Terminal.showError errors
    return code.toUInt32
  | .proceed i rest => TagMachine.Terminal.proceed i rest
