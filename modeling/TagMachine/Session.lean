import TagMachine.Debugger
import TagMachine.Journal
import TagMachine.Program.Load
import TagMachine.Settings
import TagMachine.Value.Argument

/-!
A session: load a program, then list it, store it as an image, or carry it out with or without the
debugger. What a session shows is a list of events in order.
-/

namespace TagMachine

/-- What a session is asked to do. -/
structure Options where
  /-- The path of the program. -/
  program : Bytes
  arguments : List Bytes
  /-- Write a trace line before each instruction. -/
  trace : Bool
  /-- Use the debugger. -/
  debug : Bool
  /-- List the program and do nothing else. -/
  list : Bool
  /-- Where to write an image instead of running; empty for nowhere. -/
  output : Bytes
  maxSteps : Int
  stackSize : Int
  noColor : Bool
  verbose : Bool
  deriving DecidableEq, Repr

/-- An option out of its range. -/
inductive OptionsError where
  | stackSize (given : Int)
  | maxSteps (given : Int)
  deriving DecidableEq, Repr

/-- The error in words. -/
def OptionsError.message : OptionsError → Bytes
  | .stackSize n => Bytes.cat [invalidSettings, "stack size must be positive, got ", Bytes.int n]
  | .maxSteps n => Bytes.cat [invalidSettings, "max steps must not be negative, got ", Bytes.int n]

namespace Options

/-- The options that settings can give. -/
inductive Setting where
  | maxSteps
  | stackSize
  | trace
  | noColor
  | verbose
  deriving DecidableEq, Repr

/-- Takes from settings what was not given otherwise. -/
def withSettings (o : Options) (s : Settings) (given : Setting → Bool) : Options :=
  { o with
    maxSteps := if given .maxSteps then o.maxSteps else s.maxSteps
    stackSize := if given .stackSize then o.stackSize else s.stackSize
    trace := if given .trace then o.trace else s.trace
    noColor := if given .noColor then o.noColor else !s.color
    verbose := if given .verbose then o.verbose else s.debug }

/-- The machine limits are in range. -/
def validate (o : Options) : Except OptionsError Unit :=
  if o.stackSize ≤ 0 then .error (.stackSize o.stackSize)
  else if o.maxSteps < 0 then .error (.maxSteps o.maxSteps)
  else .ok ()

/-- The machine for a program and its arguments. -/
def machine (o : Options) (words : Program) (args : List Value) : Machine :=
  .new words o.stackSize o.maxSteps args

/-- What is written before each instruction. -/
def watch (o : Options) (palette : Palette) : Observer :=
  if o.trace then Trace.observer palette else .silent

end Options

/-- What a session shows. -/
inductive Event where
  /-- Output of the program, the debugger or a listing. -/
  | shown (text : Bytes)
  | logged (e : LogEntry)
  /-- The report on how long the run took. -/
  | elapsed
  deriving DecidableEq, Repr

/-- Why a session failed. -/
inductive SessionError where
  | load (e : LoadError)
  | write (e : FileError)
  | arguments (e : ArgumentsError)
  | run (e : RunError)
  deriving DecidableEq, Repr

/-- The error in words. -/
def SessionError.message : SessionError → Bytes
  | .load e => "loading failed: " ++ e.message
  | .write e => "writing image: " ++ e.message
  | .arguments e => e.message
  | .run e => e.message

/-- The report on a run that took `seconds`. -/
def elapsedText (seconds : Bytes) : Bytes := Bytes.cat ["\nRan ", seconds, " seconds\n"]

/-- Seconds in text, from milliseconds. -/
def secondsText (milliseconds : Nat) : Bytes :=
  ((Binary32.ofInt milliseconds).div (.ofInt 1000)).text

namespace Session

/-! ## Log entries -/

/-- The program at a path is about to be loaded. -/
def loadingEntry (path : Bytes) : LogEntry := ⟨.info, "Loading program", [("file", path)]⟩

/-- A program of so many words was loaded. -/
def loadedEntry (words : Nat) : LogEntry := ⟨.debug, "Program loaded", [("words", Bytes.nat words)]⟩

/-- An image was written. -/
def writtenEntry (path : Bytes) (words : Nat) : LogEntry :=
  ⟨.info, "Image written", [("file", path), ("words", Bytes.nat words)]⟩

/-- The debugger was left while the program could go on. -/
def quitEntry (pc : Int) : LogEntry :=
  ⟨.info, "Debugger quit before the program stopped", [("pc", Bytes.int pc)]⟩

/-- The program came to its end. -/
def stoppedEntry (m : Machine) : LogEntry :=
  ⟨.info, "Program stopped", [("sp", Bytes.int m.sp), ("steps", Bytes.nat m.steps)]⟩

/-- The program divided by zero and nothing took it. -/
def unhandledEntry (m : Machine) : LogEntry :=
  ⟨.warn, "Integer division by zero without a handler, run terminated",
    [("sp", Bytes.int m.sp), ("steps", Bytes.nat m.steps)]⟩

/-! ## Plans -/

/-- What to do with a program that was loaded. -/
inductive Plan where
  | list (text : Bytes)
  | store (path image : Bytes)
  | execute (m : Machine)
  | refuse (e : ArgumentsError)

/-- What the options ask to do with a program. -/
def plan (o : Options) (palette : Palette) (p : Program.Loaded) : Plan :=
  if o.list then .list (Listing.render palette none p.words)
  else if o.output.isEmpty then
    match Value.ofArguments o.arguments with
    | .ok args => .execute (o.machine p.words args)
    | .error e => .refuse e
  else .store o.output (Image.encode p.words p.source)

/-- What to say at the end of a run. A division by zero that nothing took is no failure. -/
def conclude (m : Machine) : Option RunError → List Event × Option SessionError
  | none => ([.logged (stoppedEntry m)], none)
  | some (.fault f) =>
    if f.cause.trapClass = .unhandledDivision then ([.logged (unhandledEntry m)], none)
    else ([], some (.run (.fault f)))
  | some .stepLimit => ([], some (.run .stepLimit))

/-! ## The debugger on input -/

/-- The prompt of the debugger. -/
def prompt : Bytes := "(tagvm) "

/-- The most bytes that are read as one line. -/
def lineLimit : Nat := 4096

/-- Reads a line of at most `lineLimit` bytes; what is longer is read as more than one line. `none`
at the end of the input. -/
def nextLine? (input : Bytes) : Option (Bytes × Bytes) :=
  if input.isEmpty then none
  else
    let chunk := input.take lineLimit
    let line := chunk.takeWhile (· != 10)
    if line.length < chunk.length then
      let line' := if line.getLast? = some 13 then line.dropLast else line
      some (line', input.drop (line.length + 1))
    else if chunk.length < lineLimit then some (chunk, [])
    else if chunk.getLast? = some 13 then some (chunk.dropLast, input.drop (lineLimit - 1))
    else some (chunk, input.drop lineLimit)

/-- Every line takes at least one byte. -/
theorem length_lt_of_nextLine? {input line rest : Bytes} (h : nextLine? input = some (line, rest)) :
    rest.length < input.length := by
  unfold nextLine? at h
  by_cases he : input.isEmpty
  · simp [he] at h
  · have hp : 0 < input.length := by
      cases input with
      | nil => simp at he
      | cons x xs => simp
    simp only [he, lineLimit] at h
    grind

/-- The lines of an input. -/
def lines (input : Bytes) : List Bytes :=
  match _h : nextLine? input with
  | none => []
  | some (line, rest) => line :: lines rest
termination_by input.length
decreasing_by exact length_lt_of_nextLine? ‹_›

/-- Gives lines to the debugger until it is done. -/
def converse (setup : Debugger.Setup) (d : Debugger) : List Bytes → Bytes × Debugger
  | [] => (if d.done then [] else prompt, d)
  | line :: rest =>
    if d.done then ([], d)
    else
      let (out, d) := d.execute setup line
      let (more, d) := converse setup d rest
      (prompt ++ out ++ more, d)

/-- A debugging session on an input. -/
def debug (setup : Debugger.Setup) (m : Machine) (input : Bytes) : List Event × Debugger :=
  let (out, d) := converse setup (.new m) (lines input)
  let left := if !d.machine.halted && d.error.isNone then [.logged (quitEntry d.machine.pc)] else []
  (.shown (Trace.line m ++ [10] ++ out) :: left, d)

/-! ## The whole session -/

/-- What a session is given: its colours, how many steps a run may try, and the input. -/
structure Setting where
  palette : Palette
  budget : Nat
  input : Bytes

/-- Carries out a program. -/
def execute (o : Options) (s : Setting) (m : Machine) : List Event × Option SessionError :=
  let watch := o.watch s.palette
  if o.debug then
    let (events, d) := debug ⟨s.palette, watch, s.budget⟩ m s.input
    let (closing, e) := conclude d.machine d.error
    (events ++ .elapsed :: closing, e)
  else
    let r := m.run watch s.budget
    let (closing, e) := conclude r.machine (match r.ending with
      | .failed e => some e
      | _ => none)
    (.shown r.output :: .elapsed :: closing, e)

/-- What a session leaves behind. -/
structure Outcome where
  events : List Event
  error : Option SessionError
  files : FileTree

/-- Goes through with a plan. -/
def follow (o : Options) (s : Setting) (files : FileTree) (words : Nat) : Plan → Outcome
  | .list text => ⟨[.shown text], none, files⟩
  | .refuse e => ⟨[], some (.arguments e), files⟩
  | .store path image =>
    match files.write path image with
    | .ok files => ⟨[.logged (writtenEntry path words)], none, files⟩
    | .error e => ⟨[], some (.write e), files⟩
  | .execute m =>
    let (events, e) := execute o s m
    ⟨events, e, files⟩

/-- A session on files. -/
def run (o : Options) (s : Setting) (files : FileTree) : Outcome :=
  let loading := Event.logged (loadingEntry o.program)
  match Program.load o.program (files.read o.program) with
  | .error e => ⟨[loading], some (.load e), files⟩
  | .ok p =>
    let rest := follow o s files p.words.length (plan o s.palette p)
    { rest with events := loading :: .logged (loadedEntry p.words.length) :: rest.events }

end Session

namespace Event

/-- The text of an event on the standard output. -/
def onOutput : Event → Bytes
  | .shown text => text
  | _ => []

/-- The text of an event in the log. -/
def inLog (verbose : Bool) : Event → Bytes
  | .logged e => if e.level.isShown verbose then e.text else []
  | _ => []

/-- The text of an event on the standard error output apart from the log. -/
def asReport (seconds : Bytes) : Event → Bytes
  | .elapsed => elapsedText seconds
  | _ => []

/-- The text of an event on the standard error output. -/
def onError (verbose : Bool) (seconds : Bytes) (e : Event) : Bytes :=
  e.inLog verbose ++ e.asReport seconds

end Event

end TagMachine
