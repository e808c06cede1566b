import TagMachine.CommandLine.Flag

/-!
The command line: flags, settings, and then a session. The parts that decide are functions of what
was read, so they serve the working directory as well as a tree of files.
-/

namespace TagMachine

/-- Colours are on if the terminal can show them and nobody asked to do without. -/
def Palette.forTerminal (term noColor : Bytes) : Palette :=
  ⟨noColor.isEmpty && !term.isEmpty && term != Bytes.ofString "dumb"⟩

/-- The palette, unless the options turn colours off. -/
def Palette.under (p : Palette) (o : Options) : Palette := ⟨p.enabled && !o.noColor⟩

namespace CommandLine

/-- What the first look at the arguments comes to. -/
inductive Start where
  /-- There is nothing to do but to write this. -/
  | done (code : Nat) (output errors : Bytes)
  | proceed (i : Invocation) (arguments : List Bytes)

/-- Looks at the arguments. -/
def start (arguments : List Bytes) : Start :=
  match readFlags .default arguments with
  | .error .helpAsked => .done 0 [] ("Usage of tagvm:\n" ++ flagList)
  | .error e => .done 2 [] (Bytes.cat [e.message, "\nUsage of tagvm:\n", flagList])
  | .ok (i, rest) =>
    if i.help then .done 0 "Usage: tagvm [options] <program> [args...]\nOptions:\n" flagList
    else .proceed i rest

/-- An entry about an error that ends the program. -/
def fatalEntry (message cause : Bytes) : LogEntry := ⟨.fatal, message, [("error", cause)]⟩

/-- The entry about a missing program. -/
def noProgramEntry : LogEntry := ⟨.fatal, "No program file provided", [("help", "tagvm -h")]⟩

/-- The entry about the file that the settings come from. -/
def settingsEntry (path : Bytes) : LogEntry :=
  ⟨.debug, "Configuration loaded", [("file", path)]⟩

/-- The option that a flag sets can be set by the settings too. -/
def isGiven (i : Invocation) (s : Options.Setting) : Bool :=
  i.given.contains (match s with
    | .maxSteps => .maxSteps
    | .stackSize => .stackSize
    | .trace => .trace
    | .noColor => .noColor
    | .verbose => .verbose)

/-- What to do once the settings are known: what to log, and the options of the session if there is
to be one. -/
structure Configured where
  verbose : Bool
  entries : List LogEntry
  session : Option Options

/-- Puts flags, settings and arguments together. -/
def configure (i : Invocation) (arguments : List Bytes) :
    Except SettingsError Settings.Found → Configured
  | .error e => ⟨i.options.verbose, [fatalEntry "Invalid configuration" e.message], none⟩
  | .ok found =>
    let o := i.options.withSettings found.settings (isGiven i)
    match o.validate with
    | .error e => ⟨i.options.verbose, [fatalEntry "Invalid options" e.message], none⟩
    | .ok _ =>
      let loaded := if found.path.isEmpty then [] else [settingsEntry found.path]
      match arguments with
      | [] => ⟨o.verbose, loaded ++ [noProgramEntry], none⟩
      | program :: rest => ⟨o.verbose, loaded, some { o with program, arguments := rest }⟩

/-- What is left to log after a session. -/
def closing : Option SessionError → List LogEntry
  | some e => [fatalEntry "Run failed" e.message]
  | none => []

/-! ## On a tree of files -/

/-- What the program is given beside its arguments. -/
structure Surroundings where
  files : FileTree
  palette : Palette
  input : Bytes
  /-- How many steps a run may try. -/
  budget : Nat
  /-- The time that a run is said to have taken. -/
  seconds : Bytes

/-- What the program leaves behind. -/
structure Outcome where
  code : Nat
  output : Bytes
  errors : Bytes
  files : FileTree

/-- The settings that an invocation asks for. -/
def findSettings (i : Invocation) (files : FileTree) : Except SettingsError Settings.Found :=
  if i.config.isEmpty then Settings.find files [46] else Settings.loadFile files i.config

/-- The program on a tree of files. -/
def run (arguments : List Bytes) (w : Surroundings) : Outcome :=
  match start arguments with
  | .done code output errors => ⟨code, output, errors, w.files⟩
  | .proceed i rest =>
    let c := configure i rest (findSettings i w.files)
    let write (events : List Event) : Bytes := events.flatMap (·.onError c.verbose w.seconds)
    let before := c.entries.map Event.logged
    match c.session with
    | none => ⟨1, [], write before, w.files⟩
    | some o =>
      let r := Session.run o ⟨w.palette.under o, w.budget, w.input⟩ w.files
      let after := (closing r.error).map Event.logged
      ⟨if r.error.isSome then 1 else 0, r.events.flatMap (·.onOutput),
        write (before ++ r.events ++ after), r.files⟩

end CommandLine

end TagMachine
