import TagMachine.Display.Trace
import TagMachine.Number.Numeral
import TagMachine.Text.Lowercase
import TagMachine.Text.Quoted
import TagMachine.Text.Space

/-!
The debugger: commands that step a machine and show its state. An empty line repeats the command
before it.
-/

namespace TagMachine

/-- A debugging session. -/
structure Debugger where
  machine : Machine
  /-- The last line that was not blank. -/
  last : Bytes
  /-- The program has ended or the user has quit. -/
  done : Bool
  /-- The error that ended the program. -/
  error : Option RunError

namespace Debugger

/-- How a debugger works: its colours, what it writes before each instruction, and how many steps
it takes at most for one command. -/
structure Setup where
  palette : Palette
  watch : Observer
  budget : Nat

/-- A session about a machine. -/
def new (m : Machine) : Debugger := ⟨m, [], false, none⟩

/-- The text asked for with the command `help`. -/
def helpText : Bytes := "Commands:
  step [n]   execute n instructions (default 1)
  continue   run until the program stops
  stack      show the live stack
  regs       show pc, sp, bp and hr
  list       disassemble the program
  quit       leave the debugger
An empty line repeats the previous command.
"

/-- The commands. -/
inductive Command where
  | step (n : Nat)
  | badCount (text : Bytes)
  | proceed
  | stack
  | registers
  | list
  | quit
  | help
  | unknown (name : Bytes)
  deriving DecidableEq, Repr

/-- The number of steps asked for: a positive 64-bit integer. -/
def stepCount? (text : Bytes) : Option Nat :=
  match Numeral.readDecimal 64 text with
  | .ok n => if 1 ≤ n then some n.toNat else none
  | .error _ => none

/-- The command that the words of a line ask for. -/
def Command.ofWords (name : Bytes) (arguments : List Bytes) : Command :=
  let name := name.lowercase
  if name = Bytes.ofString "s" ∨ name = Bytes.ofString "step" then
    match arguments with
    | [] => .step 1
    | text :: _ =>
      match stepCount? text with
      | some n => .step n
      | none => .badCount text
  else if name = Bytes.ofString "c" ∨ name = Bytes.ofString "continue" then .proceed
  else if name = Bytes.ofString "stack" then .stack
  else if name = Bytes.ofString "r" ∨ name = Bytes.ofString "regs" then .registers
  else if name = Bytes.ofString "l" ∨ name = Bytes.ofString "list" then .list
  else if name = Bytes.ofString "q" ∨ name = Bytes.ofString "quit" then .quit
  else if name = Bytes.ofString "h" ∨ name = Bytes.ofString "help" then .help
  else .unknown name

/-- A register in text; no handler is -1. -/
def handlerText : Option Nat → Bytes
  | some h => Bytes.nat h
  | none => "-1"

/-- The registers and the step count on a line. -/
def registersLine (m : Machine) : Bytes :=
  Bytes.cat ["pc=", Bytes.int m.pc, " sp=", Bytes.int m.sp, " bp=", Bytes.int m.bp, " hr=",
    handlerText m.hr, " steps=", Bytes.nat m.steps, [10]]

/-- Carries out up to `n` instructions and tells how the program ended, or where it stands. -/
def advance (setup : Setup) (n : Nat) (d : Debugger) : Bytes × Debugger :=
  if d.done then ([], d)
  else
    let r := d.machine.run setup.watch n
    match r.ending with
    | .failed e =>
      (r.output ++ setup.palette.error e.message ++ [10],
        { d with machine := r.machine, done := true, error := some e })
    | .stopped =>
      let remark := Bytes.cat ["program stopped after ", Bytes.nat r.machine.steps, " steps"]
      (r.output ++ setup.palette.info remark ++ [10], { d with machine := r.machine, done := true })
    | .unfinished => (r.output ++ Trace.line r.machine ++ [10], { d with machine := r.machine })

/-- Carries out a command. -/
def perform (setup : Setup) (c : Command) (d : Debugger) : Bytes × Debugger :=
  match c with
  | .step n => d.advance setup n
  | .badCount text =>
    (setup.palette.error ("invalid step count " ++ Quoted.write text) ++ [10], d)
  | .proceed => d.advance setup setup.budget
  | .stack => (Trace.stack d.machine ++ [10], d)
  | .registers => (registersLine d.machine, d)
  | .list =>
    (Listing.render setup.palette (Listing.markAt d.machine.pc) d.machine.code.toList, d)
  | .quit => ([], { d with done := true })
  | .help => (helpText, d)
  | .unknown name =>
    (setup.palette.warning
      (Bytes.cat ["unknown command ", Quoted.write name, ", type help"]) ++ [10], d)

/-- Carries out a line; a blank one means the last line that was not. -/
def execute (setup : Setup) (line : Bytes) (d : Debugger) : Bytes × Debugger :=
  match line.words with
  | name :: arguments => ({ d with last := line }).perform setup (.ofWords name arguments)
  | [] =>
    match d.last.words with
    | name :: arguments => d.perform setup (.ofWords name arguments)
    | [] => ([], d)

end Debugger

end TagMachine
