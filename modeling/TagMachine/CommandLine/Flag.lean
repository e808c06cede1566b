import TagMachine.Number.Numeral
import TagMachine.Session

/-!
Flags of the command line. A flag starts with one or two dashes; its value follows an equals sign
or, unless it is a switch, is the next argument. The first argument that is no flag ends the flags.
-/

namespace TagMachine.CommandLine

/-- The flags, by their letters. -/
inductive Flag where
  | stackSize
  | debug
  | config
  | help
  | list
  | noColor
  | output
  | maxSteps
  | trace
  | verbose
  deriving DecidableEq, Repr

/-- What a flag takes. -/
inductive FlagKind where
  | switch
  | text
  | number
  deriving DecidableEq, Repr

namespace Flag

/-- The flags in the order of their letters. -/
def all : List Flag :=
  [stackSize, debug, config, help, list, noColor, output, maxSteps, trace, verbose]

/-- The letter of a flag. -/
def name : Flag → Bytes
  | stackSize => "S"
  | debug => "d"
  | config => "f"
  | help => "h"
  | list => "l"
  | noColor => "n"
  | output => "o"
  | maxSteps => "s"
  | trace => "t"
  | verbose => "v"

/-- What a flag takes. -/
def kind : Flag → FlagKind
  | stackSize | maxSteps => .number
  | config | output => .text
  | debug | help | list | noColor | trace | verbose => .switch

/-- What a flag does, in words. -/
def usage : Flag → Bytes
  | stackSize => "Number of stack slots (default 1000)"
  | debug => "Step through the program interactively"
  | config => "Configuration file (default ./tagvm.toml)"
  | help => "Show help"
  | list => "Disassemble the program and exit"
  | noColor => "No color"
  | output => "Write a program image (.tvmi) instead of running"
  | maxSteps => "Maximum number of steps (0 = unlimited)"
  | trace => "Trace every instruction"
  | verbose => "Verbose mode"

/-- The flag with a name. -/
def ofName? (b : Bytes) : Option Flag := all.find? (·.name == b)

/-- The lines about a flag in the list of flags. -/
def describe (f : Flag) : Bytes :=
  match f.kind with
  | .switch => Bytes.cat ["  -", f.name, "\t", f.usage, "\n"]
  | .text => Bytes.cat ["  -", f.name, " string\n    \t", f.usage, "\n"]
  | .number => Bytes.cat ["  -", f.name, " int\n    \t", f.usage, "\n"]

end Flag

/-- The list of flags. -/
def flagList : Bytes := Flag.all.flatMap Flag.describe

/-- What the flags ask for. -/
structure Invocation where
  options : Options
  help : Bool
  /-- The file with the settings; empty for the one of the working directory. -/
  config : Bytes
  /-- The flags that were given. -/
  given : List Flag
  deriving DecidableEq, Repr

/-- Nothing asked for. -/
def Invocation.default : Invocation where
  options :=
    { program := [], arguments := [], trace := false, debug := false, list := false, output := [],
      maxSteps := 0, stackSize := Machine.defaultCapacity, noColor := false, verbose := false }
  help := false
  config := []
  given := []

/-- Why the flags were refused. -/
inductive FlagError where
  | malformed (argument : Bytes)
  | undefined (name : Bytes)
  | lacksValue (name : Bytes)
  | badSwitch (value name : Bytes)
  | badNumber (value name : Bytes) (why : NumeralError Int)
  /-- The list of flags was asked for. -/
  | helpAsked
  deriving DecidableEq, Repr

/-- The error in words. -/
def FlagError.message : FlagError → Bytes
  | .malformed argument => "bad flag syntax: " ++ argument
  | .undefined name => "flag provided but not defined: -" ++ name
  | .lacksValue name => "flag needs an argument: -" ++ name
  | .badSwitch value name =>
    Bytes.cat ["invalid boolean value ", Quoted.write value, " for -", name, ": parse error"]
  | .badNumber value name why =>
    let reason : Bytes := match why with
      | .malformed => "parse error"
      | .outOfRange _ => "value out of range"
    Bytes.cat ["invalid value ", Quoted.write value, " for flag -", name, ": ", reason]
  | .helpAsked => []

/-! ## Values of flags -/

/-- The words for true. -/
def trueWords : List Bytes := ["1", "t", "T", "TRUE", "true", "True"]

/-- The words for false. -/
def falseWords : List Bytes := ["0", "f", "F", "FALSE", "false", "False"]

/-- The value of a switch. -/
def switchValue? (b : Bytes) : Option Bool :=
  if trueWords.contains b then some true else if falseWords.contains b then some false else none

namespace Invocation

/-- Turns a switch on or off. -/
def withSwitch (i : Invocation) (f : Flag) (on : Bool) : Invocation :=
  match f with
  | .debug => { i with options.debug := on }
  | .help => { i with help := on }
  | .list => { i with options.list := on }
  | .noColor => { i with options.noColor := on }
  | .trace => { i with options.trace := on }
  | .verbose => { i with options.verbose := on }
  | _ => i

/-- Sets a flag that takes a text. -/
def withText (i : Invocation) (f : Flag) (value : Bytes) : Invocation :=
  match f with
  | .config => { i with config := value }
  | .output => { i with options.output := value }
  | _ => i

/-- Sets a flag that takes a number. -/
def withNumber (i : Invocation) (f : Flag) (n : Int) : Invocation :=
  match f with
  | .stackSize => { i with options.stackSize := n }
  | .maxSteps => { i with options.maxSteps := n }
  | _ => i

/-- Sets a flag from the text of its value. -/
def withValue (i : Invocation) (f : Flag) (value : Bytes) : Except FlagError Invocation :=
  let i := { i with given := f :: i.given }
  match f.kind with
  | .switch =>
    match switchValue? value with
    | some on => .ok (i.withSwitch f on)
    | none => .error (.badSwitch value f.name)
  | .text => .ok (i.withText f value)
  | .number =>
    match Numeral.readMarked 64 value with
    | .ok n => .ok (i.withNumber f n)
    | .error e => .error (.badNumber value f.name e)

end Invocation

/-! ## Arguments -/

/-- What an argument is. -/
inductive Argument where
  /-- Not a flag. -/
  | plain
  /-- The two dashes that end the flags. -/
  | stop
  | malformed
  | flag (name : Bytes) (value : Option Bytes)
  deriving DecidableEq, Repr

/-- Splits the value off a flag's name. -/
def splitValue (name : Bytes) : Argument :=
  match name with
  | [] => .malformed
  | x :: rest =>
    if x = 45 ∨ x = 61 then .malformed
    else
      match rest.dropWhile (· != 61) with
      | [] => .flag name none
      | _ :: value => .flag (x :: rest.takeWhile (· != 61)) (some value)

/-- Classifies an argument. -/
def Argument.ofText : Bytes → Argument
  | [45, 45] => .stop
  | 45 :: 45 :: name => splitValue name
  | [45] => .plain
  | 45 :: name => splitValue name
  | _ => .plain

/-- Reads flags, and gives the arguments behind them. -/
def readFlags (i : Invocation) : List Bytes → Except FlagError (Invocation × List Bytes)
  | [] => .ok (i, [])
  | argument :: rest =>
    match Argument.ofText argument with
    | .plain => .ok (i, argument :: rest)
    | .stop => .ok (i, rest)
    | .malformed => .error (.malformed argument)
    | .flag name value =>
      match Flag.ofName? name with
      | none => if name = Bytes.ofString "help" then .error .helpAsked else .error (.undefined name)
      | some f =>
        match f.kind, value with
        | _, some v =>
          match i.withValue f v with
          | .ok i => readFlags i rest
          | .error e => .error e
        | .switch, none =>
          match i.withValue f "true" with
          | .ok i => readFlags i rest
          | .error e => .error e
        | _, none =>
          match rest with
          | [] => .error (.lacksValue name)
          | v :: rest =>
            match i.withValue f v with
            | .ok i => readFlags i rest
            | .error e => .error e

end TagMachine.CommandLine
