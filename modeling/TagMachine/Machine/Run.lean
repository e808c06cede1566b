import TagMachine.Machine.Step

/-!
Runs. A run is a sequence of steps up to a stop or an error; a budget bounds how many are tried, and
a run that uses it up is unfinished. An observer may write something before each instruction.
-/

namespace TagMachine

/-- What is written before an instruction is carried out. -/
abbrev Observer := Machine → Bytes

/-- The observer that writes nothing. -/
def Observer.silent : Observer := fun _ => []

namespace Machine

/-- A step under observation. The observer sees the machine only if an instruction is carried
out. -/
def observedStep (watch : Observer) (m : Machine) : StepResult × Bytes × Machine :=
  let seen := if m.ready then watch m else []
  match m.step with
  | (.ran output, n) => (.ran output, seen ++ output, n)
  | (result, n) => (result, seen, n)

end Machine

/-- How a run ended. -/
inductive Ending where
  | stopped
  | failed (e : RunError)
  /-- The budget was used up. -/
  | unfinished
  deriving DecidableEq, Repr

/-- A run: how it ended, what was written and the machine it left. -/
structure Run where
  ending : Ending
  output : Bytes
  machine : Machine

namespace Machine

/-- Runs for at most `budget` steps, after `written` was written. -/
def runFrom (watch : Observer) : (budget : Nat) → (written : Array UInt8) → Machine → Run
  | 0, written, m => ⟨.unfinished, written.toList, m⟩
  | budget + 1, written, m =>
    match m.observedStep watch with
    | (.ran _, output, n) => runFrom watch budget (written ++ output) n
    | (.stopped, output, n) => ⟨.stopped, (written ++ output).toList, n⟩
    | (.failed e, output, n) => ⟨.failed e, (written ++ output).toList, n⟩

/-- Runs for at most `budget` steps. -/
def run (watch : Observer) (budget : Nat) (m : Machine) : Run := runFrom watch budget #[] m

end Machine

end TagMachine
