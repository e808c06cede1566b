import TagMachine.Debugger
import TagMachine.Proofs.TracedRuns

/-!
Programs in the debugger. Whatever lines a debugger is given, the steps it calls are those of one
run: as many as the commands for steps ask for, up to the first step that ends the program. Nothing
else touches the machine, so a program that is continued comes to what it comes to on its own.
-/

namespace TagMachine

/-- The error of a run that did not end well. -/
def Ending.error? : Ending → Option RunError
  | .failed e => some e
  | _ => none

namespace Machine

variable {m : Machine}

/-! ## The steps that a run calls -/

/-- The answers that a run asks for: it calls no step behind one that stops or fails. -/
def callsOf : List StepResult → List StepResult
  | [] => []
  | .ran output :: rest => .ran output :: callsOf rest
  | r :: _ => [r]

theorem callsOf_append_of_ran {as : List StepResult} (h : ∀ a ∈ as, ∃ output, a = .ran output)
    (bs : List StepResult) : callsOf (as ++ bs) = as ++ callsOf bs := by
  induction as with
  | nil => rfl
  | cons a as ih =>
    obtain ⟨⟨output, rfl⟩, has⟩ := List.forall_mem_cons.mp h
    rw [List.cons_append, callsOf, ih has, List.cons_append]

theorem endingOf_eq_unfinished_iff {as : List StepResult} :
    endingOf as = .unfinished ↔ ∀ a ∈ as, ∃ output, a = .ran output := by
  induction as with
  | nil => simp [endingOf]
  | cons a as ih => cases a <;> simp [endingOf, ih]

/-- Behind an end nothing is called, and nothing changes how the run ends. -/
theorem callsOf_append_of_ended {as : List StepResult} (h : endingOf as ≠ .unfinished)
    (bs : List StepResult) :
    callsOf (as ++ bs) = callsOf as ∧ endingOf (as ++ bs) = endingOf as := by
  induction as with
  | nil => exact absurd rfl h
  | cons a as ih =>
    cases a with
    | ran output =>
      obtain ⟨hcalled, hending⟩ := ih h
      simp [callsOf, endingOf, hcalled, hending]
    | stopped => exact ⟨rfl, rfl⟩
    | failed e => exact ⟨rfl, rfl⟩

/-- Only the last step that is called may stop or fail. -/
theorem ran_of_mem_dropLast_callsOf (as : List StepResult) :
    ∀ a ∈ (callsOf as).dropLast, ∃ output, a = .ran output := by
  induction as with
  | nil => simp [callsOf]
  | cons a as ih =>
    cases a with
    | stopped => simp [callsOf]
    | failed e => simp [callsOf]
    | ran output =>
      rw [callsOf]
      cases hrest : callsOf as with
      | nil => simp
      | cons b bs =>
        rw [hrest] at ih
        rw [List.dropLast_cons_cons, List.forall_mem_cons]
        exact ⟨⟨output, rfl⟩, ih⟩

theorem endingOf_callsOf (as : List StepResult) : endingOf (callsOf as) = endingOf as := by
  induction as with
  | nil => rfl
  | cons a as ih => cases a <;> simp [callsOf, endingOf, ih]

/-- The steps that are not called change nothing and write nothing. -/
theorem afterSteps_callsOf (watch : Observer) (m : Machine) (k : Nat) :
    let n := (callsOf (m.answers k)).length
    m.answers n = callsOf (m.answers k) ∧ m.afterSteps n = m.afterSteps k ∧
      m.transcript watch n = m.transcript watch k := by
  induction k generalizing m with
  | zero => exact ⟨rfl, rfl, rfl⟩
  | succ k ih =>
    by_cases hran : ∃ output, m.step.1 = .ran output
    · obtain ⟨output, hran⟩ := hran
      obtain ⟨hanswers, hafter, htranscript⟩ := ih m.step.2
      simp only [answers, hran, callsOf, List.length_cons, afterSteps, transcript]
      exact ⟨by rw [hanswers], hafter, by rw [htranscript]⟩
    · have hnot : ∀ output, m.step.1 ≠ .ran output := fun output h => hran ⟨output, h⟩
      have hone : callsOf (m.answers (k + 1)) = [m.step.1] := by
        rw [answers]
        cases hr : m.step.1 with
        | ran output => exact absurd hr (hnot output)
        | stopped => rfl
        | failed e => rfl
      have hrest := not_ready_step hnot
      rw [hone, afterSteps, transcript, transcript_of_not_ready watch hrest,
        afterSteps_of_not_ready hrest]
      exact ⟨rfl, rfl, rfl⟩

/-! ## A run in two parts -/

theorem transcript_add (watch : Observer) (m : Machine) (j k : Nat) :
    m.transcript watch (j + k) = m.transcript watch j ++ (m.afterSteps j).transcript watch k := by
  induction j generalizing m with
  | zero => simp [transcript, afterSteps]
  | succ j ih =>
    rw [Nat.add_right_comm, transcript, transcript, afterSteps, ih, List.append_assoc]

theorem not_ready_of_ended {k : Nat} (h : endingOf (m.answers k) ≠ .unfinished) :
    ¬ (m.afterSteps k).ready := by
  induction k generalizing m with
  | zero => exact absurd rfl h
  | succ k ih =>
    rw [answers] at h
    rw [afterSteps]
    by_cases hran : ∃ output, m.step.1 = .ran output
    · obtain ⟨output, hran⟩ := hran
      rw [hran, endingOf] at h
      exact ih h
    · have hrest := not_ready_step fun output h => hran ⟨output, h⟩
      rw [afterSteps_of_not_ready hrest]
      exact hrest

theorem run_ending (watch : Observer) (m : Machine) (k : Nat) :
    (m.run watch k).ending = endingOf (m.answers k) := by
  rw [run_observed]

/-- More steps do not change a run that has ended. -/
theorem run_add_of_ended {watch : Observer} {j : Nat} (h : (m.run watch j).ending ≠ .unfinished)
    (k : Nat) : m.run watch (j + k) = m.run watch j := by
  rw [run_ending] at h
  have hrest := not_ready_of_ended h
  rw [run_observed, run_observed, answers_add, (callsOf_append_of_ended h _).2, afterSteps_add,
    afterSteps_of_not_ready hrest, transcript_add, transcript_of_not_ready watch hrest,
    List.append_nil]

/-- More steps carry on a run that has not ended. -/
theorem run_add_of_unfinished {watch : Observer} {j : Nat}
    (h : (m.run watch j).ending = .unfinished) (k : Nat) :
    let rest := (m.afterSteps j).run watch k
    m.run watch (j + k) = ⟨rest.ending, (m.run watch j).output ++ rest.output, rest.machine⟩ := by
  rw [run_ending, endingOf_eq_unfinished_iff] at h
  simp only [run_observed, answers_add, endingOf_append h, transcript_add, afterSteps_add]

end Machine

namespace Debugger

open Machine

/-! ## Lines and commands -/

/-- The command that a text asks for, if it is not blank. -/
def Command.ofText? (text : Bytes) : Option Command :=
  match text.words with
  | name :: arguments => some (.ofWords name arguments)
  | [] => none

/-- The commands of lines, one for each line. A blank line means the line before it that is not
blank, and nothing if there is none. -/
def commands (last : Bytes) : List Bytes → List (Option Command)
  | [] => []
  | line :: lines =>
    let meant := if line.words = [] then last else line
    Command.ofText? meant :: commands meant lines

/-- The number of steps that a command asks for. -/
def Command.asked? (setup : Setup) : Command → Option Nat
  | .step n => some n
  | .proceed => some setup.budget
  | _ => none

/-- The number of steps that commands ask for before the first `quit`. -/
def requested (setup : Setup) : List (Option Command) → Nat
  | [] => 0
  | some .quit :: _ => 0
  | c :: cs => ((c.bind (·.asked? setup)).getD 0) + requested setup cs

/-! ## Turns -/

/-- What a line comes to in a session. -/
structure Turn where
  before : Debugger
  command : Option Command
  /-- All that is written. -/
  text : Bytes
  after : Debugger

/-- The turn of a line. -/
def turn (setup : Setup) (d : Debugger) (line : Bytes) : Turn :=
  ⟨d, Command.ofText? (if line.words = [] then d.last else line), (d.execute setup line).1,
    (d.execute setup line).2⟩

/-- The turns of lines, one after the other. -/
def turns (setup : Setup) (d : Debugger) : List Bytes → List Turn
  | [] => []
  | line :: lines => d.turn setup line :: (d.turn setup line).after.turns setup lines

/-- The debugger after lines. -/
def afterLines (setup : Setup) (d : Debugger) (lines : List Bytes) : Debugger :=
  lines.foldl (fun d line => (d.execute setup line).2) d

/-- The line behind steps: how the program ended, or where it stands. -/
def closing (setup : Setup) (m : Machine) : Ending → Bytes
  | .failed e => setup.palette.error e.message ++ [10]
  | .stopped =>
    setup.palette.info (Bytes.cat ["program stopped after ", Bytes.nat m.steps, " steps"]) ++ [10]
  | .unfinished => Trace.line m ++ [10]

namespace Turn

/-- The number of steps that the line asks for. -/
def asked? (setup : Setup) (t : Turn) : Option Nat := t.command.bind (·.asked? setup)

/-- The steps that are called, as the answers they give. -/
def calls (setup : Setup) (t : Turn) : List StepResult :=
  if t.before.done then [] else callsOf (t.before.machine.answers ((t.asked? setup).getD 0))

/-- What the program writes, with whoever watches it. -/
def own (setup : Setup) (t : Turn) : Bytes :=
  t.before.machine.transcript setup.watch (t.calls setup).length

/-- What the debugger writes itself: behind steps the closing line, and what any other command asks
for. -/
def remark (setup : Setup) (t : Turn) : Bytes :=
  match t.command with
  | none => []
  | some c =>
    if (c.asked? setup).isNone then (t.before.perform setup c).1
    else if t.before.done then []
    else closing setup t.after.machine (endingOf (t.calls setup))

end Turn

/-! ## One turn -/

variable {setup : Setup} {d : Debugger}

theorem perform_asked {c : Command} {n : Nat} (h : c.asked? setup = some n) :
    d.perform setup c = d.advance setup n := by
  cases c <;> cases h <;> rfl

/-- A command that asks for no steps leaves the program alone. -/
theorem perform_of_asked?_eq_none {c : Command} (h : c.asked? setup = none) :
    (d.perform setup c).2 = if c = .quit then { d with done := true } else d := by
  cases c <;> simp_all [Command.asked?, perform]

theorem advance_of_done (h : d.done) (n : Nat) : d.advance setup n = ([], d) := by
  simp [advance, h]

/-- Steps that are asked for are a run. -/
theorem advance_eq (h : d.done = false) (n : Nat) :
    (d.advance setup n).2 =
      let r := d.machine.run setup.watch n
      { d with
        machine := r.machine
        done := r.ending ≠ .unfinished
        error := r.ending.error?.or d.error } := by
  unfold advance
  rw [h, if_neg Bool.false_ne_true]
  dsimp only
  cases d.machine.run setup.watch n with
  | mk ending output machine => cases ending <;> simp [Ending.error?]

theorem advance_text (n : Nat) :
    (d.advance setup n).1 =
      if d.done then []
      else
        let r := d.machine.run setup.watch n
        r.output ++ closing setup r.machine r.ending := by
  unfold advance
  by_cases h : d.done
  · rw [if_pos h, if_pos h]
  · rw [if_neg h, if_neg h]
    dsimp only
    cases d.machine.run setup.watch n with
    | mk ending output machine => cases ending <;> simp [closing]

theorem last_advance (n : Nat) : (d.advance setup n).2.last = d.last := by
  cases h : d.done with
  | true => rw [advance_of_done h]
  | false => rw [advance_eq h]

theorem last_perform (setup : Setup) (d : Debugger) (c : Command) :
    (d.perform setup c).2.last = d.last := by
  cases h : c.asked? setup with
  | some n => rw [perform_asked h, last_advance]
  | none =>
    rw [perform_of_asked?_eq_none h]
    split <;> rfl

/-- What a command does does not depend on the lines before it. -/
theorem perform_withLast (c : Command) (last : Bytes) :
    { d with last }.perform setup c =
      ((d.perform setup c).1, { (d.perform setup c).2 with last }) := by
  cases h : c.asked? setup with
  | none => cases c <;> simp_all [Command.asked?, perform]
  | some n =>
    rw [perform_asked h, perform_asked h]
    apply Prod.ext
    · rw [advance_text, advance_text]
    · by_cases hdone : d.done = true
      · rw [advance_of_done hdone, advance_of_done (d := { d with last }) hdone]
      · have hnot : d.done = false := by simpa using hdone
        rw [advance_eq hnot, advance_eq (d := { d with last }) hnot]

/-- A line is carried out as the command it means. -/
theorem turn_cases (setup : Setup) (d : Debugger) (line : Bytes) :
    let t := d.turn setup line
    let meant := if line.words = [] then d.last else line
    (t.command = none ∧ t.text = [] ∧ t.after = { d with last := meant }) ∨
      ∃ c, t.command = some c ∧ t.text = (d.perform setup c).1 ∧
        t.after = { (d.perform setup c).2 with last := meant } := by
  unfold turn execute Command.ofText?
  cases hline : line.words with
  | cons name arguments => simp [hline, perform_withLast]
  | nil =>
    cases hlast : d.last.words with
    | nil => simp [hlast]
    | cons name arguments =>
      have hkeep := last_perform setup d (.ofWords name arguments)
      simp only [if_true, hlast, Option.some.injEq, exists_eq_left', true_and, reduceCtorEq,
        false_and, false_or]
      rw [← hkeep]

theorem last_turn (line : Bytes) :
    (d.turn setup line).after.last = if line.words = [] then d.last else line := by
  rcases turn_cases setup d line with ⟨-, -, h⟩ | ⟨c, -, -, h⟩ <;> rw [h]

/-- A line that asks for no steps calls none, and the machine and the program's output stay. -/
theorem turn_of_asked?_eq_none {line : Bytes} (h : (d.turn setup line).asked? setup = none) :
    let t := d.turn setup line
    t.calls setup = [] ∧ t.own setup = [] ∧ t.after.machine = d.machine ∧ t.after.error = d.error ∧
      t.after.done = (d.done || t.command = some .quit) := by
  intro t
  have hcalls : t.calls setup = [] := by
    unfold Turn.calls
    rw [h]
    split <;> rfl
  refine ⟨hcalls, by rw [Turn.own, hcalls]; rfl, ?_⟩
  rcases turn_cases setup d line with ⟨hnone, -, hafter⟩ | ⟨c, hsome, -, hafter⟩
  · simp [t, hnone, hafter]
  · unfold Turn.asked? at h
    rw [hsome, Option.bind_some] at h
    rw [perform_of_asked?_eq_none h] at hafter
    by_cases hquit : c = .quit <;> simp [t, hsome, hafter, hquit]

/-- A line that asks for steps calls none if the debugger is done. -/
theorem turn_of_done (setup : Setup) (line : Bytes) (h : d.done) :
    let t := d.turn setup line
    t.calls setup = [] ∧ t.own setup = [] ∧ t.after.machine = d.machine ∧ t.after.error = d.error ∧
      t.after.done := by
  intro t
  cases hasked : t.asked? setup with
  | none =>
    obtain ⟨hcalls, hown, hmachine, herror, hdone⟩ := turn_of_asked?_eq_none hasked
    exact ⟨hcalls, hown, hmachine, herror, by rw [hdone, h, Bool.true_or]⟩
  | some n =>
    have hcalls : t.calls setup = [] := by
      unfold Turn.calls
      exact if_pos h
    refine ⟨hcalls, by rw [Turn.own, hcalls]; rfl, ?_⟩
    rcases turn_cases setup d line with ⟨hnone, -, -⟩ | ⟨c, hsome, -, hafter⟩
    · simp [t, Turn.asked?, hnone] at hasked
    · unfold Turn.asked? at hasked
      rw [hsome, Option.bind_some] at hasked
      rw [perform_asked hasked, advance_of_done h] at hafter
      simp [t, hafter, h]

/-- Otherwise it calls the steps of a run. -/
theorem turn_of_asked? {line : Bytes} {n : Nat} (hdone : d.done = false)
    (h : (d.turn setup line).asked? setup = some n) :
    let t := d.turn setup line
    let r := d.machine.run setup.watch n
    t.calls setup = callsOf (d.machine.answers n) ∧ t.own setup = r.output ∧
      t.after.machine = r.machine ∧ t.after.error = r.ending.error?.or d.error ∧
      t.after.done = (r.ending ≠ .unfinished) := by
  intro t r
  have hcalls : t.calls setup = callsOf (d.machine.answers n) := by
    unfold Turn.calls
    rw [h]
    exact if_neg (by rw [show t.before.done = false from hdone]; exact Bool.false_ne_true)
  have hown : t.own setup = r.output := by
    simp only [r, Turn.own, hcalls, run_observed]
    exact (afterSteps_callsOf setup.watch d.machine n).2.2
  refine ⟨hcalls, hown, ?_⟩
  rcases turn_cases setup d line with ⟨hnone, -, -⟩ | ⟨c, hsome, -, hafter⟩
  · simp [Turn.asked?, hnone] at h
  · unfold Turn.asked? at h
    rw [hsome, Option.bind_some] at h
    rw [perform_asked h, advance_eq hdone] at hafter
    simp [t, hafter, r]

/-- What a line writes is what the program writes and then the debugger's own text. -/
theorem turn_text (line : Bytes) :
    (d.turn setup line).text =
      (d.turn setup line).own setup ++ (d.turn setup line).remark setup := by
  rcases turn_cases setup d line with ⟨hnone, htext, -⟩ | ⟨c, hsome, htext, hafter⟩
  · have hasked : (d.turn setup line).asked? setup = none := by rw [Turn.asked?, hnone]; rfl
    rw [htext, (turn_of_asked?_eq_none hasked).2.1, Turn.remark, hnone, List.append_nil]
  · rw [htext, Turn.remark, hsome]
    dsimp only
    cases hasked : c.asked? setup with
    | none =>
      have hnone : (d.turn setup line).asked? setup = none := by
        rw [Turn.asked?, hsome, Option.bind_some, hasked]
      rw [(turn_of_asked?_eq_none hnone).2.1]
      rfl
    | some n =>
      have hsteps : (d.turn setup line).asked? setup = some n := by
        rw [Turn.asked?, hsome, Option.bind_some, hasked]
      rw [perform_asked hasked, advance_text]
      cases hdone : d.done with
      | true =>
        rw [(turn_of_done setup line hdone).2.1]
        simp [turn, hdone]
      | false =>
        obtain ⟨hcalls, hown, hmachine, -, -⟩ := turn_of_asked? hdone hsteps
        rw [hown, hcalls, hmachine, endingOf_callsOf, ← run_ending setup.watch]
        simp [turn, hdone]

/-! ## Sessions -/

/-- A session comes to a run: it calls these steps, and the machine, the program's output and the
error are those of the run. -/
structure ComesTo (setup : Setup) (d : Debugger) (lines : List Bytes) (calls : List StepResult)
    (r : Run) : Prop where
  calls : (d.turns setup lines).flatMap (·.calls setup) = calls
  own : (d.turns setup lines).flatMap (·.own setup) = r.output
  machine : (d.afterLines setup lines).machine = r.machine
  error : (d.afterLines setup lines).error = r.ending.error?.or d.error

theorem ComesTo.cons {line : Bytes} {lines : List Bytes} {calls : List StepResult} {r : Run}
    (h : (d.turn setup line).after.ComesTo setup lines calls r) (ending : Ending)
    (herror : r.ending.error?.or (d.turn setup line).after.error = ending.error?.or d.error) :
    d.ComesTo setup (line :: lines) ((d.turn setup line).calls setup ++ calls)
      ⟨ending, (d.turn setup line).own setup ++ r.output, r.machine⟩ where
  calls := by rw [turns, List.flatMap_cons, h.calls]
  own := by rw [turns, List.flatMap_cons, h.own]
  machine := h.machine
  error := h.error.trans herror

/-- Once the debugger is done, no line touches the program. -/
theorem comesTo_of_done (setup : Setup) (h : d.done) (lines : List Bytes) :
    d.ComesTo setup lines [] ⟨.unfinished, [], d.machine⟩ ∧ (d.afterLines setup lines).done := by
  induction lines generalizing d with
  | nil => exact ⟨⟨rfl, rfl, rfl, rfl⟩, h⟩
  | cons line lines ih =>
    obtain ⟨hcalls, hown, hmachine, herror, hdone⟩ := turn_of_done setup line h
    obtain ⟨hrest, hlast⟩ := ih hdone
    refine ⟨?_, hlast⟩
    have hsession := hrest.cons .unfinished (by rw [herror])
    rw [hcalls, hown, hmachine] at hsession
    exact hsession

theorem commands_cons (setup : Setup) (d : Debugger) (line : Bytes) (lines : List Bytes) :
    commands d.last (line :: lines) =
      (d.turn setup line).command :: commands (d.turn setup line).after.last lines := by
  rw [last_turn]
  rfl

theorem requested_cons {c : Option Command} (h : c ≠ some .quit) (cs : List (Option Command)) :
    requested setup (c :: cs) = (c.bind (·.asked? setup)).getD 0 + requested setup cs := by
  cases c with
  | none => rfl
  | some c => cases c <;> first | rfl | exact absurd rfl h

/-- The lines of a session come to one run of as many steps as they ask for. -/
def IsOneRun (setup : Setup) (d : Debugger) (lines : List Bytes) : Prop :=
  let cs := commands d.last lines
  let r := d.machine.run setup.watch (requested setup cs)
  d.ComesTo setup lines (callsOf (d.machine.answers (requested setup cs))) r ∧
    ((d.afterLines setup lines).done ↔ some .quit ∈ cs ∨ r.ending ≠ .unfinished)

/-- A `quit` asks for no more steps. -/
theorem isOneRun_of_quit {line : Bytes} (h : d.done = false)
    (hquit : (d.turn setup line).command = some .quit) (lines : List Bytes) :
    d.IsOneRun setup (line :: lines) := by
  have hasked : (d.turn setup line).asked? setup = none := by rw [Turn.asked?, hquit]; rfl
  obtain ⟨hcalls, hown, hmachine, herror, hdone⟩ := turn_of_asked?_eq_none hasked
  rw [hquit, h] at hdone
  obtain ⟨hrest, hlast⟩ := comesTo_of_done setup hdone lines
  have hsession := hrest.cons .unfinished (by rw [herror])
  rw [hcalls, hown, hmachine] at hsession
  unfold IsOneRun
  dsimp only
  rw [commands_cons setup d, hquit, requested]
  exact ⟨hsession, fun _ => Or.inl List.mem_cons_self, fun _ => hlast⟩

/-- A line that asks for no steps adds nothing to the run. -/
theorem isOneRun_of_asked?_eq_none {line : Bytes} {lines : List Bytes}
    (hquit : (d.turn setup line).command ≠ some .quit)
    (hasked : (d.turn setup line).asked? setup = none)
    (hrest : (d.turn setup line).after.IsOneRun setup lines) :
    d.IsOneRun setup (line :: lines) := by
  obtain ⟨hcalls, hown, hmachine, herror, -⟩ := turn_of_asked?_eq_none hasked
  obtain ⟨hrest, hlast⟩ := hrest
  have hsession := hrest.cons _ (by rw [herror])
  rw [hcalls, hown, hmachine] at hsession
  rw [hmachine] at hlast
  unfold Turn.asked? at hasked
  unfold IsOneRun
  dsimp only
  rw [commands_cons setup d, requested_cons hquit, hasked, Option.getD_none, Nat.zero_add]
  refine ⟨hsession, ?_⟩
  have hne : ¬ some Command.quit = (d.turn setup line).command := fun heq => hquit heq.symm
  simp only [List.mem_cons, hne, false_or]
  exact hlast

/-- A line that asks for steps adds them to the run, unless the program ends on the way. -/
theorem isOneRun_of_asked? {line : Bytes} {lines : List Bytes} {n : Nat} (h : d.done = false)
    (hasked : (d.turn setup line).asked? setup = some n)
    (hrest : (d.turn setup line).after.done = false →
      (d.turn setup line).after.IsOneRun setup lines) : d.IsOneRun setup (line :: lines) := by
  obtain ⟨hcalls, hown, hmachine, herror, hdone⟩ := turn_of_asked? h hasked
  have hquit : (d.turn setup line).command ≠ some .quit := by
    intro hquit
    rw [Turn.asked?, hquit] at hasked
    cases hasked
  have hne : ¬ some Command.quit = (d.turn setup line).command := fun heq => hquit heq.symm
  unfold Turn.asked? at hasked
  unfold IsOneRun
  dsimp only
  rw [commands_cons setup d, requested_cons hquit, hasked, Option.getD_some]
  by_cases hend : (d.machine.run setup.watch n).ending = .unfinished
  · have hgo : (d.turn setup line).after.done = false := by simpa [hend] using hdone
    obtain ⟨hrest, hlast⟩ := hrest hgo
    have hsession := hrest.cons _ (by rw [herror, hend]; rfl)
    have hran := hend
    rw [run_ending, endingOf_eq_unfinished_iff] at hran
    have hall : callsOf (d.machine.answers n) = d.machine.answers n := by
      have := callsOf_append_of_ran hran []
      simpa [callsOf] using this
    have hafter : (d.turn setup line).after.machine = d.machine.afterSteps n := by
      rw [hmachine, run_observed]
    rw [hcalls, hown, hafter, hall] at hsession
    rw [hafter] at hlast
    rw [answers_add, callsOf_append_of_ran hran, run_add_of_unfinished hend]
    refine ⟨hsession, ?_⟩
    simp only [List.mem_cons, hne, false_or]
    exact hlast
  · have hstop : (d.turn setup line).after.done = true := by simpa [hend] using hdone
    obtain ⟨hrest, hlast⟩ := comesTo_of_done setup hstop lines
    have hsession := hrest.cons _ (by rw [herror]; rfl)
    rw [hcalls, hown, hmachine, List.append_nil, List.append_nil] at hsession
    have hended := hend
    rw [run_ending] at hended
    rw [answers_add, (callsOf_append_of_ended hended _).1, run_add_of_ended hend]
    exact ⟨hsession, fun _ => Or.inr hend, fun _ => hlast⟩

theorem isOneRun (setup : Setup) (h : d.done = false) (lines : List Bytes) :
    d.IsOneRun setup lines := by
  induction lines generalizing d with
  | nil =>
    refine ⟨⟨rfl, rfl, rfl, rfl⟩, ?_⟩
    simp [afterLines, h, commands, requested, run_observed, answers, endingOf]
  | cons line lines ih =>
    cases hasked : (d.turn setup line).asked? setup with
    | some n => exact isOneRun_of_asked? h hasked fun hgo => ih hgo
    | none =>
      by_cases hquit : (d.turn setup line).command = some .quit
      · exact isOneRun_of_quit h hquit lines
      · apply isOneRun_of_asked?_eq_none hquit hasked
        apply ih
        rw [(turn_of_asked?_eq_none hasked).2.2.2.2, h]
        simpa using hquit

/-! ## The whole program -/

theorem exists_turn_of_mem {lines : List Bytes} {t : Turn} (h : t ∈ d.turns setup lines) :
    ∃ e : Debugger, ∃ line, t = e.turn setup line := by
  induction lines generalizing d with
  | nil => cases h
  | cons line lines ih =>
    rcases List.mem_cons.mp h with rfl | h
    · exact ⟨d, line, rfl⟩
    · exact ih h

theorem map_command_turns (d : Debugger) (lines : List Bytes) :
    (d.turns setup lines).map (·.command) = commands d.last lines := by
  induction lines generalizing d with
  | nil => rfl
  | cons line lines ih => rw [turns, List.map_cons, ih, commands_cons setup d]

/-- The machine after a line is the one that its steps leave. -/
theorem machine_turn (line : Bytes) :
    (d.turn setup line).after.machine =
      d.machine.afterSteps ((d.turn setup line).calls setup).length := by
  cases hdone : d.done with
  | true =>
    obtain ⟨hcalls, -, hmachine, -⟩ := turn_of_done setup line hdone
    rw [hcalls, hmachine]
    rfl
  | false =>
    cases hasked : (d.turn setup line).asked? setup with
    | none =>
      obtain ⟨hcalls, -, hmachine, -⟩ := turn_of_asked?_eq_none hasked
      rw [hcalls, hmachine]
      rfl
    | some n =>
      obtain ⟨hcalls, -, hmachine, -⟩ := turn_of_asked? hdone hasked
      rw [hcalls, hmachine, run_observed, (afterSteps_callsOf setup.watch d.machine n).2.1]

/-- A `continue` in front of every `quit` asks for all steps that it may take. -/
theorem budget_le_requested {cs : List (Option Command)}
    (h : some .proceed ∈ cs.takeWhile (· ≠ some .quit)) : setup.budget ≤ requested setup cs := by
  induction cs with
  | nil => cases h
  | cons c cs ih =>
    by_cases hquit : c = some .quit
    · simp [hquit] at h
    · rw [List.takeWhile_cons_of_pos (by simpa using hquit), List.mem_cons] at h
      rw [requested_cons hquit]
      rcases h with rfl | h
      · exact Nat.le_add_right _ _
      · exact Nat.le_trans (ih h) (Nat.le_add_left _ _)

/-- Whatever lines a debugger is given, the steps that it calls are those of one run of at most as
many steps as the lines ask for up to the first `quit`, none of them behind a step that ends the
program, and the machine is the one that they leave. A line that asks for no steps touches neither
the machine nor the program's output. If a line continues the program before any `quit`, and the
program ends on its own, then machine, output and error are those of the program on its own. -/
theorem a_debugged_program_runs_as_on_its_own (setup : Setup) (m : Machine) (lines : List Bytes) :
    let cs := commands [] lines
    let turns := (new m).turns setup lines
    let last := (new m).afterLines setup lines
    let asked := requested setup cs
    let calls := turns.flatMap (·.calls setup)
    turns.map (·.command) = cs ∧
    (∀ t ∈ turns, t.text = t.own setup ++ t.remark setup ∧
      t.after.machine = t.before.machine.afterSteps (t.calls setup).length ∧
      (t.asked? setup = none →
        t.after.machine = t.before.machine ∧ t.calls setup = [] ∧ t.own setup = [])) ∧
    calls = callsOf (m.answers asked) ∧ calls = m.answers calls.length ∧
    (∀ a ∈ calls.dropLast, ∃ output, a = .ran output) ∧ last.machine = m.afterSteps calls.length ∧
    (last.done ↔ some .quit ∈ cs ∨ (m.run setup.watch asked).ending ≠ .unfinished) ∧
    ∀ k ≤ setup.budget, (m.run setup.watch k).ending ≠ .unfinished →
      some .proceed ∈ cs.takeWhile (· ≠ some .quit) →
      let whole := m.run setup.watch k
      last.machine = whole.machine ∧ turns.flatMap (·.own setup) = whole.output ∧
        last.error = whole.ending.error? := by
  intro cs turns last asked calls
  obtain ⟨hsession, hdone⟩ := isOneRun (d := new m) setup rfl lines
  have hcalls : calls = callsOf (m.answers asked) := hsession.calls
  have hrun := afterSteps_callsOf setup.watch m asked
  rw [← hcalls] at hrun
  obtain ⟨hanswers, hafter, -⟩ := hrun
  refine ⟨map_command_turns (new m) lines, ?_, hcalls, hanswers.symm, ?_, ?_, hdone, ?_⟩
  · intro t ht
    obtain ⟨e, line, rfl⟩ := exists_turn_of_mem ht
    refine ⟨turn_text line, machine_turn line, ?_⟩
    intro hasked
    obtain ⟨hnone, hown, hmachine, -⟩ := turn_of_asked?_eq_none hasked
    exact ⟨hmachine, hnone, hown⟩
  · rw [hcalls]
    exact ran_of_mem_dropLast_callsOf _
  · rw [hafter]
    exact hsession.machine.trans (by rw [run_observed]; rfl)
  · intro k hk hend hproceed whole
    -- the lines ask for more steps than the program takes
    have hle := Nat.le_trans hk (budget_le_requested hproceed)
    have hwhole : m.run setup.watch asked = whole := by
      obtain ⟨more, hmore⟩ := Nat.exists_eq_add_of_le hle
      simp only [asked, hmore]
      exact run_add_of_ended hend more
    have hall : (new m).ComesTo setup lines calls whole := by
      rw [hcalls, ← hwhole]
      exact hsession
    exact ⟨hall.machine, hall.own, hall.error.trans (by simp [new])⟩

/-- A program that adds 3 and 4, prints the sum and stops is stepped, looked at, stepped again by a
blank line, continued and asked for more steps. It prints 7 as on its own. -/
theorem a_debugged_sum_is_printed_as_on_its_own :
    let setup : Setup := ⟨⟨false⟩, .silent, 9⟩
    let m := Machine.new [0, 3, 0, 4, 1, 22, 25] 8 0 []
    let lines : List Bytes :=
      [[], "step", [32], "regs", "step 0", "go", "C", "s", "quit"]
    let last := (new m).afterLines setup lines
    last.machine = (m.run .silent 9).machine ∧
      ((new m).turns setup lines).flatMap (·.own setup) = [55, 32] ∧ last.error = none := by
  intro setup m lines last
  have hrun : (m.run .silent 9).ending = .stopped ∧ (m.run .silent 9).output = [55, 32] := by
    decide +kernel
  have hproceed : some .proceed ∈ (commands [] lines).takeWhile (· ≠ some .quit) := by
    decide +kernel
  obtain ⟨-, -, -, -, -, -, -, hwhole⟩ := a_debugged_program_runs_as_on_its_own setup m lines
  obtain ⟨hmachine, hown, herror⟩ := hwhole 9 (Nat.le_refl 9) (by rw [hrun.1]; simp) hproceed
  rw [hrun.2] at hown
  rw [hrun.1] at herror
  exact ⟨hmachine, hown, herror⟩

end Debugger

end TagMachine
