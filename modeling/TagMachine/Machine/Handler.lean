import TagMachine.Machine.Basic

/-!
Handlers for integer division by zero. A handler record takes three slots: a tag, the address to go
on at, and the record before it. The link of a record points further down the stack, so a search
along the links ends.
-/

namespace TagMachine.Machine

/-- The tag of a record that takes a division by zero. -/
def divisionTag : Int := 1

/-- The link that ends the chain, as it is stored. -/
def noHandler : Int := -1

/-- A register's value as it is stored. -/
def linkValue : Option Nat → Value
  | some h => .int (Int32.ofNat h)
  | none => .int (Int32.ofInt noHandler)

/-- The record before the one at `h`, which lies below it. -/
def previous (m : Machine) (h : Nat) : Except Trap (Option (Fin h)) :=
  match m.intAt (h + 2) with
  | .error why => .error (.handlerRecord h why)
  | .ok p =>
    if p = noHandler then .ok none
    else if hp : 0 ≤ p ∧ p.toNat < h then .ok (some ⟨p.toNat, hp.2⟩)
    else .error (.handlerLink h p)

/-- What the search for a handler comes to. -/
inductive Search where
  /-- The record at `h` takes the division: the run goes on at `resume`. -/
  | found (h : Nat) (resume : Int) (before : Option Nat)
  /-- No record takes it. -/
  | nothing
  /-- The record at `h` cannot be read. -/
  | corrupt (h : Nat) (why : Trap)

/-- Reads the record at `h`, whose tag fits. -/
def resumeAt (m : Machine) (h : Nat) : Search :=
  match m.intAt (h + 1) with
  | .error why => .corrupt h (.handlerRecord h why)
  | .ok resume =>
    match m.previous h with
    | .error why => .corrupt h why
    | .ok before => .found h resume (before.map Fin.val)

/-- Looks along the links from the record at `h`. -/
def searchFrom (m : Machine) (h : Nat) : Search :=
  match m.intAt h with
  | .error why => .corrupt h (.handlerRecord h why)
  | .ok tag =>
    if tag = divisionTag then m.resumeAt h
    else
      match m.previous h with
      | .error why => .corrupt h why
      | .ok none => .nothing
      | .ok (some before) => searchFrom m before
termination_by h

/-- Looks for a handler. -/
def search (m : Machine) : Search :=
  match m.hr with
  | some h => m.searchFrom h
  | none => .nothing

/-- Gives an integer division by zero to the newest handler that takes it: the stack is cut below
its record and the run goes on at its address. `hr` follows the search. -/
def unwind : Exec Unit := do
  let m ← get
  match m.search with
  | .found h resume before => set { m with sp := h - 1, pc := resume, hr := before }
  | .nothing =>
    set { m with hr := none }
    throw .unhandledDivision
  | .corrupt h why =>
    set { m with hr := some h }
    throw why

/-- Pushes a handler record that goes on at `resume` and makes it the newest. -/
def installHandler (resume : Int32) : Exec Unit := do
  let before := (← get).hr
  push (.int (Int32.ofInt divisionTag))
  push (.int resume)
  push (linkValue before)
  modify fun m => { m with hr := some (m.sp - 2).toNat }

end TagMachine.Machine
