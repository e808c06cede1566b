import TagMachine.Value

/-!
Binary operators. Two ints are computed with as 32-bit integers that wrap around; with a float on
either side both are taken as floats.
-/

namespace TagMachine

/-- The binary operators. -/
inductive Operator where
  | add
  | sub
  | mul
  | div
  | mod
  | eq
  | lt
  deriving DecidableEq, Repr

namespace Operator

/-- The mnemonic of an operator. -/
def name : Operator → Bytes
  | .add => "ADD"
  | .sub => "SUB"
  | .mul => "MUL"
  | .div => "DIV"
  | .mod => "MOD"
  | .eq => "EQ"
  | .lt => "LT"

/-- Why an operator has no result. -/
inductive Failure where
  | leftNotNumeric (op : Operator) (kind : Kind)
  | rightNotNumeric (op : Operator) (kind : Kind)
  | intDivisionByZero
  | intModuloByZero
  | floatDivisionByZero
  | floatModulo
  deriving DecidableEq, Repr

/-- The operator on ints. Division goes toward zero, and the remainder has the sign of the left
operand. -/
def applyInt (op : Operator) (a b : Int32) : Except Failure Value :=
  match op with
  | .add => .ok (.int (a + b))
  | .sub => .ok (.int (a - b))
  | .mul => .ok (.int (a * b))
  | .div => if b = 0 then .error .intDivisionByZero else .ok (.int (a / b))
  | .mod => if b = 0 then .error .intModuloByZero else .ok (.int (a % b))
  | .eq => .ok (.ofBool (a == b))
  | .lt => .ok (.ofBool (a < b))

/-- The operator on floats. -/
def applyFloat (op : Operator) (a b : Binary32) : Except Failure Value :=
  match op with
  | .add => .ok (.float (a.add b))
  | .sub => .ok (.float (a.sub b))
  | .mul => .ok (.float (a.mul b))
  | .div => if b.isZero then .error .floatDivisionByZero else .ok (.float (a.div b))
  | .mod => .error .floatModulo
  | .eq => .ok (.ofBool (a.eq b))
  | .lt => .ok (.ofBool (a.lt b))

/-- The operator on values. -/
def apply (op : Operator) : Value → Value → Except Failure Value
  | .int a, .int b => op.applyInt a b
  | .int a, .float b => op.applyFloat (.ofInt a.toInt) b
  | .float a, .int b => op.applyFloat a (.ofInt b.toInt)
  | .float a, .float b => op.applyFloat a b
  | l, r =>
    if l.isNumeric then .error (.rightNotNumeric op r.kind)
    else .error (.leftNotNumeric op l.kind)

end Operator

end TagMachine
