import TagMachine.Machine.Basic

/-!
Calls. A frame starts with the return address and the saved base pointer, and its arguments follow:
`bp` points at the first of them.
-/

namespace TagMachine.Machine

/-- Copies slot `source` over slot `target`. -/
def copySlot (a : Array Value) (source target : Nat) : Array Value :=
  match a[source]? with
  | some v => a.setIfInBounds target v
  | none => a

/-- Moves the `n` slots up to `top` two slots up, the highest first. -/
def moveUp (a : Array Value) (top n : Nat) : Array Value :=
  (List.range n).foldl (fun a k => copySlot a (top - k) (top - k + 2)) a

/-- Moves the `n` slots up to `top` down by `distance`, the lowest first. -/
def moveDown (a : Array Value) (top n distance : Nat) : Array Value :=
  (List.range n).reverse.foldl (fun a k => copySlot a (top - k) (top - k - distance)) a

/-- CALL: the arguments on top of the stack move up to make room for the return address and the
saved base pointer. -/
def call : Exec Unit := do
  let n := (← fetch).toInt
  let target := (← fetch).toInt
  let m ← get
  if n < 0 ∨ m.sp - n + 1 < 0 then throw (.callArguments n (m.sp + 1))
  if m.capacity ≤ m.sp + 2 then throw (.callOverflow (m.sp + 2) m.capacity)
  let first := (m.sp - n + 1).toNat
  let slots := moveUp m.slots m.sp.toNat n.toNat
  let slots := slots.setIfInBounds first (.int (Int32.ofInt m.pc))
  let slots := slots.setIfInBounds (first + 1) (.int (Int32.ofInt m.bp))
  set { m with slots, sp := m.sp + 2, bp := m.sp + 3 - n, pc := target }

/-- TCALL: the new arguments move down over the dead slots of the frame, which is used again. -/
def tailCall : Exec Unit := do
  let n := (← fetch).toInt
  let p := (← fetch).toInt
  let target := (← fetch).toInt
  let m ← get
  if n < 0 ∨ p < 0 ∨ m.sp - n + 1 - p < 0 ∨ m.capacity ≤ m.sp then throw (.tailCall n p m.sp)
  set
    { m with
      slots := moveDown m.slots m.sp.toNat n.toNat p.toNat
      sp := m.sp - p
      pc := target }

/-- RET: the result takes the place of the frame header, whose contents go back to `bp` and `pc`. -/
def ret : Exec Unit := do
  let k ← fetch
  let result ← top
  let sp := (← get).sp
  let base := sp - k.toInt - 2
  if k < 0 ∨ base < 0 then throw (.returnDepth k sp)
  let bp ← getInt (base + 1) .savedBase
  let pc ← getInt base .returnAddress
  modify fun m => { m.withSlot base result with sp := base, bp, pc }

end TagMachine.Machine
