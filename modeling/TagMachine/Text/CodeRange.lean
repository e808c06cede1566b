/-!
Sets of character codes given as closed ranges in increasing order.
-/

namespace TagMachine

/-- A closed range of character codes. -/
abbrev CodeRange := Nat × Nat

/-- `n` lies in one of the ranges. Ranges that start above `n` end the search. -/
def CodeRange.anyHolds : List CodeRange → Nat → Bool
  | [], _ => false
  | (lo, hi) :: rest, n => if n < lo then false else n ≤ hi || CodeRange.anyHolds rest n

end TagMachine
