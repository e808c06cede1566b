import TagMachine.Display.Listing
import TagMachine.Machine.Run

/-!
Machine states in text: the live stack and the instruction about to be carried out.
-/

namespace TagMachine.Trace

/-- The live slots, from the bottom up. -/
def stack (m : Machine) : Bytes :=
  Bytes.cat ["[ ", m.live.flatMap (fun v => v.text ++ [32]), "]"]

/-- The instruction that a machine is about to carry out. -/
def instruction (m : Machine) : Bytes := Listing.instructionAt m.code.toList m.pc

/-- The stack and the next instruction. -/
def line (m : Machine) : Bytes :=
  Bytes.cat [stack m, "\x7b", Bytes.int m.pc, ": ", instruction m, "\x7d"]

/-- A trace line in colours. -/
def paintedLine (palette : Palette) (m : Machine) : Bytes :=
  Bytes.cat [palette.paint .gray (stack m),
    palette.paint .cyan (Bytes.cat ["\x7b", Bytes.int m.pc, ": "]),
    palette.paint .yellow (instruction m), palette.paint .cyan "\x7d", [10]]

/-- The observer that writes a trace line before each instruction. -/
def observer (palette : Palette) : Observer := paintedLine palette

end TagMachine.Trace
