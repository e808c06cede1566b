import TagMachine.Text.Bytes

/-!
Terminal colours. Everything that paints takes whether colours are on; with colours off a text stays
as it is.
-/

namespace TagMachine

/-- The colours in use. -/
inductive Colour where
  | yellow
  | blue
  | cyan
  | gray
  | brightRed
  deriving DecidableEq, Repr

namespace Colour

/-- The number of a foreground colour in an escape sequence. -/
def code : Colour → Nat
  | yellow => 33
  | blue => 34
  | cyan => 36
  | gray => 90
  | brightRed => 91

end Colour

/-- Whether colours are on. -/
structure Palette where
  enabled : Bool
  deriving DecidableEq, Repr

namespace Palette

/-- A text in a colour: the colour's escape sequence, the text, and the sequence that ends it. -/
def paint (p : Palette) (c : Colour) (text : Bytes) : Bytes :=
  if p.enabled then Bytes.cat [[27, 91], Bytes.nat c.code, "m", text, [27, 91], "0m"] else text

/-- An error message. -/
def error (p : Palette) (message : Bytes) : Bytes := p.paint .brightRed "Error: " ++ message

/-- A warning. -/
def warning (p : Palette) (message : Bytes) : Bytes := p.paint .yellow "Warning: " ++ message

/-- A remark. -/
def info (p : Palette) (message : Bytes) : Bytes := p.paint .blue message

end Palette

end TagMachine
