import TagMachine.Number.Numeral
import TagMachine.Token.Lexer

/-!
Programs as numeric text: 32-bit integers separated by whitespace and comments.
-/

namespace TagMachine

/-- A program: opcode and operand words in order. -/
abbrev Program := List Int32

namespace Program

/-- The first token that is no program word. -/
inductive SyntaxError where
  /-- A number, but not a 32-bit integer. -/
  | notInt32 (lexeme : Bytes) (pos : Position)
  /-- Not a number at all. -/
  | notNumber (lexeme : Bytes) (pos : Position)
  deriving DecidableEq, Repr

/-- The error in words. -/
def SyntaxError.message : SyntaxError → Bytes
  | .notInt32 lexeme pos =>
    Bytes.cat ["invalid program word ", Quoted.write lexeme, " at ", pos.text,
      ": not a 32-bit integer"]
  | .notNumber lexeme pos =>
    Bytes.cat ["invalid program word ", Quoted.write lexeme, " at ", pos.text]

/-- The program word of a token. -/
def ofToken (t : Token) : Except SyntaxError Int32 :=
  if t.kind = .number then
    match Numeral.readInt32 t.lexeme with
    | .ok w => .ok w
    | .error _ => .error (.notInt32 t.lexeme t.pos)
  else .error (.notNumber t.lexeme t.pos)

/-- Reads a program. Whether its words are instructions is not asked. -/
def parse (source : Bytes) : Except SyntaxError Program :=
  (Token.ofText source).dropLast.mapM ofToken

/-- Writes a program, one word a line. -/
def text (p : Program) : Bytes := p.flatMap fun w => Bytes.int w.toInt ++ [10]

end Program

end TagMachine
