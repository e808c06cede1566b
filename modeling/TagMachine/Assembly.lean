import TagMachine.Assembly.Statement
import TagMachine.Token.Lexer

/-!
Assembling a source into program words.
-/

namespace TagMachine.Assembly

/-- Reads a source. The end token only tells where the source ends. -/
def read (source : Bytes) : Reading :=
  let tokens := Token.ofText source
  statements (tokens.getLast?.elim .start (·.pos)) tokens.dropLast

/-- Everything wrong with a source: its statements in order, then its labels. -/
def Reading.allProblems (r : Reading) : List Problem := r.problems ++ labelProblems r.items

/-- The program words of a source, or everything wrong with it. -/
def assemble (source : Bytes) : Except (List Problem) (List Int32) :=
  let r := read source
  if r.allProblems.isEmpty then .ok (fix r.items) else .error r.allProblems

/-- The report on a source that does not assemble. -/
def failureMessage (problems : List Problem) : Bytes :=
  match problems with
  | [p] => "assembly failed: " ++ p.message
  | ps =>
    Bytes.cat ["assembly failed with ", Bytes.nat ps.length, " errors: ",
      Bytes.join "; " (ps.map Problem.message)]

end TagMachine.Assembly
