import TagMachine.Assembly.Item
import TagMachine.Number.Decimal

/-!
Statements of a source. A statement is a label definition, an instruction with its operands, or a
word written as a number. An operand that is missing is taken as zero and leaves its token for the
next statement; one that is wrong is taken as the nearest word.
-/

namespace TagMachine.Assembly

/-- What a source is read as: items in order, and what is wrong with it. -/
structure Reading where
  items : List Item
  problems : List Problem
  deriving DecidableEq, Repr

namespace Reading

/-- Nothing. -/
def empty : Reading := ⟨[], []⟩

/-- One reading after the other. -/
def append (a b : Reading) : Reading := ⟨a.items ++ b.items, a.problems ++ b.problems⟩

/-- A single item and nothing wrong. -/
def item (i : Item) : Reading := ⟨[i], []⟩

/-- A word in place of something wrong. -/
def instead (w : Int32) (p : Problem) : Reading := ⟨[.word w], [p]⟩

end Reading

/-- The word nearest to a number in text, and whether it is exactly that number. -/
def nearestInt (lexeme : Bytes) : Int32 × Bool :=
  match Numeral.readInt32 lexeme with
  | .ok n => (n, true)
  | .error (.outOfRange n) => (n, false)
  | .error .malformed => (0, false)

/-- The bits of the floating-point number nearest to a number in text, and whether it is finite. -/
def nearestFloat (lexeme : Bytes) : Int32 × Bool :=
  match Decimal.readBinary32 lexeme with
  | .ok x => (x.bits.toInt32, true)
  | .error (.outOfRange x) => (x.bits.toInt32, false)
  | .error .malformed => (0, false)

/-- The code of the first character of a literal, and whether it is the only one. -/
def firstChar (literal : Bytes) : Int32 × Bool :=
  match Utf8.first? literal with
  | some (c, rest) => (Int32.ofNat c.toNat, rest.isEmpty)
  | none => (Int32.ofNat Utf8.replacement.toNat, false)

/-- A word that may stand for something wrong. -/
def wordOr (w : Int32 × Bool) (p : Problem) : Reading :=
  if w.2 then .item (.word w.1) else .instead w.1 p

/-- Reads the operand `kind` of `op` off the tokens; `stop` is where the source ends. -/
def operand (stop : Position) (op : Opcode) (kind : Opcode.Operand) :
    List Token → Reading × List Token
  | [] => (.instead 0 (.missingOperand op stop), [])
  | t :: rest =>
    match t.kind, kind with
    | .name, .target =>
      if (Opcode.ofName? t.lexeme).isSome then (.instead 0 (.missingOperand op t.pos), t :: rest)
      else (.item (.reference t.lexeme t.pos), rest)
    | .string, .char => (wordOr (firstChar t.literal) (.notOneChar op t.lexeme t.pos), rest)
    | .number, .float => (wordOr (nearestFloat t.lexeme) (.notFloat op t.lexeme t.pos), rest)
    | .number, _ => (wordOr (nearestInt t.lexeme) (.notInteger op t.lexeme t.pos), rest)
    | _, _ => (.instead 0 (.missingOperand op t.pos), t :: rest)

/-- Reads operands one after another. -/
def operandList (stop : Position) (op : Opcode) :
    List Opcode.Operand → List Token → Reading × List Token
  | [], ts => (.empty, ts)
  | kind :: kinds, ts =>
    let (first, ts) := operand stop op kind ts
    let (others, ts) := operandList stop op kinds ts
    (first.append others, ts)

/-- Reads the instruction named by `t`, whose operands follow. -/
def instruction (stop : Position) (t : Token) (rest : List Token) : Reading × List Token :=
  match Opcode.ofName? t.lexeme with
  | none => (⟨[], [.unknownInstruction t.lexeme t.pos]⟩, rest)
  | some op =>
    let (others, rest) := operandList stop op op.operands rest
    ((Reading.item (.word op.word)).append others, rest)

/-- Reads the statement that starts with `t`. -/
def statement (stop : Position) (t : Token) (rest : List Token) : Reading × List Token :=
  match t.kind with
  | .number =>
    match Numeral.readInt32 t.lexeme with
    | .ok w => (.item (.word w), rest)
    | .error _ => (⟨[], [.notWord t.lexeme t.pos]⟩, rest)
  | .name =>
    match rest with
    | next :: others =>
      if next.kind == .colon then (.item (.label t.lexeme t.pos), others)
      else instruction stop t rest
    | [] => instruction stop t rest
  | _ => (⟨[], [.unexpected t.lexeme t.pos]⟩, rest)

/-! ## Reading takes tokens, never adds any -/

theorem length_operand_le (stop : Position) (op : Opcode) (kind : Opcode.Operand)
    (ts : List Token) : (operand stop op kind ts).2.length ≤ ts.length := by
  unfold operand
  repeat' split
  all_goals simp

theorem length_operandList_le (stop : Position) (op : Opcode) (kinds : List Opcode.Operand)
    (ts : List Token) : (operandList stop op kinds ts).2.length ≤ ts.length := by
  induction kinds generalizing ts with
  | nil => simp [operandList]
  | cons kind kinds ih =>
    simp only [operandList]
    exact Nat.le_trans (ih _) (length_operand_le stop op kind ts)

theorem length_instruction_le (stop : Position) (t : Token) (rest : List Token) :
    (instruction stop t rest).2.length ≤ rest.length := by
  unfold instruction
  split
  · simp
  · exact length_operandList_le ..

theorem length_statement_le (stop : Position) (t : Token) (rest : List Token) :
    (statement stop t rest).2.length ≤ rest.length := by
  unfold statement
  split
  · split <;> simp
  · split
    · split
      · simp
      · exact length_instruction_le ..
    · exact length_instruction_le ..
  · simp

/-- Reads statements up to the end. -/
def statements (stop : Position) : List Token → Reading
  | [] => .empty
  | t :: rest => (statement stop t rest).1.append (statements stop (statement stop t rest).2)
termination_by ts => ts.length
decreasing_by
  have := length_statement_le stop t rest
  simp
  omega

end TagMachine.Assembly
