import TagMachine.Proofs.CorrectRounding
import TagMachine.Proofs.WrittenDecimals

/-!
The statements of a source, said without a reader: which tokens spell a statement, and which
sequences of tokens are sequences of statements. A number that is to become a floating-point number
stands for a decimal, and the operand is the one nearest to it. The reader of sources finds nothing
wrong exactly with these, where the first five digits of an exponent count, and it finds the same
items in them.
-/

namespace TagMachine.Assembly

/-! ## The language -/

/-- An operand: a word, or a label that stands for its address. -/
inductive Argument where
  | word (w : Int32)
  | label (name : Bytes)
  deriving DecidableEq, Repr

/-- A statement of a source. -/
inductive Statement where
  | raw (w : Int32)
  | label (name : Bytes)
  | instruction (op : Opcode) (args : List Argument)
  deriving DecidableEq, Repr

/-- The letters of a name, in upper case, spell a mnemonic. -/
def IsMnemonic (lexeme : Bytes) (op : Opcode) : Prop := op.name = lexeme.map Bytes.upper

/-- A token writes an operand of a kind. The exponent of a floating-point number counts as much as
`count` says. -/
inductive Writes (count : Nat → Nat) : Opcode.Operand → Token → Argument → Prop
  | int {kind : Opcode.Operand} {t : Token} {w : Int32} : kind ≠ .float → t.kind = .number →
      Numeral.Denotes t.lexeme w.toInt → Writes count kind t (.word w)
  | label {t : Token} : t.kind = .name → (∀ op, ¬ IsMnemonic t.lexeme op) →
      Writes count .target t (.label t.lexeme)
  | float {t : Token} {v : Decimal} {x : Binary32} : t.kind = .number →
      Decimal.Written count t.lexeme v → ¬ Binary32.Overflows v.toRat → v.RoundsTo x →
      Writes count .float t (.word x.bits.toInt32)
  | char {t : Token} {c : Char} : t.kind = .string → Utf8.decode t.literal = [c] →
      Writes count .char t (.word (Int32.ofNat c.toNat))

/-- Tokens write operands, one each. -/
inductive WritesAll (count : Nat → Nat) :
    List Opcode.Operand → List Token → List Argument → Prop
  | nil : WritesAll count [] [] []
  | cons {kind : Opcode.Operand} {kinds : List Opcode.Operand} {t : Token} {ts : List Token}
      {a : Argument} {args : List Argument} : Writes count kind t a →
      WritesAll count kinds ts args → WritesAll count (kind :: kinds) (t :: ts) (a :: args)

/-- Tokens spell one statement. -/
inductive Spells (count : Nat → Nat) : List Token → Statement → Prop
  | raw {t : Token} {w : Int32} : t.kind = .number → Numeral.Denotes t.lexeme w.toInt →
      Spells count [t] (.raw w)
  | label {t colon : Token} : t.kind = .name → colon.kind = .colon →
      Spells count [t, colon] (.label t.lexeme)
  | instruction {t : Token} {op : Opcode} {ts : List Token} {args : List Argument} :
      t.kind = .name → IsMnemonic t.lexeme op → WritesAll count op.operands ts args →
      Spells count (t :: ts) (.instruction op args)

/-- Tokens spell statements, one after the other. -/
inductive Parses (count : Nat → Nat) : List Token → List Statement → Prop
  | nil : Parses count [] []
  | cons {ts rest : List Token} {s : Statement} {ss : List Statement} : Spells count ts s →
      Parses count rest ss → Parses count (ts ++ rest) (s :: ss)

open Decimal (leading)

variable {count : Nat → Nat}

/-! ## Items without their places -/

/-- An item as if it stood at the start of the source. -/
def Item.unplaced : Item → Item
  | .word w => .word w
  | .reference name _ => .reference name .start
  | .label name _ => .label name .start

/-- The item of an operand. -/
def Argument.item : Argument → Item
  | .word w => .word w
  | .label name => .reference name .start

/-- The items of a statement. -/
def Statement.items : Statement → List Item
  | .raw w => [.word w]
  | .label name => [.label name .start]
  | .instruction op args => .word op.word :: args.map Argument.item

/-- A reading with nothing wrong, whose items are those given apart from their places. -/
def Reading.Clean (r : Reading) (items : List Item) : Prop :=
  r.problems = [] ∧ r.items.map Item.unplaced = items

theorem Reading.Clean.append {a b : Reading} {as bs : List Item} (ha : a.Clean as)
    (hb : b.Clean bs) : (a.append b).Clean (as ++ bs) := by
  obtain ⟨hpa, rfl⟩ := ha
  obtain ⟨hpb, rfl⟩ := hb
  exact ⟨by simp [Reading.append, hpa, hpb], by simp [Reading.append]⟩

theorem Reading.append_problems_eq_nil {a b : Reading} :
    (a.append b).problems = [] ↔ a.problems = [] ∧ b.problems = [] := by
  simp [Reading.append]

/-! ## Operands -/

theorem nearestInt_iff {lexeme : Bytes} {w : Int32} :
    nearestInt lexeme = (w, true) ↔ Numeral.Denotes lexeme w.toInt := by
  rw [← Numeral.readInt32_ok_iff]
  unfold nearestInt
  rcases Numeral.readInt32 lexeme with (e | n)
  · cases e <;> simp
  · simp

/-- A number is rounded as the decimal that it stands for. -/
theorem nearestFloat_eq {lexeme : Bytes} {v : Decimal} (h : Decimal.Written leading lexeme v) :
    nearestFloat lexeme = (v.toBinary32.bits.toInt32, !v.toBinary32.isInfinite) := by
  unfold nearestFloat Decimal.readBinary32
  rw [h.read?]
  by_cases hinfinite : v.toBinary32.isInfinite <;> simp [hinfinite]

theorem nearestFloat_iff {lexeme : Bytes} {v : Decimal} (h : Decimal.Written leading lexeme v)
    {w : Int32} :
    nearestFloat lexeme = (w, true) ↔
      ∃ x, ¬ Binary32.Overflows v.toRat ∧ v.RoundsTo x ∧ w = x.bits.toInt32 := by
  rw [nearestFloat_eq h, Prod.mk.injEq, Bool.not_eq_true', ← Bool.not_eq_true,
    ← v.isInfinite_toBinary32]
  constructor
  · rintro ⟨rfl, hfinite⟩
    exact ⟨_, hfinite, Decimal.roundsTo_toBinary32 hfinite, rfl⟩
  · rintro ⟨x, hfinite, hx, rfl⟩
    refine ⟨?_, hfinite⟩
    rw [(Decimal.roundsTo_toBinary32 hfinite).unique hx]

/-- A number is an operand unless it becomes infinite. -/
theorem Writes.of_written {t : Token} {v : Decimal} (hkind : t.kind = .number)
    (hwritten : Decimal.Written count t.lexeme v) (hfits : ¬ v.toBinary32.isInfinite) :
    Writes count .float t (.word v.toBinary32.bits.toInt32) := by
  refine .float hkind hwritten ?_ (Decimal.roundsTo_toBinary32 hfits)
  rw [← v.isInfinite_toBinary32]
  exact hfits

theorem decode_eq_nil_iff (b : Bytes) : Utf8.decode b = [] ↔ b = [] := by
  rw [Utf8.decode]
  split
  · next hfirst => cases b <;> simp [Utf8.first?] at hfirst ⊢
  · next hfirst => cases b <;> simp [Utf8.first?] at hfirst ⊢

theorem decode_eq_singleton_iff {literal : Bytes} {c : Char} :
    Utf8.decode literal = [c] ↔ Utf8.first? literal = some (c, []) := by
  rw [Utf8.decode]
  split
  · next hfirst => simp [hfirst]
  · next x rest hfirst => simp [hfirst, decode_eq_nil_iff]

theorem firstChar_iff {literal : Bytes} {w : Int32} :
    firstChar literal = (w, true) ↔ ∃ c, Utf8.decode literal = [c] ∧ w = Int32.ofNat c.toNat := by
  simp only [decode_eq_singleton_iff]
  unfold firstChar
  cases hfirst : Utf8.first? literal with
  | none => simp
  | some p =>
    obtain ⟨x, rest⟩ := p
    simp only [Prod.mk.injEq, List.isEmpty_iff, Option.some.injEq]
    constructor
    · rintro ⟨rfl, rfl⟩
      exact ⟨x, ⟨rfl, rfl⟩, rfl⟩
    · rintro ⟨c, ⟨rfl, rfl⟩, rfl⟩
      exact ⟨rfl, rfl⟩

theorem clean_wordOr {w : Int32 × Bool} (p : Problem) (h : w.2 = true) :
    (wordOr w p).Clean [.word w.1] := by
  rw [wordOr, if_pos h]
  exact ⟨rfl, rfl⟩

theorem wordOr_problems_eq_nil {w : Int32 × Bool} {p : Problem} (h : (wordOr w p).problems = []) :
    w.2 = true := by
  unfold wordOr at h
  split at h
  · assumption
  · cases h

/-- An operand that is written is read. -/
theorem operand_of_writes (stop : Position) (op : Opcode) {kind : Opcode.Operand} {t : Token}
    {a : Argument} (ht : t.Lexed) (h : Writes leading kind t a) (rest : List Token) :
    ∃ r : Reading, operand stop op kind (t :: rest) = (r, rest) ∧ r.Clean [a.item] := by
  unfold operand
  dsimp only
  cases h with
  | @int kind t w hkind hnum hden =>
    have hnear := nearestInt_iff.mpr hden
    rw [hnum]
    cases kind with
    | float => exact absurd rfl hkind
    | number | target | char =>
      refine ⟨_, rfl, ?_⟩
      have := clean_wordOr (w := nearestInt t.lexeme) (.notInteger op t.lexeme t.pos)
        (by rw [hnear])
      rw [hnear] at this ⊢
      exact this
  | label hname hno =>
    -- a mnemonic would be left for the next statement
    have hnone : (Opcode.ofName? t.lexeme).isSome = false := by
      cases hop : Opcode.ofName? t.lexeme with
      | none => rfl
      | some op => exact absurd ((Token.ofName?_eq_some_iff (ht.name hname)).mp hop) (hno op)
    rw [hname]
    dsimp only
    rw [hnone]
    exact ⟨_, rfl, rfl, rfl⟩
  | @float t v x hnum hwritten hfits hx =>
    have hnear := (nearestFloat_iff hwritten).mpr ⟨x, hfits, hx, rfl⟩
    rw [hnum]
    refine ⟨_, rfl, ?_⟩
    have := clean_wordOr (w := nearestFloat t.lexeme) (.notFloat op t.lexeme t.pos) (by rw [hnear])
    rw [hnear] at this ⊢
    exact this
  | @char t c hstring hdecode =>
    have hfirst := firstChar_iff.mpr ⟨c, hdecode, rfl⟩
    rw [hstring]
    refine ⟨_, rfl, ?_⟩
    have := clean_wordOr (w := firstChar t.literal) (.notOneChar op t.lexeme t.pos) (by rw [hfirst])
    rw [hfirst] at this ⊢
    exact this

/-- An operand that is read without a problem is written. -/
theorem writes_of_operand {stop : Position} {op : Opcode} {kind : Opcode.Operand} {ts : List Token}
    (hts : ∀ t ∈ ts, t.Lexed) (h : (operand stop op kind ts).1.problems = []) :
    ∃ t rest a, ts = t :: rest ∧ Writes leading kind t a := by
  cases ts with
  | nil => cases h
  | cons t rest =>
    have ht := hts t (List.mem_cons_self ..)
    refine ⟨t, rest, ?_⟩
    unfold operand at h
    dsimp only at h
    split at h
    · next hname =>
      split at h
      · cases h
      · next hnone =>
        refine ⟨_, rfl, .label hname ?_⟩
        intro op hop
        rw [(Token.ofName?_eq_some_iff (ht.name hname)).mpr hop] at hnone
        exact hnone rfl
    · next hstring =>
      obtain ⟨c, hdecode, -⟩ := firstChar_iff.mp (Prod.ext rfl (wordOr_problems_eq_nil h))
      exact ⟨_, rfl, .char hstring hdecode⟩
    · next hnum =>
      obtain ⟨v, hwritten⟩ := Decimal.exists_written leading (ht.number hnum)
      obtain ⟨x, hfits, hx, -⟩ :=
        (nearestFloat_iff hwritten).mp (Prod.ext rfl (wordOr_problems_eq_nil h))
      exact ⟨_, rfl, .float hnum hwritten hfits hx⟩
    · next hnum hfloat =>
      have hden := nearestInt_iff.mp (Prod.ext rfl (wordOr_problems_eq_nil h))
      refine ⟨_, rfl, .int ?_ hnum hden⟩
      rintro rfl
      exact hfloat rfl
    · cases h

theorem operandList_of_writesAll (stop : Position) (op : Opcode) {kinds : List Opcode.Operand}
    {ts : List Token} {args : List Argument} (hts : ∀ t ∈ ts, t.Lexed)
    (h : WritesAll leading kinds ts args) (rest : List Token) :
    ∃ r : Reading, operandList stop op kinds (ts ++ rest) = (r, rest) ∧
      r.Clean (args.map Argument.item) := by
  induction h with
  | nil => exact ⟨_, rfl, rfl, rfl⟩
  | @cons kind kinds t ts a args ha _ ih =>
    obtain ⟨ht, hts⟩ := List.forall_mem_cons.mp hts
    obtain ⟨first, hfirst, hclean⟩ := operand_of_writes stop op ht ha (ts ++ rest)
    obtain ⟨others, hothers, hcleans⟩ := ih hts
    refine ⟨first.append others, ?_, hclean.append hcleans⟩
    rw [List.cons_append, operandList, hfirst]
    dsimp only
    rw [hothers]

theorem writesAll_of_operandList {stop : Position} {op : Opcode} {kinds : List Opcode.Operand}
    {ts : List Token} (hts : ∀ t ∈ ts, t.Lexed)
    (h : (operandList stop op kinds ts).1.problems = []) :
    ∃ us rest args, ts = us ++ rest ∧ WritesAll leading kinds us args := by
  induction kinds generalizing ts with
  | nil => exact ⟨[], ts, [], rfl, .nil⟩
  | cons kind kinds ih =>
    rw [operandList] at h
    obtain ⟨hfirst, hothers⟩ := Reading.append_problems_eq_nil.mp h
    obtain ⟨t, rest, a, rfl, ha⟩ := writes_of_operand hts hfirst
    obtain ⟨ht, hrest⟩ := List.forall_mem_cons.mp hts
    -- an operand that is written takes just its own token
    obtain ⟨r, hr, -⟩ := operand_of_writes stop op ht ha rest
    rw [hr] at hothers
    obtain ⟨us, rest, args, rfl, hall⟩ := ih hrest hothers
    exact ⟨t :: us, rest, a :: args, rfl, .cons ha hall⟩

/-! ## Statements -/

/-- The next token is a colon. -/
def AtColon (ts : List Token) : Prop := ∃ c rest, ts = c :: rest ∧ c.kind = .colon

theorem Writes.kind_ne_colon {kind : Opcode.Operand} {t : Token} {a : Argument}
    (h : Writes count kind t a) : t.kind ≠ .colon := by
  cases h with
  | int _ hkind | label hkind | float hkind | char hkind =>
    rw [hkind]
    decide

/-- No statement starts with a colon. -/
theorem Parses.not_atColon {ts : List Token} {ss : List Statement} (h : Parses count ts ss) :
    ¬ AtColon ts := by
  rintro ⟨c, rest, rfl, hc⟩
  generalize hts : c :: rest = ts at h
  cases h with
  | nil => cases hts
  | cons hs _ =>
    cases hs with
    | raw hkind | label hkind | instruction hkind =>
      cases hts
      rw [hc] at hkind
      cases hkind

theorem WritesAll.not_atColon {kinds : List Opcode.Operand} {us rest : List Token}
    {args : List Argument} (h : WritesAll count kinds us args) (hrest : ¬ AtColon rest) :
    ¬ AtColon (us ++ rest) := by
  cases h with
  | nil => exact hrest
  | cons ha _ =>
    rintro ⟨c, others, heq, hc⟩
    cases heq
    exact ha.kind_ne_colon hc

theorem statement_name {stop : Position} {t : Token} {rest : List Token} (ht : t.kind = .name)
    (h : ¬ AtColon rest) : statement stop t rest = instruction stop t rest := by
  unfold statement
  rw [ht]
  cases rest with
  | nil => rfl
  | cons next others =>
    have hne : (next.kind == .colon) = false := by
      simp only [beq_eq_false_iff_ne]
      intro hc
      exact h ⟨next, others, rfl, hc⟩
    dsimp only
    rw [hne]
    rfl

theorem instruction_eq {stop : Position} {t : Token} {op : Opcode} (rest : List Token)
    (ht : t.Lexed) (hname : t.kind = .name) (hop : IsMnemonic t.lexeme op) :
    instruction stop t rest =
      ((Reading.item (.word op.word)).append (operandList stop op op.operands rest).1,
        (operandList stop op op.operands rest).2) := by
  unfold instruction
  rw [(Token.ofName?_eq_some_iff (ht.name hname)).mpr hop]

/-- A statement that is spelled is read, if no colon follows it. -/
theorem statement_of_spells {stop : Position} {t : Token} {us rest : List Token} {s : Statement}
    (hts : ∀ u ∈ t :: us, u.Lexed) (h : Spells leading (t :: us) s) (hrest : ¬ AtColon rest) :
    ∃ r : Reading, statement stop t (us ++ rest) = (r, rest) ∧ r.Clean s.items := by
  cases h with
  | raw hkind hden =>
    unfold statement
    rw [hkind, Numeral.readInt32_ok_iff.mpr hden]
    exact ⟨_, rfl, rfl, rfl⟩
  | @label t colon hkind hcolon =>
    unfold statement
    rw [hkind, List.cons_append, List.nil_append]
    dsimp only
    rw [hcolon]
    exact ⟨_, rfl, rfl, rfl⟩
  | @instruction t op us args hkind hop hargs =>
    obtain ⟨ht, hus⟩ := List.forall_mem_cons.mp hts
    obtain ⟨r, hr, hclean⟩ := operandList_of_writesAll stop op hus hargs rest
    have hword : (Reading.item (.word op.word)).Clean [.word op.word] := ⟨rfl, rfl⟩
    refine ⟨_, ?_, hword.append hclean⟩
    rw [statement_name hkind (hargs.not_atColon hrest), instruction_eq _ ht hkind hop, hr]

/-- A statement that is read without a problem is spelled by the tokens it takes. -/
theorem spells_of_statement {stop : Position} {t : Token} {ts : List Token}
    (hts : ∀ u ∈ t :: ts, u.Lexed) (h : (statement stop t ts).1.problems = []) :
    ∃ us s, ts = us ++ (statement stop t ts).2 ∧ Spells leading (t :: us) s := by
  obtain ⟨ht, hrest⟩ := List.forall_mem_cons.mp hts
  cases hkind : t.kind with
  | number =>
    unfold statement at h ⊢
    rw [hkind] at h ⊢
    cases hread : Numeral.readInt32 t.lexeme with
    | error e => simp [hread] at h
    | ok w => exact ⟨[], .raw w, rfl, .raw hkind (Numeral.readInt32_ok_iff.mp hread)⟩
  | name =>
    by_cases hcolon : AtColon ts
    · obtain ⟨c, rest, rfl, hc⟩ := hcolon
      refine ⟨[c], .label t.lexeme, ?_, .label hkind hc⟩
      unfold statement
      rw [hkind]
      dsimp only
      rw [hc]
      rfl
    · rw [statement_name hkind hcolon] at h ⊢
      cases hop : Opcode.ofName? t.lexeme with
      | none => simp [instruction, hop] at h
      | some op =>
        have hmnemonic : IsMnemonic t.lexeme op :=
          (Token.ofName?_eq_some_iff (ht.name hkind)).mp hop
        -- reading what is written gives back the tokens that are left
        rw [instruction_eq ts ht hkind hmnemonic] at h ⊢
        obtain ⟨-, hargs⟩ := Reading.append_problems_eq_nil.mp h
        obtain ⟨us, rest, args, rfl, hall⟩ := writesAll_of_operandList hrest hargs
        obtain ⟨r, hr, -⟩ := operandList_of_writesAll stop op
          (fun u hu => hrest u (List.mem_append_left rest hu)) hall rest
        exact ⟨us, .instruction op args, by rw [hr], .instruction hkind hmnemonic hall⟩
  | eof | string | colon | illegal => simp [statement, hkind] at h

/-! ## Sources -/

theorem spells_ne_nil {ts : List Token} {s : Statement} (h : Spells count ts s) :
    ∃ t us, ts = t :: us := by
  cases h <;> exact ⟨_, _, rfl⟩

/-- Statements that are spelled are read, all of them and nothing else. -/
theorem statements_of_parses (stop : Position) {ts : List Token} {ss : List Statement}
    (hts : ∀ t ∈ ts, t.Lexed) (h : Parses leading ts ss) :
    (statements stop ts).Clean (ss.flatMap Statement.items) := by
  induction h with
  | nil =>
    rw [statements]
    exact ⟨rfl, rfl⟩
  | @cons us rest s ss hs hrest ih =>
    obtain ⟨t, us, rfl⟩ := spells_ne_nil hs
    -- a colon behind a name would make it a label, but no statement starts with one
    obtain ⟨r, hr, hclean⟩ := statement_of_spells
      (fun u hu => hts u (List.mem_append_left rest hu)) hs hrest.not_atColon
    rw [List.cons_append, statements, hr]
    exact hclean.append (ih fun u hu => hts u (List.mem_append_right (t :: us) hu))

/-- A source that is read without a problem is a sequence of statements. -/
theorem parses_of_statements (stop : Position) {ts : List Token} (hts : ∀ t ∈ ts, t.Lexed)
    (h : (statements stop ts).problems = []) : ∃ ss, Parses leading ts ss := by
  fun_induction statements stop ts with
  | case1 => exact ⟨[], .nil⟩
  | case2 t rest ih =>
    obtain ⟨hfirst, hothers⟩ := Reading.append_problems_eq_nil.mp h
    obtain ⟨us, s, heq, hs⟩ := spells_of_statement hts hfirst
    obtain ⟨ss, hss⟩ := ih (fun u hu => hts u (by rw [heq]; simp [hu])) hothers
    rw [heq]
    exact ⟨s :: ss, Parses.cons hs hss⟩

/-! ## Places of tokens do not matter -/

theorem Writes.congr {kind : Opcode.Operand} {t u : Token} {a : Argument}
    (h : Writes count kind t a) (htu : t.unplaced = u.unplaced) : Writes count kind u a := by
  obtain ⟨hkind, hlexeme, hliteral, -⟩ := Token.mk.inj htu
  cases h with
  | int hne hnumber hdenotes => exact .int hne (hkind ▸ hnumber) (hlexeme ▸ hdenotes)
  | label hname hfree =>
    rw [hlexeme] at hfree ⊢
    exact .label (hkind ▸ hname) hfree
  | float hnumber hwritten hfits hx =>
    exact .float (hkind ▸ hnumber) (hlexeme ▸ hwritten) hfits hx
  | char hstring hdecode => exact .char (hkind ▸ hstring) (hliteral ▸ hdecode)

theorem WritesAll.congr {kinds : List Opcode.Operand} {ts us : List Token} {args : List Argument}
    (h : WritesAll count kinds ts args) (htu : us.map Token.unplaced = ts.map Token.unplaced) :
    WritesAll count kinds us args := by
  induction h generalizing us with
  | nil =>
    rw [List.map_eq_nil_iff.mp htu]
    exact .nil
  | cons ha _ ih =>
    obtain ⟨u, us, rfl, hu, hus⟩ := List.map_eq_cons_iff.mp htu
    exact .cons (ha.congr hu.symm) (ih hus)

theorem Spells.congr {ts us : List Token} {s : Statement} (h : Spells count ts s)
    (htu : us.map Token.unplaced = ts.map Token.unplaced) : Spells count us s := by
  cases h with
  | raw hnumber hdenotes =>
    obtain ⟨u, us, rfl, hu, hus⟩ := List.map_eq_cons_iff.mp htu
    obtain ⟨hkind, hlexeme, -, -⟩ := Token.mk.inj hu
    rw [List.map_eq_nil_iff.mp hus]
    exact .raw (hkind ▸ hnumber) (hlexeme ▸ hdenotes)
  | label hname hcolon =>
    obtain ⟨u, us, rfl, hu, hus⟩ := List.map_eq_cons_iff.mp htu
    obtain ⟨c, us, rfl, hc, hus⟩ := List.map_eq_cons_iff.mp hus
    obtain ⟨hkind, hlexeme, -, -⟩ := Token.mk.inj hu
    obtain ⟨hkind', -, -, -⟩ := Token.mk.inj hc
    rw [List.map_eq_nil_iff.mp hus, ← hlexeme]
    exact .label (hkind ▸ hname) (hkind' ▸ hcolon)
  | instruction hname hop hargs =>
    obtain ⟨u, us, rfl, hu, hus⟩ := List.map_eq_cons_iff.mp htu
    obtain ⟨hkind, hlexeme, -, -⟩ := Token.mk.inj hu
    exact .instruction (hkind ▸ hname) (hlexeme ▸ hop) (hargs.congr hus)

/-- Tokens spell the same statements wherever they stand. -/
theorem Parses.congr {ts us : List Token} {ss : List Statement} (h : Parses count ts ss)
    (htu : us.map Token.unplaced = ts.map Token.unplaced) : Parses count us ss := by
  induction h generalizing us with
  | nil =>
    rw [List.map_eq_nil_iff.mp htu]
    exact .nil
  | cons hs _ ih =>
    rw [List.map_append] at htu
    obtain ⟨us, rest, rfl, hus, hrest⟩ := List.map_eq_append_iff.mp htu
    exact .cons (hs.congr hus) (ih hrest)

/-- Statements behind others are read with them. -/
theorem Parses.append {ts us : List Token} {ss ss' : List Statement} (h : Parses count ts ss)
    (h' : Parses count us ss') : Parses count (ts ++ us) (ss ++ ss') := by
  induction h with
  | nil => exact h'
  | cons hs _ ih =>
    rw [List.append_assoc]
    exact .cons hs ih

theorem WritesAll.kind_ne_illegal {kinds : List Opcode.Operand} {ts : List Token}
    {args : List Argument} (h : WritesAll count kinds ts args) : ∀ t ∈ ts, t.kind ≠ .illegal := by
  induction h with
  | nil => simp
  | cons ha _ ih =>
    refine List.forall_mem_cons.mpr ⟨?_, ih⟩
    cases ha with
    | int _ hkind | label hkind | float hkind | char hkind =>
      rw [hkind]
      decide

theorem Spells.kind_ne_illegal {ts : List Token} {s : Statement} (h : Spells count ts s) :
    ∀ t ∈ ts, t.kind ≠ .illegal := by
  cases h with
  | raw hkind => simp [hkind]
  | label hkind hcolon => simp [hkind, hcolon]
  | instruction hkind _ hargs =>
    exact List.forall_mem_cons.mpr ⟨by simp [hkind], hargs.kind_ne_illegal⟩

/-- No statement holds an illegal token. -/
theorem Parses.kind_ne_illegal {ts : List Token} {ss : List Statement} (h : Parses count ts ss) :
    ∀ t ∈ ts, t.kind ≠ .illegal := by
  induction h with
  | nil => simp
  | cons hs _ ih =>
    intro t ht
    rcases List.mem_append.mp ht with ht | ht
    · exact hs.kind_ne_illegal t ht
    · exact ih t ht

end TagMachine.Assembly
