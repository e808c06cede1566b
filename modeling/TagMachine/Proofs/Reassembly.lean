import Mathlib.Data.List.Forall2
import TagMachine.Proofs.FloatText
import TagMachine.Proofs.Layout
import TagMachine.Proofs.SpacedLexemes
import TagMachine.Proofs.Sweep

/-!
From a listing back to the program. The instructions of a listing, taken without their addresses and
joined by whitespace, are a source of the program: every operand but a character is written as a
number that reads back as the very same word.
-/

namespace TagMachine

/-- An instruction with a word for each operand. -/
structure Instruction where
  op : Opcode
  args : List Int32
  complete : args.length = op.arity

namespace Instruction

/-- The program words of an instruction. -/
def words (i : Instruction) : List Int32 := i.op.word :: i.args

/-- How a listing shows an instruction. -/
def text (i : Instruction) : Bytes := i.op.name ++ Listing.operandTexts i.op.operands i.args

/-- The instruction has a text that the assembler reads: it holds no character, and its
floating-point number is finite. -/
def Legible (i : Instruction) : Prop :=
  i.op ≠ .cstc ∧ (i.op = .cstf → ∀ w ∈ i.args, (Binary32.mk w.toUInt32).isFinite)

theorem length_args (i : Instruction) : i.args.length = i.op.operands.length :=
  i.complete.trans i.op.length_operands.symm

end Instruction

/-- One or more whitespace characters. -/
def IsSeparator (b : Bytes) : Prop :=
  ∃ cs : List Char, cs ≠ [] ∧ (∀ c ∈ cs, isSpace c) ∧ b = Utf8.encodeAll cs

theorem isSeparator_space : IsSeparator [32] :=
  ⟨[' '], by simp, by simp; decide, by decide +kernel⟩

/-- Texts joined by whitespace, any between each two of them. -/
inductive Joined : List Bytes → Bytes → Prop
  | nil : Joined [] []
  | one {t : Bytes} : Joined [t] t
  | cons {t u sep rest : Bytes} {us : List Bytes} : IsSeparator sep → Joined (u :: us) rest →
      Joined (t :: u :: us) (t ++ sep ++ rest)

/-! ## The texts of the listing -/

namespace Listing

/-- Operands are shown off the words that belong to them. -/
theorem operandTexts_append {kinds : List Opcode.Operand} {args : List Int32}
    (h : args.length = kinds.length) (rest : List Int32) :
    operandTexts kinds (args ++ rest) = operandTexts kinds args := by
  induction kinds generalizing args with
  | nil => rfl
  | cons kind kinds ih =>
    cases args with
    | nil => cases h
    | cons w args =>
      rw [List.cons_append, operandTexts, operandTexts, ih (Nat.succ.inj h)]

theorem instructionText_words (i : Instruction) (rest : List Int32) :
    instructionText (i.words ++ rest) = i.text := by
  rw [Instruction.words, List.cons_append, instructionText, Opcode.ofWord?_word]
  dsimp only
  rw [operandTexts_append i.length_args, Instruction.text]

/-- The sweep over instructions shows each of them. -/
theorem instructionTexts_entriesFrom (start : Nat) (is : List Instruction) :
    (entriesFrom start (is.flatMap Instruction.words)).map (fun e => instructionText e.2) =
      is.map Instruction.text := by
  induction is generalizing start with
  | nil =>
    rw [List.flatMap_nil, entriesFrom]
    rfl
  | cons i is ih =>
    rw [List.flatMap_cons, Instruction.words, List.cons_append,
      entriesFrom_instruction start i.op i.complete, List.map_cons, ih, List.map_cons,
      ← List.cons_append]
    exact congrArg (· :: _) (instructionText_words i _)

theorem instructionAt_entries (code : List Int32) :
    (entries code).map (fun e => instructionAt code e.1) =
      (entries code).map fun e => instructionText e.2 := by
  apply List.map_congr_left
  intro e he
  rw [instructionAt, if_pos (Int.natCast_nonneg _), Int.toNat_natCast, drop_of_mem_entries he]

end Listing

/-! ## Operands -/

namespace Assembly

open Token
open Decimal (leading)

/-- The lexeme of an operand. -/
def operandLexeme (kind : Opcode.Operand) (w : Int32) : Kind × Bytes :=
  (.number, Listing.operandText kind w)

/-- The operand word has a number as its text. -/
def LegibleAs (kind : Opcode.Operand) (w : Int32) : Prop :=
  kind ≠ .char ∧ (kind = .float → (Binary32.mk w.toUInt32).isFinite)

theorem isNumber_of_denotes {l : Bytes} {x : Int} (h : Numeral.Denotes l x) : IsNumber l := by
  obtain ⟨s, ds, hs, hds, rfl⟩ := exists_digits_of_denotes h
  exact ⟨s, ds, [], [], hs, hds, Or.inl rfl, Or.inl rfl, by simp⟩

theorem isNumber_operandText {kind : Opcode.Operand} {w : Int32} (h : LegibleAs kind w) :
    IsNumber (Listing.operandText kind w) := by
  cases kind with
  | number | target => exact isNumber_of_denotes (Bytes.denotes_int w.toInt)
  | float =>
    obtain ⟨v, hwritten, -⟩ := Binary32.written_text (h.2 rfl)
    exact hwritten.isNumber
  | char => exact absurd rfl h.1

/-- The text of an operand is read as the word. -/
theorem writes_operandText {kind : Opcode.Operand} {w : Int32} (h : LegibleAs kind w) {t : Token}
    (hkind : t.kind = .number) (hlexeme : t.lexeme = Listing.operandText kind w) :
    Writes leading kind t (.word w) := by
  cases kind with
  | number | target =>
    refine .int (by simp) hkind ?_
    rw [hlexeme]
    exact Bytes.denotes_int w.toInt
  | float =>
    have hfinite := h.2 rfl
    obtain ⟨v, hwritten, hround⟩ := Binary32.written_text hfinite
    -- the decimal becomes the finite number itself, so it is not too large
    have hfits : ¬ v.toBinary32.isInfinite := by
      rw [hround, Binary32.isInfinite_of_isFinite hfinite]
      exact Bool.false_ne_true
    rw [Listing.operandText] at hlexeme
    rw [← hlexeme] at hwritten
    have hwrites := Writes.of_written hkind hwritten hfits
    rw [hround, Int32.toInt32_toUInt32] at hwrites
    exact hwrites
  | char => exact absurd rfl h.1

/-! ## Instructions -/

/-- The lexemes of an instruction. -/
def lexemes (i : Instruction) : List (Kind × Bytes) :=
  (.name, i.op.name) :: List.zipWith operandLexeme i.op.operands i.args

/-- Only the two constant instructions have an operand that is no integer. -/
theorem opcode_of_mem_operands (op : Opcode) :
    ∀ kind ∈ op.operands, (kind = .char → op = .cstc) ∧ (kind = .float → op = .cstf) := by
  cases op <;> decide

theorem legibleAs_of_legible {i : Instruction} (h : i.Legible) :
    List.Forall₂ LegibleAs i.op.operands i.args := by
  rw [List.forall₂_iff_zip]
  refine ⟨i.length_args.symm, ?_⟩
  intro kind w hmem
  obtain ⟨hkind, hw⟩ := List.of_mem_zip hmem
  obtain ⟨hchar, hfloat⟩ := opcode_of_mem_operands i.op kind hkind
  exact ⟨fun hc => h.1 (hchar hc), fun hf => h.2 (hfloat hf) w hw⟩

theorem mem_all (op : Opcode) : op ∈ Opcode.all := by
  cases op <;> decide

/-- A mnemonic is a name, in upper case. -/
theorem stands_mnemonic (op : Opcode) : Stands .name op.name ∧ IsMnemonic op.name op := by
  have hcheck : ∀ op ∈ Opcode.all, op.name.head?.any isNameStart ∧ op.name.tail.all isNamePart ∧
      op.name = op.name.map Bytes.upper := by
    decide +kernel
  obtain ⟨hstart, hparts, hupper⟩ := hcheck op (mem_all op)
  refine ⟨?_, hupper⟩
  cases hspell : op.name with
  | nil => simp [hspell] at hstart
  | cons x tail =>
    rw [hspell] at hstart hparts
    exact stands_name hstart (List.all_eq_true.mp hparts)

theorem gap_space : Gap False [32] := Gap.space (c := ' ') rfl .nil

theorem gap_of_isSeparator {sep : Bytes} (h : IsSeparator sep) : Gap False sep ∧ sep ≠ [] := by
  obtain ⟨cs, hne, hspace, rfl⟩ := h
  have hgap : Gap False (Utf8.encodeAll cs) := by
    clear hne
    induction cs with
    | nil => exact .nil
    | cons c cs ih =>
      obtain ⟨hc, hcs⟩ := List.forall_mem_cons.mp hspace
      exact .space hc (ih hcs)
  refine ⟨hgap, ?_⟩
  cases cs with
  | nil => exact absurd rfl hne
  | cons c cs =>
    intro hnil
    have hfirst := Utf8.first?_encode c (Utf8.encodeAll cs)
    rw [show Utf8.encode c ++ Utf8.encodeAll cs = [] from hnil] at hfirst
    cases hfirst

/-- A mnemonic and one operand, with whitespace between them, are the two tokens of a source. -/
theorem tokens_of_operand (op : Opcode) {sep operand : Bytes} {k : Kind} (hsep : IsSeparator sep)
    (hstands : Stands k operand) :
    (Token.ofText (op.name ++ sep ++ operand)).dropLast.map unplaced =
      [ofLexeme (.name, op.name), ofLexeme (k, operand)] := by
  obtain ⟨hgap, hne⟩ := gap_of_isSeparator hsep
  have hlast := Spaced.cons hgap (fun (_ : True) => hne) hstands .nil
  have hall := Spaced.cons (.nil : Gap False []) False.elim (stands_mnemonic op).1 hlast
  refine hall.cut.tokens (c := Cursor.ofText _) ?_
  simp [Cursor.ofText]

/-- They assemble to the instruction with the operand that is written. -/
theorem assemble_of_operand {op : Opcode} {kind : Opcode.Operand} (hop : op.operands = [kind])
    {sep operand : Bytes} {k : Kind} (hsep : IsSeparator sep) (hstands : Stands k operand)
    {w : Int32} (hwrites : Writes leading kind (ofLexeme (k, operand)) (.word w)) :
    assemble (op.name ++ sep ++ operand) = .ok [op.word, w] := by
  have hspells : Spells leading [ofLexeme (.name, op.name), ofLexeme (k, operand)]
      (.instruction op [.word w]) := by
    refine .instruction rfl (stands_mnemonic op).2 ?_
    rw [hop]
    exact .cons hwrites .nil
  have htokens := tokens_of_operand op hsep hstands
  have hparses : Parses leading (Token.ofText (op.name ++ sep ++ operand)).dropLast
      [.instruction op [.word w]] :=
    (Parses.cons hspells .nil).congr htokens
  rw [assemble_ok_iff_of_parses hparses]
  exact ⟨List.nodup_nil, by simp [referred, Statement.references, Argument.label?], rfl⟩

/-- Operands in front of a text of lexemes are lexemes. -/
theorem spaced_operandTexts {kinds : List Opcode.Operand} {args : List Int32}
    (h : List.Forall₂ LegibleAs kinds args) {tail : Bytes} {ls : List (Kind × Bytes)}
    (htail : Spaced True tail ls) :
    Spaced True (Listing.operandTexts kinds args ++ tail)
      (List.zipWith operandLexeme kinds args ++ ls) := by
  induction h with
  | nil => exact htail
  | @cons kind w kinds args hw _ ih =>
    have hcons := Spaced.cons gap_space (fun (_ : True) => by simp)
      (stands_number (isNumber_operandText hw)) ih
    rw [List.append_assoc, ← List.append_assoc (Listing.operandText kind w)] at hcons
    exact hcons

theorem spaced_instruction {i : Instruction} (h : i.Legible) {behind : Prop} {gap tail : Bytes}
    {ls : List (Kind × Bytes)} (hgap : Gap False gap) (hapart : behind → gap ≠ [])
    (htail : Spaced True tail ls) :
    Spaced behind (gap ++ i.text ++ tail) (lexemes i ++ ls) := by
  have hcons := Spaced.cons hgap hapart (stands_mnemonic i.op).1
    (spaced_operandTexts (legibleAs_of_legible h) htail)
  rw [List.append_assoc] at hcons
  rw [List.append_assoc, Instruction.text, List.append_assoc]
  exact hcons

/-- Instructions joined by whitespace are a text of their lexemes. -/
theorem spaced_joined {is : List Instruction} (h : ∀ i ∈ is, i.Legible) {source : Bytes}
    (hsource : Joined (is.map Instruction.text) source)
    {behind : Prop} {gap : Bytes} (hgap : Gap False gap) (hapart : behind → gap ≠ [])
    (hempty : is = [] → gap = []) :
    Spaced behind (gap ++ source) (is.flatMap lexemes) := by
  induction is generalizing source behind gap with
  | nil =>
    cases hsource
    rw [hempty rfl]
    exact .nil
  | cons i is ih =>
    obtain ⟨hi, his⟩ := List.forall_mem_cons.mp h
    rw [List.flatMap_cons]
    cases is with
    | nil =>
      cases hsource
      have hone := spaced_instruction hi hgap hapart .nil
      rw [List.append_nil] at hone
      exact hone
    | cons j is =>
      cases hsource with
      | @cons _ _ sep rest _ hsep hrest =>
        -- the separator is the gap in front of the next instruction
        obtain ⟨hspace, hne⟩ := gap_of_isSeparator hsep
        have htail := ih his hrest hspace (fun (_ : True) => hne) (by simp)
        have hall := spaced_instruction hi hgap hapart htail
        rw [List.append_assoc] at hall
        rw [List.append_assoc i.text]
        exact hall

/-! ## Reading them back -/

theorem writesAll_of_lexemes {kinds : List Opcode.Operand} {args : List Int32}
    (h : List.Forall₂ LegibleAs kinds args) {ts : List Token}
    (hts : ts.map (fun t => (t.kind, t.lexeme)) = List.zipWith operandLexeme kinds args) :
    WritesAll leading kinds ts (args.map .word) := by
  induction h generalizing ts with
  | nil =>
    rw [List.map_eq_nil_iff.mp hts]
    exact .nil
  | @cons kind w kinds args hw _ ih =>
    obtain ⟨t, us, rfl, ht, hus⟩ := List.map_eq_cons_iff.mp hts
    obtain ⟨hkind, hlexeme⟩ := Prod.mk.inj ht
    exact .cons (writes_operandText hw hkind hlexeme) (ih hus)

/-- The statement of an instruction. -/
def statementOf (i : Instruction) : Statement := .instruction i.op (i.args.map .word)

theorem parses_of_lexemes {is : List Instruction} (h : ∀ i ∈ is, i.Legible) {ts : List Token}
    (hts : ts.map (fun t => (t.kind, t.lexeme)) = is.flatMap lexemes) :
    Parses leading ts (is.map statementOf) := by
  induction is generalizing ts with
  | nil =>
    rw [List.map_eq_nil_iff.mp hts]
    exact .nil
  | cons i is ih =>
    obtain ⟨hi, his⟩ := List.forall_mem_cons.mp h
    rw [List.flatMap_cons] at hts
    obtain ⟨us, rest, rfl, hus, hrest⟩ := List.map_eq_append_iff.mp hts
    obtain ⟨t, us, rfl, ht, hargs⟩ := List.map_eq_cons_iff.mp hus
    obtain ⟨hkind, hlexeme⟩ := Prod.mk.inj ht
    have hmnemonic : IsMnemonic t.lexeme i.op := by
      rw [hlexeme]
      exact (stands_mnemonic i.op).2
    exact .cons
      (.instruction hkind hmnemonic (writesAll_of_lexemes (legibleAs_of_legible hi) hargs))
      (ih his hrest)

theorem references_statementOf (i : Instruction) : (statementOf i).references = [] := by
  simp [statementOf, Statement.references, Argument.label?, List.filterMap_map]

theorem words_statementOf (address : Bytes → Nat) (i : Instruction) :
    (statementOf i).words address = i.words := by
  rw [statementOf, Statement.words, List.map_map, Instruction.words]
  exact congrArg _ (List.map_id' i.args)

/-- A source whose tokens are those of instructions assembles to their words. -/
theorem assemble_of_lexemes {is : List Instruction} (h : ∀ i ∈ is, i.Legible) {source : Bytes}
    (hsource : (Token.ofText source).dropLast.map (fun t => (t.kind, t.lexeme)) =
      is.flatMap lexemes) :
    assemble source = .ok (is.flatMap Instruction.words) := by
  have hdefined : defined (is.map statementOf) = [] := by
    simp [defined, List.filterMap_map, statementOf, Statement.label?]
  have hreferred : referred (is.map statementOf) = [] := by
    simp [referred, references_statementOf]
  -- without labels there is nothing to resolve
  rw [assemble_ok_iff_of_parses (parses_of_lexemes h hsource)]
  refine ⟨by simp [hdefined], by simp [hreferred], ?_⟩
  simp only [layout, List.flatMap_map, words_statementOf]

/-- The instructions of a listing, joined by any whitespace, assemble to the program that is listed,
unless it holds a character or a floating-point number that is not finite. -/
theorem a_listing_assembles_to_the_program_it_lists (is : List Instruction)
    (h : ∀ i ∈ is, i.Legible) (code : List Int32) (hcode : code = is.flatMap Instruction.words)
    (source : Bytes)
    (hsource : Joined ((Listing.entries code).map fun e => Listing.instructionAt code e.1) source) :
    assemble source = .ok code := by
  subst hcode
  have htexts : (Listing.entries (is.flatMap Instruction.words)).map
      (fun e => Listing.instructionAt (is.flatMap Instruction.words) e.1) =
        is.map Instruction.text := by
    rw [Listing.instructionAt_entries]
    exact Listing.instructionTexts_entriesFrom 0 is
  rw [htexts] at hsource
  have hspaced := spaced_joined h hsource (.nil : Gap False []) False.elim (fun _ => rfl)
  exact assemble_of_lexemes h (hspaced.tokens (c := Cursor.ofText source) rfl)

theorem negative_constants_survive_a_listing :
    let is : List Instruction :=
      [⟨.cstf, [-2147483648], rfl⟩, ⟨.csti, [-1], rfl⟩, ⟨.goto, [4], rfl⟩]
    (∀ i ∈ is, i.Legible) ∧
      assemble "CSTF -0.0\nCSTI -1\t GOTO 4" = .ok (is.flatMap Instruction.words) := by
  intro is
  have hlegible : ∀ i ∈ is, i.Legible := by
    simp [is, Instruction.Legible]
    decide +kernel
  have hdigit : ∀ n < 10, Bytes.nat n = [Bytes.digit n] := fun n hn => by rw [Bytes.nat, if_pos hn]
  have hzero : Listing.operandText .float (-2147483648) = Bytes.ofString "-0.0" := by decide +kernel
  have hminus : Listing.operandText .number (-1) = Bytes.ofString "-1" :=
    congrArg (45 :: ·) (hdigit 1 (by decide))
  have htarget : Listing.operandText .target 4 = Bytes.ofString "4" := hdigit 4 (by decide)
  have htexts : is.map Instruction.text =
      [Opcode.cstf.name ++ (32 :: Bytes.ofString "-0.0" ++ []),
        Opcode.csti.name ++ (32 :: Bytes.ofString "-1" ++ []),
        Opcode.goto.name ++ (32 :: Bytes.ofString "4" ++ [])] := by
    simp only [is, List.map_cons, List.map_nil, Instruction.text, Opcode.operands,
      Listing.operandTexts, hzero, hminus, htarget]
  have hnewline : IsSeparator [10] := ⟨['\n'], by simp, by simp; decide, by decide +kernel⟩
  have hblanks : IsSeparator [9, 32] := ⟨['\t', ' '], by simp, by simp; decide, by decide +kernel⟩
  refine ⟨hlegible, a_listing_assembles_to_the_program_it_lists is hlegible _ rfl _ ?_⟩
  rw [Listing.instructionAt_entries, Listing.entries, Listing.instructionTexts_entriesFrom, htexts]
  have hsource : Bytes.ofString "CSTF -0.0\nCSTI -1\t GOTO 4" =
      Opcode.cstf.name ++ (32 :: Bytes.ofString "-0.0" ++ []) ++ [10] ++
        (Opcode.csti.name ++ (32 :: Bytes.ofString "-1" ++ []) ++ [9, 32] ++
          (Opcode.goto.name ++ (32 :: Bytes.ofString "4" ++ []))) := by decide +kernel
  rw [hsource]
  exact .cons hnewline (.cons hblanks .one)

end Assembly

end TagMachine
