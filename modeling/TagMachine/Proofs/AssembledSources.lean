import TagMachine.Proofs.LabelProblems
import TagMachine.Proofs.Reassembly

/-!
What a source assembles to. Assembling in one pass, with references filled in at the end, comes to
the layout of the statements that the tokens spell. The statements hold floating-point numbers by
the values written, as long as no exponent has more than five digits. Of a longer one the first five
count, so a number far too large can be read as a small one.
-/

namespace TagMachine.Assembly

open Token
open Decimal (leading ShortExponent)

/-! ## How much exponents count -/

/-- What a number among the tokens stands for by one count of exponents, it stands for by the
other. -/
def Recounts (count count' : Nat → Nat) (ts : List Token) : Prop :=
  ∀ t ∈ ts, t.kind = .number → ∀ v, Decimal.Written count t.lexeme v →
    Decimal.Written count' t.lexeme v

variable {count count' : Nat → Nat}

theorem WritesAll.recount {kinds : List Opcode.Operand} {ts : List Token} {args : List Argument}
    (h : WritesAll count kinds ts args) (hcount : Recounts count count' ts) :
    WritesAll count' kinds ts args := by
  induction h with
  | nil => exact .nil
  | cons ha _ ih =>
    obtain ⟨hfirst, hothers⟩ := List.forall_mem_cons.mp hcount
    refine .cons ?_ (ih hothers)
    cases ha with
    | int hkind hnumber hdenotes => exact .int hkind hnumber hdenotes
    | label hname hfree => exact .label hname hfree
    | float hnumber hwritten hfits hx => exact .float hnumber (hfirst hnumber _ hwritten) hfits hx
    | char hstring hdecode => exact .char hstring hdecode

theorem Parses.recount {ts : List Token} {ss : List Statement} (h : Parses count ts ss)
    (hcount : Recounts count count' ts) : Parses count' ts ss := by
  induction h with
  | nil => exact .nil
  | cons hs _ ih =>
    obtain ⟨hfirst, hothers⟩ := List.forall_mem_append.mp hcount
    refine .cons ?_ (ih hothers)
    cases hs with
    | raw hnumber hdenotes => exact .raw hnumber hdenotes
    | label hname hcolon => exact .label hname hcolon
    | instruction hname hop hargs =>
      exact .instruction hname hop (hargs.recount (List.forall_mem_cons.mp hfirst).2)

/-- Tokens whose exponents are short spell the same statements by both counts. -/
theorem parses_leading_iff {ts : List Token} {ss : List Statement}
    (h : ∀ t ∈ ts, t.kind = .number → ShortExponent t.lexeme) :
    Parses leading ts ss ↔ Parses id ts ss := by
  constructor
  · exact fun hparses => hparses.recount fun t ht hnumber _ =>
      (Decimal.written_leading_iff (h t ht hnumber)).mp
  · exact fun hparses => hparses.recount fun t ht hnumber _ =>
      (Decimal.written_leading_iff (h t ht hnumber)).mpr

/-! ## Single operands -/

/-- A mnemonic with one operand spells nothing unless the operand is written. -/
theorem exists_writes_of_parses {op : Opcode} {kind : Opcode.Operand} (hop : op.operands = [kind])
    {t : Token} (ht : t.kind ≠ .colon) {ss : List Statement}
    (h : Parses count [ofLexeme (.name, op.name), t] ss) : ∃ a, Writes count kind t a := by
  generalize hts : [ofLexeme (.name, op.name), t] = ts at h
  cases h with
  | nil => cases hts
  | @cons us rest s ss hs _ =>
    cases hs with
    | raw hnumber =>
      cases hts
      cases hnumber
    | label _ hcolon =>
      cases hts
      exact absurd hcolon ht
    | @instruction u op' us args _ hmnemonic hargs =>
      rw [List.cons_append, List.cons.injEq] at hts
      obtain ⟨rfl, hrest⟩ := hts
      -- no other mnemonic has this name
      have hname : op'.name = op.name := hmnemonic.trans (stands_mnemonic op).2.symm
      have hsame : op' = op := by
        have hfind := find?_name op
        rw [← hname, find?_name op'] at hfind
        exact Option.some.inj hfind
      rw [hsame, hop] at hargs
      cases hargs with
      | cons hwrites hnone =>
        cases hnone
        cases hrest
        exact ⟨_, hwrites⟩

/-- A one that stands far behind the point, with an exponent. -/
theorem written_one_behind_point (count : Nat → Nat) (k : Nat) {es : Bytes} {e : Int}
    (h : Numeral.Denotes es e) :
    Decimal.Written count (Bytes.ofString "0." ++ (List.replicate k 48 ++ [49]) ++ 101 :: es)
      ⟨false, 1, e.sign * count e.natAbs - (k + 1)⟩ := by
  have hzero : IsDigits [48] := ⟨by simp, by simp; decide⟩
  have hplaces : IsDigits (List.replicate k 48 ++ [49]) := by
    refine ⟨by simp, ?_⟩
    intro d hd
    rcases List.mem_append.mp hd with hd | hd
    · rw [List.eq_of_mem_replicate hd]
      rfl
    · rw [List.mem_singleton.mp hd]
      rfl
  have hscale : Decimal.Scale count (101 :: es) (e.sign * count e.natAbs) := .mark (Or.inl rfl) h
  have hwritten := Decimal.Written.mk (Or.inl rfl) hzero (.point hplaces) hscale
  have hvalue : Bytes.decimalFrom 0 ([48] ++ (List.replicate k 48 ++ [49])) = 1 := by
    rw [Bytes.decimalFrom_append, Bytes.decimalFrom_append, Bytes.decimalFrom_zeros]
    simp [Bytes.decimalFrom]
  have htext : Bytes.ofString "0." = [48, 46] := by decide +kernel
  rw [hvalue] at hwritten
  simpa [htext] using hwritten

/-! ## Layouts of sources -/

/-- The tokens are statements, no label is defined twice, every reference names a label, and the
words are the layout of the statements. -/
def LaysOut (count : Nat → Nat) (ts : List Token) (words : List Int32) : Prop :=
  ∃ ss, Parses count ts ss ∧ (defined ss).Nodup ∧ (∀ name ∈ referred ss, name ∈ defined ss) ∧
    words = layout ss

theorem assemble_iff_laysOut {source : Bytes} {words : List Int32} :
    assemble source = .ok words ↔ LaysOut leading (Token.ofText source).dropLast words := by
  constructor
  · intro h
    obtain ⟨ss, hss⟩ := exists_parses_of_assemble h
    exact ⟨ss, hss, (assemble_ok_iff_of_parses hss).mp h⟩
  · rintro ⟨ss, hss, hlabels⟩
    exact (assemble_ok_iff_of_parses hss).mpr hlabels

/-- A source assembles to the draft of its items, if neither of them has a problem. -/
theorem assemble_iff_draft {source : Bytes} {words : List Int32} :
    assemble source = .ok words ↔
      (read source).problems = [] ∧ (Draft.ofItems (read source).items).problems = [] ∧
        words = (Draft.ofItems (read source).items).words := by
  rw [ofItems_eq]
  exact assemble_ok_iff

/-- A source assembles exactly if its tokens are a sequence of statements, no label is defined twice
and every reference names a label, and its words are the layout of the statements. The exponent of a
floating-point number counts with its first five digits, and where none has more, as it is written.
The words are those of a draft in one pass, and in a program of fewer than 2^31 words every
reference holds the very address of its label. -/
theorem a_source_assembles_to_the_layout_of_its_statements (source : Bytes) (words : List Int32) :
    (assemble source = .ok words ↔ LaysOut leading (Token.ofText source).dropLast words) ∧
    ((∀ t ∈ (Token.ofText source).dropLast, t.kind = .number → ShortExponent t.lexeme) →
      (assemble source = .ok words ↔ LaysOut id (Token.ofText source).dropLast words)) ∧
    (assemble source = .ok words ↔
      (read source).problems = [] ∧ (Draft.ofItems (read source).items).problems = [] ∧
        words = (Draft.ofItems (read source).items).words) ∧
    ∀ ss, (layout ss).length < 2 ^ 31 →
      ∀ name, ((Argument.label name).value (address ss)).toInt = address ss name := by
  refine ⟨assemble_iff_laysOut, ?_, assemble_iff_draft, ?_⟩
  · intro hshort
    rw [assemble_iff_laysOut]
    simp only [LaysOut, parses_leading_iff hshort]
  · intro ss hsmall name
    rw [length_layout] at hsmall
    have hle := address_le_extent ss name
    exact Int32.toInt_ofNat_of_lt (by omega)

/-- The number is 10^90000, with a one in the ten-thousandth place and an exponent of six digits.
The first five of these are taken for the exponent, so that it is read as 1. -/
theorem a_longer_exponent_is_cut :
    let number := Bytes.ofString "0." ++ (List.replicate 9999 48 ++ [49]) ++
      Bytes.ofString "e100000"
    let source := Bytes.ofString "CSTF " ++ number
    let written : Decimal := ⟨false, 1, 90000⟩
    Decimal.Written id number written ∧ Binary32.Overflows written.toRat ∧
      (∀ words, ¬ LaysOut id (Token.ofText source).dropLast words) ∧
      assemble source = .ok [Opcode.cstf.word, 0x3F800000] := by
  intro number source written
  have hdenotes : Numeral.Denotes (Bytes.ofString "100000") 100000 :=
    .plain (by decide +kernel) (by decide +kernel)
  have hwritten : Decimal.Written id number written :=
    written_one_behind_point id 9999 hdenotes
  have hcut : leading 100000 = 10000 := by
    have hlast := Decimal.leading_digit 10000 (d := 0) (by decide)
    rw [Decimal.leading_of_lt (by decide : 10000 < 100000)] at hlast
    exact hlast
  have hread : Decimal.Written leading number ⟨false, 1, 0⟩ := by
    have hone := written_one_behind_point leading 9999 hdenotes
    rw [show ((100000 : Int)).natAbs = 100000 from rfl, hcut] at hone
    exact hone
  have hlarge : Binary32.Overflows written.toRat := by
    have hvalue : written.toRat = 10 ^ (90000 : ℤ) := one_mul _
    rw [hvalue]
    exact Binary32.overflows_pow (by decide)
  have hsource : source = Opcode.cstf.name ++ [32] ++ number := by
    have hname : Bytes.ofString "CSTF " = Opcode.cstf.name ++ [32] := by decide +kernel
    rw [← hname]
  have hstands : Stands .number number := stands_number hwritten.isNumber
  refine ⟨hwritten, hlarge, ?_, ?_⟩
  · rintro words ⟨ss, hparses, -⟩
    have htokens := tokens_of_operand .cstf isSeparator_space hstands
    rw [← hsource] at htokens
    have hspelled : Parses id [ofLexeme (.name, Opcode.cstf.name), ofLexeme (.number, number)] ss :=
      hparses.congr htokens.symm
    obtain ⟨a, hwrites⟩ := exists_writes_of_parses rfl (fun h => by cases h) hspelled
    cases hwrites with
    | int hfloat => exact absurd rfl hfloat
    | float _ hnumber hfits =>
      rw [hnumber.unique hwritten] at hfits
      exact hfits hlarge
  · have hfits : ¬ (⟨false, 1, 0⟩ : Decimal).toBinary32.isInfinite := by decide +kernel
    have hone : (⟨false, 1, 0⟩ : Decimal).toBinary32 = ⟨0x3F800000⟩ := by decide +kernel
    have hwrites : Writes leading .float (ofLexeme (.number, number)) _ :=
      .of_written rfl hread hfits
    rw [hone] at hwrites
    rw [hsource]
    exact assemble_of_operand rfl isSeparator_space hstands hwrites

end TagMachine.Assembly
