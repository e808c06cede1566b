import TagMachine.Program.Load
import TagMachine.Proofs.DecimalText
import TagMachine.Proofs.Layout
import TagMachine.Proofs.ProgramText

/-!
Sources that hold nothing but numbers. The reader of numeric text and the assembler both take such a
source for a list of raw words, so it loads alike under either extension. A program in text is such
a source, and it is read back as the program.
-/

namespace TagMachine

open Decimal (leading)

namespace Assembly

/-! ## Raw words -/

theorem defined_raw (words : List Int32) : defined (words.map Statement.raw) = [] := by
  unfold defined
  rw [List.filterMap_map, List.filterMap_eq_nil_iff]
  intro w _
  rfl

theorem referred_raw (words : List Int32) : referred (words.map Statement.raw) = [] := by
  unfold referred
  rw [List.flatMap_map, List.flatMap_eq_nil_iff]
  intro w _
  rfl

theorem layout_raw (words : List Int32) : layout (words.map Statement.raw) = words := by
  unfold layout
  rw [List.flatMap_map]
  exact List.flatMap_singleton' words

/-- Tokens that are numbers spell nothing but raw words. -/
theorem Spells.of_numbers {ts : List Token} {s : Statement} (h : Spells leading ts s)
    (hts : ∀ t ∈ ts, t.kind = .number) : ∃ w, s = .raw w := by
  cases h with
  | raw => exact ⟨_, rfl⟩
  | label hname | instruction hname =>
    have hnumber := hts _ List.mem_cons_self
    rw [hname] at hnumber
    cases hnumber

theorem Parses.of_numbers {ts : List Token} {ss : List Statement} (h : Parses leading ts ss)
    (hts : ∀ t ∈ ts, t.kind = .number) : ∃ words : List Int32, ss = words.map .raw := by
  induction h with
  | nil => exact ⟨[], rfl⟩
  | cons hs _ ih =>
    obtain ⟨hfirst, hothers⟩ := List.forall_mem_append.mp hts
    obtain ⟨w, rfl⟩ := hs.of_numbers hfirst
    obtain ⟨words, rfl⟩ := ih hothers
    exact ⟨w :: words, rfl⟩

theorem Parses.kind_of_raw {ts : List Token} {words : List Int32}
    (h : Parses leading ts (words.map .raw)) : ∀ t ∈ ts, t.kind = .number := by
  induction words generalizing ts with
  | nil =>
    cases h
    simp
  | cons w words ih =>
    cases h with
    | cons hs hrest =>
      cases hs with
      | raw hkind => exact List.forall_mem_cons.mpr ⟨hkind, ih hrest⟩

/-- Raw words have no labels to put in order. -/
theorem assemble_ok_iff_of_raw {source : Bytes} {words program : List Int32}
    (h : Parses leading (Token.ofText source).dropLast (words.map .raw)) :
    assemble source = .ok program ↔ program = words := by
  rw [assemble_ok_iff_of_parses h, defined_raw, referred_raw, layout_raw]
  simp

end Assembly

namespace Program

open Assembly

theorem parses_of_mapM_ofToken {ts : List Token} {words : Program}
    (h : ts.mapM ofToken = .ok words) : Parses leading ts (words.map .raw) := by
  induction ts generalizing words with
  | nil =>
    cases h
    exact .nil
  | cons t ts ih =>
    obtain ⟨w, rest, hw, hrest, rfl⟩ := mapM_cons_ok_iff.mp h
    obtain ⟨hkind, hdenotes⟩ := ofToken_ok_iff.mp hw
    exact Parses.cons (.raw hkind hdenotes) (ih hrest)

theorem mapM_ofToken_of_parses {ts : List Token} {words : Program}
    (h : Parses leading ts (words.map .raw)) : ts.mapM ofToken = .ok words := by
  induction words generalizing ts with
  | nil =>
    cases h
    rfl
  | cons w words ih =>
    cases h with
    | cons hs hrest =>
      cases hs with
      | raw hkind hdenotes =>
        exact mapM_cons_ok_iff.mpr ⟨w, words, ofToken_ok_iff.mpr ⟨hkind, hdenotes⟩, ih hrest, rfl⟩

/-- A source is read as words exactly if its tokens spell them as raw words. -/
theorem parse_ok_iff_parses {source : Bytes} {words : Program} :
    parse source = .ok words ↔ Parses leading (Token.ofText source).dropLast (words.map .raw) :=
  ⟨parses_of_mapM_ofToken, mapM_ofToken_of_parses⟩

/-- Numeric text assembles to the words it lists. -/
theorem assemble_of_parse {source : Bytes} {words : Program} (h : parse source = .ok words) :
    assemble source = .ok words :=
  (assemble_ok_iff_of_raw (parse_ok_iff_parses.mp h)).mpr rfl

/-- A source of numbers that assembles is numeric text. -/
theorem parse_of_assemble {source : Bytes} {words : Program}
    (hnumbers : ∀ t ∈ (Token.ofText source).dropLast, t.kind = .number)
    (h : assemble source = .ok words) : parse source = .ok words := by
  obtain ⟨ss, hss⟩ := exists_parses_of_assemble h
  obtain ⟨raw, rfl⟩ := hss.of_numbers hnumbers
  obtain rfl := (assemble_ok_iff_of_raw hss).mp h
  exact parse_ok_iff_parses.mpr hss

/-- Numeric text loads as the words it lists from any path that is not one of an image. -/
theorem ofContents_of_parse {path source : Bytes} {words : Program}
    (hpath : Format.ofPath path ≠ .image) (h : parse source = .ok words) :
    ofContents path source = .ok ⟨words, source⟩ := by
  unfold ofContents
  cases hformat : Format.ofPath path with
  | image => exact absurd hformat hpath
  | assembly => simp only [assemble_of_parse h]
  | text => simp only [h]

/-- A source whose tokens are all numbers is read as numeric text exactly if it assembles, and to
the same words. Every numeric text is such a source, so it loads the same under every extension but
that of images. -/
theorem a_source_of_numbers_is_read_as_it_assembles (source : Bytes) :
    ((∀ t ∈ Token.ofText source, t.kind ≠ .eof → t.kind = .number) →
      ∀ words, parse source = .ok words ↔ assemble source = .ok words) ∧
    ∀ words, parse source = .ok words →
      (∀ t ∈ Token.ofText source, t.kind ≠ .eof → t.kind = .number) ∧
        ∀ path, Format.ofPath path ≠ .image → ofContents path source = .ok ⟨words, source⟩ := by
  refine ⟨?_, ?_⟩
  · intro hnumbers words
    refine ⟨assemble_of_parse, parse_of_assemble ?_⟩
    intro t ht
    obtain ⟨hmem, hkind⟩ := Token.mem_dropLast_ofText.mp ht
    exact hnumbers t hmem hkind
  · intro words h
    refine ⟨?_, fun path hpath => ofContents_of_parse hpath h⟩
    intro t hmem hkind
    exact (parse_ok_iff_parses.mp h).kind_of_raw t (Token.mem_dropLast_ofText.mpr ⟨hmem, hkind⟩)

/-- Signs, leading zeros and a comment that looks like other tokens: the list loads alike from both
kinds of file. A fraction is a number too, and both readers refuse it. -/
theorem a_signed_list_loads_alike_and_a_fraction_nowhere :
    let list : Bytes := "+7 // \"x\": GOTO\n-2147483648 007"
    let fraction : Bytes := "1.5 3"
    (∃ words, parse list = .ok words ∧ assemble list = .ok words ∧
      ofContents "a.asm" list = .ok ⟨words, list⟩ ∧ ofContents "a.txt" list = .ok ⟨words, list⟩) ∧
    ∀ words, assemble fraction ≠ .ok words := by
  intro list fraction
  have hlist : parse list = .ok [7, -2147483648, 7] := by decide +kernel
  have hfraction : parse fraction = .error (.notInt32 [49, 46, 53] ⟨1, 1, 0⟩) := by decide +kernel
  obtain ⟨hsame, hloads⟩ := a_source_of_numbers_is_read_as_it_assembles list
  obtain ⟨hnumbers, hpaths⟩ := hloads _ hlist
  refine ⟨⟨_, hlist, (hsame hnumbers _).mp hlist, hpaths _ (by decide +kernel),
    hpaths _ (by decide +kernel)⟩, ?_⟩
  intro words h
  obtain ⟨hsame, -⟩ := a_source_of_numbers_is_read_as_it_assembles fraction
  have hparse := (hsame (by decide +kernel) words).mpr h
  rw [hfraction] at hparse
  cases hparse

/-! ## Programs in text -/

theorem gap_newline (atEnd : Prop) : Gap atEnd [10] := .space (c := Char.ofNat 10) rfl .nil

/-- Behind a newline, the text of a program lists its words: each is a numeral, and the newline
behind it is the gap in front of the next one. -/
theorem lists_newline_text (p : Program) : Lists True (10 :: text p) p := by
  induction p with
  | nil => exact .nil (gap_newline True)
  | cons w p ih =>
    have hlists : Lists True ([10] ++ Bytes.int w.toInt ++ 10 :: text p) (w :: p) :=
      .cons (gap_newline False) (by simp) (Bytes.denotes_int w.toInt) ih
    simpa [text] using hlists

theorem lists_text (p : Program) : Lists False (text p) p := by
  cases p with
  | nil => exact .nil .nil
  | cons w p =>
    have hlists : Lists False ([] ++ Bytes.int w.toInt ++ 10 :: text p) (w :: p) :=
      .cons .nil False.elim (Bytes.denotes_int w.toInt) (lists_newline_text p)
    simpa [text] using hlists

/-- A program in text is read back as it was, so no two programs have the same text. -/
theorem a_program_is_read_back_from_its_text :
    (∀ p : Program, parse (text p) = .ok p) ∧ Function.Injective text := by
  have hparse : ∀ p : Program, parse (text p) = .ok p := fun p => parse_ok_iff.mpr (lists_text p)
  refine ⟨hparse, ?_⟩
  intro p q hpq
  have hsame : (Except.ok p : Except SyntaxError Program) = .ok q := by
    rw [← hparse p, hpq, hparse q]
  exact Except.ok.inj hsame

example : text [-2147483648, 0, 12] = Bytes.ofString "-2147483648\n0\n12\n" := by decide +kernel

end Program

end TagMachine
