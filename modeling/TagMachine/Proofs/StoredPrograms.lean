import TagMachine.Proofs.ImageRoundTrip
import TagMachine.Proofs.Layout
import TagMachine.Proofs.WrittenFiles
import TagMachine.Session

/-!
What becomes of a program that a session stores as an image. The image is always written, but it
loads again only if an image can hold the program: its source has to be valid text and its words not
too many. A program that loads has no more words than its source has bytes.
-/

namespace TagMachine

/-! ## Programs are no longer than their sources -/

theorem Cursor.length_tokens_le (c : Cursor) : c.tokens.length ≤ c.rest.length + 1 := by
  fun_induction Cursor.tokens c with
  | case1 c heof => simp
  | case2 c hmore ih =>
    have hlt := length_next_lt hmore
    rw [List.length_cons]
    omega

theorem Token.length_ofText_le (source : Bytes) :
    (Token.ofText source).dropLast.length ≤ source.length := by
  have hle : (Token.ofText source).length ≤ source.length + 1 :=
    Cursor.length_tokens_le (Cursor.ofText source)
  rw [List.length_dropLast]
  omega

namespace Assembly

open Decimal (leading)

theorem WritesAll.length_eq {kinds : List Opcode.Operand} {ts : List Token} {args : List Argument}
    (h : WritesAll leading kinds ts args) : args.length = ts.length := by
  induction h with
  | nil => rfl
  | cons _ _ ih => rw [List.length_cons, List.length_cons, ih]

theorem Spells.length_items_le {ts : List Token} {s : Statement} (h : Spells leading ts s) :
    s.items.length ≤ ts.length := by
  cases h with
  | raw => exact Nat.le_refl 1
  | label => exact Nat.le_succ 1
  | instruction _ _ hargs => simp [Statement.items, hargs.length_eq]

theorem Parses.length_items_le {ts : List Token} {ss : List Statement} (h : Parses leading ts ss) :
    (ss.flatMap Statement.items).length ≤ ts.length := by
  induction h with
  | nil => exact Nat.le_refl 0
  | cons hs _ ih =>
    have := hs.length_items_le
    rw [List.flatMap_cons, List.length_append, List.length_append]
    omega

theorem length_words_le {source : Bytes} {words : List Int32} (h : assemble source = .ok words) :
    words.length ≤ source.length := by
  obtain ⟨ss, hss⟩ := exists_parses_of_assemble h
  obtain ⟨-, -, rfl⟩ := assemble_ok_iff.mp h
  have hitems : (read source).items.length = (ss.flatMap Statement.items).length := by
    rw [← (clean_read hss).2, List.length_map]
  -- a label takes no word, every other item takes one and has a token of its own
  calc (fix (read source).items).length
      ≤ (read source).items.length := List.length_filterMap_le ..
    _ = (ss.flatMap Statement.items).length := hitems
    _ ≤ (Token.ofText source).dropLast.length := hss.length_items_le
    _ ≤ source.length := Token.length_ofText_le source

end Assembly

namespace Program

theorem length_of_mapM_ofToken {ts : List Token} {words : Program}
    (h : ts.mapM ofToken = .ok words) : words.length = ts.length := by
  induction ts generalizing words with
  | nil =>
    cases h
    rfl
  | cons t ts ih =>
    rw [List.mapM_cons] at h
    cases hfirst : ofToken t with
    | error e =>
      rw [hfirst] at h
      cases h
    | ok w =>
      cases hothers : ts.mapM ofToken with
      | error e =>
        rw [hfirst, hothers] at h
        cases h
      | ok others =>
        rw [hfirst, hothers] at h
        cases h
        rw [List.length_cons, List.length_cons, ih hothers]

/-- A program that loads from a source has no more words than the source has bytes. -/
theorem length_words_le_of_ofContents {path data : Bytes} {p : Loaded}
    (hpath : Format.ofPath path ≠ .image) (h : ofContents path data = .ok p) :
    p.words.length ≤ p.source.length := by
  unfold ofContents at h
  split at h
  · next himage => exact absurd himage hpath
  · split at h
    · next hwords =>
      cases h
      exact Assembly.length_words_le hwords
    · cases h
  · split at h
    · next words hwords =>
      cases h
      rw [length_of_mapM_ofToken hwords]
      exact Token.length_ofText_le data
    · cases h

end Program

namespace Session

/-! ## Storing and loading -/

/-- Loading the image of a program gives back the program, or nothing. -/
theorem ofContents_encode {path : Bytes} {p : Program.Loaded}
    (hpath : Program.Format.ofPath path = .image) (hwords : p.words.length < 2 ^ 64)
    (hsource : p.source.length < 2 ^ 64) :
    Program.ofContents path (Image.encode p.words p.source) =
      if Utf8.isValid p.source ∧ p.words.length ≤ Cbor.maxCount then .ok p
      else .error (.image path .notAnImage) := by
  unfold Program.ofContents
  rw [hpath, Image.decode_encode hwords hsource]
  by_cases hfits : Utf8.isValid p.source ∧ p.words.length ≤ Cbor.maxCount
  · simp only [if_pos hfits]
  · simp only [if_neg hfits]

/-- A session that may write its output stores the image of the program there. -/
theorem run_store {o : Options} {files : FileTree} {p : Program.Loaded} (s : Setting)
    (hlist : o.list = false) (hload : Program.load o.program (files.read o.program) = .ok p)
    (houtput : o.output ≠ []) (hwritable : files.Writable o.output) :
    (run o s files).error = none ∧
      (run o s files).files.read o.output = .ok (Image.encode p.words p.source) := by
  obtain ⟨written, hwritten⟩ := hwritable.write (Image.encode p.words p.source)
  have hplan : plan o s.palette p = .store o.output (Image.encode p.words p.source) := by
    unfold plan
    rw [hlist, if_neg Bool.false_ne_true, if_neg (by simpa using houtput)]
  unfold run
  rw [hload]
  dsimp only
  rw [hplan, follow, hwritten]
  exact ⟨rfl, FileTree.read_of_write hwritten⟩

/-- Storing a program that loads from a source never fails, and the image loads again as the same
program with the same source exactly if the source is valid text and there are at most 131072 words.
Lengths are written in 64 bits. -/
theorem a_stored_program_loads_again_exactly_if_an_image_can_hold_it {o : Options}
    {files : FileTree} {p : Program.Loaded} (s : Setting) (hlist : o.list = false)
    (hprogram : Program.Format.ofPath o.program ≠ .image)
    (hload : Program.load o.program (files.read o.program) = .ok p)
    (houtput : Program.Format.ofPath o.output = .image) (hwritable : files.Writable o.output)
    (hsource : p.source.length < 2 ^ 64) :
    (run o s files).error = none ∧
    (Program.load o.output ((run o s files).files.read o.output) = .ok p ↔
      p.source.toByteArray.IsValidUTF8 ∧ p.words.length ≤ 131072) ∧
    (¬ (p.source.toByteArray.IsValidUTF8 ∧ p.words.length ≤ 131072) →
      Program.load o.output ((run o s files).files.read o.output) =
        .error (.image o.output .notAnImage)) := by
  -- a path without an extension is none of an image
  have hne : o.output ≠ [] := by
    intro hnil
    rw [hnil] at houtput
    exact absurd houtput (by decide +kernel)
  obtain ⟨herror, hread⟩ := run_store s hlist hload hne hwritable
  have hwords : p.words.length < 2 ^ 64 := by
    cases hdata : files.read o.program with
    | error e =>
      rw [hdata] at hload
      cases hload
    | ok data =>
      rw [hdata] at hload
      exact Nat.lt_of_le_of_lt (Program.length_words_le_of_ofContents hprogram hload) hsource
  have hagain := ofContents_encode houtput hwords hsource
  rw [hread, Program.load, hagain, ← Utf8.isValid_iff]
  refine ⟨herror, ?_, ?_⟩
  · constructor
    · intro h
      split at h
      · next hfits => exact hfits
      · cases h
    · intro hfits
      exact if_pos hfits
  · intro hnot
    exact if_neg hnot

/-- Options that store a program without colours. -/
def storing (program output : Bytes) : Options :=
  ⟨program, [], false, false, false, output, 0, 1, true, false⟩

theorem an_assembled_program_loads_again_from_a_directory :
    let files : FileTree := [("a.asm", .file "CSTI 7 // é"), ("out", .directory [])]
    Program.load "out/a.tvmi"
        ((run (storing "a.asm" "out/a.tvmi") ⟨⟨false⟩, 0, []⟩ files).files.read "out/a.tvmi") =
      .ok ⟨[0, 7], "CSTI 7 // é"⟩ := by
  intro files
  have hload : Program.load "a.asm" (files.read "a.asm") = .ok ⟨[0, 7], "CSTI 7 // é"⟩ := by
    decide +kernel
  have hvalid : Utf8.isValid "CSTI 7 // é" := by decide +kernel
  have hwritable : files.Writable "out/a.tvmi" := ⟨[], _, rfl⟩
  have hstored := a_stored_program_loads_again_exactly_if_an_image_can_hold_it
    (o := storing "a.asm" "out/a.tvmi") ⟨⟨false⟩, 0, []⟩ rfl (by decide +kernel) hload
    (by decide +kernel) hwritable (by decide +kernel)
  exact hstored.2.1.mpr ⟨Utf8.isValid_iff.mp hvalid, by decide⟩

theorem a_comment_that_is_no_text_makes_an_image_that_does_not_load :
    let files : FileTree := [("a.txt", .file [48, 32, 47, 47, 255])]
    let outcome := run (storing "a.txt" "a.tvmi") ⟨⟨false⟩, 0, []⟩ files
    Program.load "a.txt" (files.read "a.txt") = .ok ⟨[0], [48, 32, 47, 47, 255]⟩ ∧
      outcome.error = none ∧
      Program.load "a.tvmi" (outcome.files.read "a.tvmi") =
        .error (.image "a.tvmi" .notAnImage) := by
  decide +kernel

end Session

end TagMachine
