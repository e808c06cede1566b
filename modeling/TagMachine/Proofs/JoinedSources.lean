import Mathlib.Data.List.Nodup
import TagMachine.Proofs.Layout
import TagMachine.Proofs.SpacedLexemes

/-!
One source behind another, with a newline between them. The newline ends the last token and the last
comment of the first source, so the statements of both are read as they stand. The words of the
second come behind those of the first, and the addresses in it move up by as many words; numbers
written as targets stay.
-/

namespace TagMachine.Assembly

open Token
open Decimal (leading)

/-! ## Relocated words -/

/-- Whether the word of an item is a reference to a label; nothing if the item takes no word. -/
def Item.refers? : Item → Option Bool
  | .word _ => some false
  | .reference _ _ => some true
  | .label _ _ => none

/-- For each program word of items, whether it came from a reference to a label. -/
def marks (items : List Item) : List Bool := items.filterMap Item.refers?

/-- The value of a word, moved up by `n` if it is marked. -/
def moved (n : Nat) (mark : Bool) (w : Int32) : Int := if mark then w.toInt + n else w.toInt

/-- The values of words, the marked ones moved up by `n`. -/
def relocate (n : Nat) (marks : List Bool) (words : List Int32) : List Int :=
  List.zipWith (moved n) marks words

/-! ## Statements of both sources -/

/-- Two sources with a newline between them hold the statements of both. -/
theorem parses_join {a b : Bytes} {ss ss' : List Statement}
    (ha : Parses leading (Token.ofText a).dropLast ss)
    (hb : Parses leading (Token.ofText b).dropLast ss') :
    Parses leading (Token.ofText (a ++ 10 :: b)).dropLast (ss ++ ss') := by
  obtain ⟨as, has⟩ := exists_cut (Cursor.ofText a) ha.kind_ne_illegal
  obtain ⟨bs, hbs⟩ := exists_cut (Cursor.ofText b) hb.kind_ne_illegal
  apply (ha.append hb).congr
  calc (Token.ofText (a ++ 10 :: b)).dropLast.map unplaced
      = (as ++ bs).map ofLexeme := (has.append_newline hbs).tokens rfl
    _ = as.map ofLexeme ++ bs.map ofLexeme := List.map_append
    _ = (Token.ofText a).dropLast.map unplaced ++ (Token.ofText b).dropLast.map unplaced :=
        congrArg₂ _ (has.tokens rfl).symm (hbs.tokens rfl).symm
    _ = ((Token.ofText a).dropLast ++ (Token.ofText b).dropLast).map unplaced :=
        List.map_append.symm

/-! ## Statements one behind another -/

theorem defined_append (ss ss' : List Statement) :
    defined (ss ++ ss') = defined ss ++ defined ss' := List.filterMap_append

theorem referred_append (ss ss' : List Statement) :
    referred (ss ++ ss') = referred ss ++ referred ss' := List.flatMap_append

theorem extent_append (ss ss' : List Statement) : extent (ss ++ ss') = extent ss + extent ss' := by
  induction ss with
  | nil => simp [extent]
  | cons s ss ih => rw [List.cons_append, extent, ih, extent, Nat.add_assoc]

theorem mem_defined {ss : List Statement} {name : Bytes} :
    name ∈ defined ss ↔ Statement.label name ∈ ss := by
  unfold defined
  rw [List.mem_filterMap]
  constructor
  · rintro ⟨s, hs, hname⟩
    cases s with
    | label n =>
      cases hname
      exact hs
    | raw w => cases hname
    | instruction op args => cases hname
  · intro h
    exact ⟨_, h, rfl⟩

/-- A label of the first statements keeps its address. -/
theorem address_append_of_mem {ss : List Statement} {name : Bytes} (h : name ∈ defined ss)
    (ss' : List Statement) : address (ss ++ ss') name = address ss name := by
  unfold address
  induction ss with
  | nil => cases h
  | cons s ss ih =>
    rw [List.cons_append, List.takeWhile_cons, List.takeWhile_cons]
    by_cases hs : s = .label name
    · simp [hs]
    · have hrest : name ∈ defined ss := by
        rw [mem_defined] at h ⊢
        exact (List.mem_cons.mp h).resolve_left (Ne.symm hs)
      simp only [decide_eq_true_eq, hs, ne_eq, not_false_eq_true, if_true, extent, ih hrest]

/-- A label of other statements has all the words of the first ones in front of it. -/
theorem address_append_of_not_mem {ss : List Statement} {name : Bytes} (h : name ∉ defined ss)
    (ss' : List Statement) : address (ss ++ ss') name = extent ss + address ss' name := by
  have hall : ∀ s ∈ ss, decide (s ≠ .label name) = true := by
    intro s hs
    rw [decide_eq_true_eq]
    rintro rfl
    exact h (mem_defined.mpr hs)
  rw [address, List.takeWhile_append_of_pos hall, extent_append, address]

theorem words_congr {s : Statement} {f g : Bytes → Nat}
    (h : ∀ name ∈ s.references, f name = g name) :
    s.words f = s.words g := by
  cases s with
  | raw w => rfl
  | label name => rfl
  | instruction op args =>
    refine congrArg (op.word :: ·) (List.map_congr_left fun a ha => ?_)
    cases a with
    | word w => rfl
    | label name =>
      have hmem : name ∈ args.filterMap Argument.label? := List.mem_filterMap.mpr ⟨_, ha, rfl⟩
      exact congrArg Int32.ofNat (h name hmem)

theorem flatMap_words_congr {ss : List Statement} {f g : Bytes → Nat}
    (h : ∀ name ∈ referred ss, f name = g name) :
    ss.flatMap (·.words f) = ss.flatMap (·.words g) := by
  apply List.flatMap_congr
  intro s hs
  exact words_congr fun name hname => h name (List.mem_flatMap.mpr ⟨s, hs, hname⟩)

/-- Behind other statements, statements are laid out with addresses that are so much higher. -/
theorem layout_append {ss ss' : List Statement} (hrefs : ∀ name ∈ referred ss, name ∈ defined ss)
    (hapart : ∀ name ∈ referred ss', name ∉ defined ss) :
    layout (ss ++ ss') =
      layout ss ++ ss'.flatMap (·.words fun name => extent ss + address ss' name) := by
  unfold layout
  rw [List.flatMap_append,
    flatMap_words_congr fun name hname => address_append_of_mem (hrefs name hname) ss',
    flatMap_words_congr fun name hname => address_append_of_not_mem (hapart name hname) ss']

/-! ## Marks -/

theorem marks_unplaced (items : List Item) : marks (items.map Item.unplaced) = marks items := by
  have hitem : ∀ item : Item, item.unplaced.refers? = item.refers? := by
    intro item
    cases item <;> rfl
  simp [marks, List.filterMap_map, hitem]

theorem marks_append (as bs : List Item) : marks (as ++ bs) = marks as ++ marks bs :=
  List.filterMap_append

theorem marks_instruction (op : Opcode) (args : List Argument) :
    marks (Statement.instruction op args).items = false :: args.map fun a => a.label?.isSome := by
  have hitem : ∀ a : Argument, a.item.refers? = some a.label?.isSome := by
    intro a
    cases a <;> rfl
  have hopcode : marks (Statement.instruction op args).items =
      false :: (args.map Argument.item).filterMap Item.refers? := rfl
  rw [hopcode, List.filterMap_map, ← List.filterMap_eq_map]
  simp only [Function.comp_def, hitem]

theorem length_marks (s : Statement) : (marks s.items).length = s.size := by
  cases s with
  | raw w => rfl
  | label name => rfl
  | instruction op args =>
    rw [marks_instruction]
    simp [Statement.size, Nat.add_comm]

/-- An operand word with a higher address for its label is the word moved up. -/
theorem toInt_value {n : Nat} {f : Bytes → Nat} {a : Argument}
    (h : ∀ name, a.label? = some name → n + f name < 2 ^ 31) :
    (a.value fun name => n + f name).toInt = moved n a.label?.isSome (a.value f) := by
  cases a with
  | word w => rfl
  | label name =>
    have hlt := h name rfl
    simp only [Argument.value, Argument.label?, Option.isSome_some, moved, if_true]
    rw [Int32.toInt_ofNat_of_lt hlt, Int32.toInt_ofNat_of_lt (by omega), Int.natCast_add,
      Int.add_comm]

theorem relocate_words {n : Nat} {f : Bytes → Nat} {s : Statement}
    (h : ∀ name ∈ s.references, n + f name < 2 ^ 31) :
    (s.words fun name => n + f name).map Int32.toInt = relocate n (marks s.items) (s.words f) := by
  cases s with
  | raw w => rfl
  | label name => rfl
  | instruction op args =>
    rw [marks_instruction, Statement.words, Statement.words, relocate, List.zipWith_cons_cons,
      List.map_cons, List.map_map, List.zipWith_map, List.zipWith_self]
    refine congrArg (op.word.toInt :: ·) (List.map_congr_left fun a ha => ?_)
    exact toInt_value fun name hname => h name (List.mem_filterMap.mpr ⟨a, ha, hname⟩)

/-- Statements with higher addresses for their labels are their words relocated. -/
theorem relocate_flatMap_words {n : Nat} {f : Bytes → Nat} {ss : List Statement}
    (h : ∀ name ∈ referred ss, n + f name < 2 ^ 31) :
    (ss.flatMap (·.words fun name => n + f name)).map Int32.toInt =
      relocate n (marks (ss.flatMap Statement.items)) (ss.flatMap (·.words f)) := by
  induction ss with
  | nil => rfl
  | cons s ss ih =>
    have hs := fun name hname => h name (List.mem_append_left (referred ss) hname)
    have hss := fun name hname => h name (List.mem_append_right s.references hname)
    have hlength : (marks s.items).length = (s.words f).length := by
      rw [length_marks, length_words]
    rw [List.flatMap_cons, List.flatMap_cons, List.flatMap_cons, List.map_append, relocate_words hs,
      ih hss, marks_append, relocate, relocate, relocate, List.zipWith_append hlength]

theorem length_marks_items (ss : List Statement) :
    (marks (ss.flatMap Statement.items)).length = extent ss := by
  induction ss with
  | nil => rfl
  | cons s ss ih =>
    rw [List.flatMap_cons, marks_append, List.length_append, length_marks, ih, extent]

/-! ## Sources one behind another -/

theorem definedIn_read {source : Bytes} {ss : List Statement}
    (h : Parses leading (Token.ofText source).dropLast ss) :
    definedIn (read source).items = defined ss := by
  rw [← definedIn_unplaced, (clean_read h).2, definedIn_items]

theorem marks_read {source : Bytes} {ss : List Statement}
    (h : Parses leading (Token.ofText source).dropLast ss) :
    marks (read source).items = marks (ss.flatMap Statement.items) := by
  rw [← marks_unplaced, (clean_read h).2]

/-- Where the labels of two sources are in order, those of both together are exactly if no name is
defined in both. -/
theorem assemble_join_ok_iff {a b : Bytes} {ss ss' : List Statement}
    (ha : Parses leading (Token.ofText a).dropLast ss)
    (hb : Parses leading (Token.ofText b).dropLast ss')
    (hnodup : (defined ss).Nodup) (hrefs : ∀ name ∈ referred ss, name ∈ defined ss)
    (hnodup' : (defined ss').Nodup) (hrefs' : ∀ name ∈ referred ss', name ∈ defined ss')
    (w : List Int32) :
    assemble (a ++ 10 :: b) = .ok w ↔
      (∀ name ∈ defined ss, name ∉ defined ss') ∧ w = layout (ss ++ ss') := by
  rw [assemble_ok_iff_of_parses (parses_join ha hb), defined_append, referred_append]
  constructor
  · rintro ⟨hunique, -, hw⟩
    exact ⟨fun name hname => List.disjoint_of_nodup_append hunique hname, hw⟩
  · rintro ⟨hapart, hw⟩
    refine ⟨List.Nodup.append hnodup hnodup' hapart, ?_, hw⟩
    intro name hname
    rcases List.mem_append.mp hname with hname | hname
    · exact List.mem_append_left _ (hrefs name hname)
    · exact List.mem_append_right _ (hrefs' name hname)

/-- Two sources that assemble, with a newline between them, assemble exactly if no name is defined
in both. The words are then those of the first, and those of the second with the length of the first
added to just the references to labels. -/
theorem joined_sources_assemble_to_relocated_programs (a b : Bytes) (u v : List Int32)
    (ha : assemble a = .ok u) (hb : assemble b = .ok v) :
    ((∃ w, assemble (a ++ 10 :: b) = .ok w) ↔
      ∀ name ∈ definedIn (read a).items, name ∉ definedIn (read b).items) ∧
    (marks (read b).items).length = v.length ∧
    ∀ w, assemble (a ++ 10 :: b) = .ok w → u.length + v.length < 2 ^ 31 →
      w.map Int32.toInt =
        u.map Int32.toInt ++ relocate u.length (marks (read b).items) v := by
  obtain ⟨ss, hss⟩ := exists_parses_of_assemble ha
  obtain ⟨ss', hss'⟩ := exists_parses_of_assemble hb
  obtain ⟨hnodup, hrefs, rfl⟩ := (assemble_ok_iff_of_parses hss).mp ha
  obtain ⟨hnodup', hrefs', rfl⟩ := (assemble_ok_iff_of_parses hss').mp hb
  have hjoin := assemble_join_ok_iff hss hss' hnodup hrefs hnodup' hrefs'
  rw [definedIn_read hss, definedIn_read hss', marks_read hss', length_marks_items, length_layout,
    length_layout]
  refine ⟨?_, rfl, ?_⟩
  · simp only [hjoin, exists_and_left, exists_eq, and_true]
  · intro w hw hsmall
    obtain ⟨hapart, rfl⟩ := (hjoin w).mp hw
    -- a label of the second source is none of the first, so its references all move
    have hmoves : ∀ name ∈ referred ss', name ∉ defined ss := fun name hname hmem =>
      hapart name hmem (hrefs' name hname)
    have hfits : ∀ name ∈ referred ss', extent ss + address ss' name < 2 ^ 31 := by
      intro name _
      have := address_le_extent ss' name
      omega
    rw [layout_append hrefs hmoves, List.map_append, relocate_flatMap_words hfits]
    rfl

/-- The first source ends in a comment and an instruction without operands, the second starts with a
label; of its two targets only the name moves. -/
theorem a_loop_behind_another_moves_its_label :
    let a : Bytes := "x: GOTO x STOP // end"
    let b : Bytes := "y: GOTO y GOTO 0"
    assemble a = .ok [16, 0, 25] ∧ assemble b = .ok [16, 0, 16, 0] ∧
      ∃ w, assemble (a ++ 10 :: b) = .ok w ∧ w.map Int32.toInt = [16, 0, 25, 16, 3, 16, 0] := by
  intro a b
  have ha : assemble a = .ok [16, 0, 25] := by decide +kernel
  have hb : assemble b = .ok [16, 0, 16, 0] := by decide +kernel
  obtain ⟨hiff, -, hwords⟩ := joined_sources_assemble_to_relocated_programs a b _ _ ha hb
  obtain ⟨w, hw⟩ := hiff.mpr (by decide +kernel)
  refine ⟨ha, hb, w, hw, ?_⟩
  rw [hwords w hw (by decide)]
  decide +kernel

end TagMachine.Assembly
