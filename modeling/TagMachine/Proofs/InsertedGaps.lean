import TagMachine.Proofs.NumericSources
import TagMachine.Proofs.SpacedLexemes

/-!
Whitespace and comments put between tokens. A lexeme is a token because of its own bytes and of the
one character behind it, so a gap that starts with a whitespace character may be put in wherever a
token starts or ends: the text is made of the same lexemes as before, and both readers find the same
program in it.
-/

namespace TagMachine

/-! ## Longer gaps -/

/-- A gap whose comments are all ended goes on with any other. -/
theorem Gap.append {a b : Bytes} {atEnd : Prop} (ha : Gap False a) (hb : Gap atEnd b) :
    Gap atEnd (a ++ b) := by
  induction ha with
  | nil => exact hb
  | space hspace _ ih =>
    rw [List.append_assoc]
    exact .space hspace ih
  | @comment body rest hbody hstop _ ih =>
    rw [List.cons_append, List.cons_append, List.append_assoc]
    refine .comment hbody (Or.inl ?_) ih
    have hnewline : rest.head? = some 10 := hstop.resolve_right (fun h => h.2)
    rw [List.head?_append, hnewline, Option.some_or]

theorem Gap.atEnd {a : Bytes} (h : Gap False a) : Gap True a := by
  have hnil := h.append (.nil : Gap True [])
  rw [List.append_nil] at hnil
  exact hnil

/-- The first line of a gap, and the gap that is left behind it. -/
theorem Gap.exists_line {w : Bytes} (h : Gap False w) :
    ∃ line rest, w = line ++ rest ∧ 10 ∉ line ∧ (rest.head? = some 10 ∨ rest = []) ∧
      Gap False rest := by
  induction h with
  | nil => exact ⟨[], [], rfl, by simp, Or.inr rfl, .nil⟩
  | @space c rest hspace hrest ih =>
    by_cases hc : c = Char.ofNat 10
    · subst hc
      exact ⟨[], _, rfl, by simp, Or.inl rfl, .space hspace hrest⟩
    · -- no byte of another character is a newline
      obtain ⟨line, tail, rfl, hline, hstop, htail⟩ := ih
      refine ⟨Utf8.encode c ++ line, tail, by rw [List.append_assoc], ?_, hstop, htail⟩
      rw [List.mem_append]
      rintro (hmem | hmem)
      · apply hc
        have hcode : c.toNat = 10 := Utf8.toNat_of_mem_encode hmem (by decide)
        rw [← hcode, Char.ofNat_toNat]
      · exact hline hmem
  | @comment body rest hbody hstop hrest _ =>
    refine ⟨47 :: 47 :: body, rest, rfl, ?_, Or.inl (hstop.resolve_right fun h => h.2), hrest⟩
    simpa using hbody

/-- At the end of a text a gap may go on, also where that lengthens its last comment. -/
theorem Gap.append_atEnd {a w : Bytes} (ha : Gap True a) (hw : Gap False w) :
    Gap True (a ++ w) := by
  induction ha with
  | nil => exact hw.atEnd
  | space hspace _ ih =>
    rw [List.append_assoc]
    exact .space hspace ih
  | @comment body rest hbody hstop _ ih =>
    rw [List.cons_append, List.cons_append, List.append_assoc]
    rcases hstop with hnewline | ⟨rfl, -⟩
    · refine .comment hbody (Or.inl ?_) ih
      rw [List.head?_append, hnewline, Option.some_or]
    · -- the comment takes the first line of what is put behind it
      obtain ⟨line, rest, rfl, hline, hstop, hrest⟩ := hw.exists_line
      rw [List.nil_append, ← List.append_assoc]
      refine .comment ?_ (hstop.imp_right fun h => ⟨h, trivial⟩) hrest.atEnd
      rw [List.mem_append]
      exact fun h => h.elim hbody hline

/-! ## Offsets -/

theorem Position.offset_advance (p : Position) (b : Bytes) :
    (p.advance b).offset = p.offset + b.length := by
  induction b generalizing p with
  | nil => rfl
  | cons x b ih =>
    have hnext : (p.next x).offset = p.offset + 1 := by
      unfold Position.next
      split <;> rfl
    have hcons : p.advance (x :: b) = (p.next x).advance b := rfl
    rw [hcons, ih, hnext, List.length_cons]
    omega

namespace Cursor

/-- Behind what is skipped, the offset is higher by as much as the rest is shorter. -/
theorem offset_skip (c : Cursor) (n : Nat) :
    (c.skip n).pos.offset + (c.skip n).rest.length = c.pos.offset + c.rest.length := by
  simp only [skip, Position.offset_advance, List.length_take, List.length_drop]
  omega

theorem offset_skipBlanks (c : Cursor) :
    c.skipBlanks.pos.offset + c.skipBlanks.rest.length = c.pos.offset + c.rest.length := by
  obtain ⟨n, hskip, -⟩ := c.skipBlanks_eq_skip
  rw [hskip]
  exact c.offset_skip n

theorem pos_next (c : Cursor) : c.next.1.pos = c.skipBlanks.pos := by
  unfold next
  dsimp only
  split <;> rfl

theorem offset_next (c : Cursor) :
    c.next.2.pos.offset + c.next.2.rest.length = c.pos.offset + c.rest.length := by
  rw [← c.offset_skipBlanks]
  unfold next
  dsimp only
  split
  · rfl
  · exact c.skipBlanks.offset_skip _

/-- The token at the end of a text. -/
theorem unplaced_next_of_rest_eq_nil {c : Cursor} (h : c.skipBlanks.rest = []) :
    c.next.1.unplaced = ⟨.eof, [], [], .start⟩ := by
  simp [next, h, Token.unplaced]

theorem map_unplaced_tokens (c : Cursor) :
    c.tokens.map Token.unplaced =
      c.tokens.dropLast.map Token.unplaced ++ [⟨.eof, [], [], .start⟩] := by
  by_cases hnil : c.skipBlanks.rest = []
  · rw [dropLast_tokens_of_nil hnil, tokens, dif_pos (next_of_rest_eq_nil hnil), List.map_singleton,
      unplaced_next_of_rest_eq_nil hnil]
    rfl
  · have hlt := length_next_lt (kind_next_ne_eof hnil)
    rw [dropLast_tokens_of_ne_nil hnil, tokens_of_ne_nil hnil, List.map_cons, List.map_cons,
      List.cons_append, map_unplaced_tokens c.next.2]
termination_by c.rest.length

theorem le_offset_of_mem_tokens {c : Cursor} {t : Token} (h : t ∈ c.tokens) :
    c.pos.offset ≤ t.pos.offset := by
  have hpos := c.pos_next
  have hblanks := c.offset_skipBlanks
  have hskipped := c.length_skipBlanks_le
  fun_induction tokens c with
  | case1 c heof =>
    rw [List.mem_singleton.mp h, hpos]
    omega
  | case2 c hmore ih =>
    rcases List.mem_cons.mp h with rfl | h
    · rw [hpos]
      omega
    · have hlater := ih h (pos_next _) (offset_skipBlanks _) (length_skipBlanks_le _)
      have hnext := c.offset_next
      have hlt := length_next_lt hmore
      omega

end Cursor

namespace Token

/-! ## Where two texts meet -/

/-- The two texts together are made of these lexemes, and where they meet a token starts or ends. -/
inductive Seam : Bytes → Bytes → List (Kind × Bytes) → Prop
  | atEnd {gap : Bytes} (hgap : Gap True gap) : Seam gap [] []
  | start {gap lexeme rest : Bytes} {k : Kind} {ls : List (Kind × Bytes)} (hgap : Gap False gap)
      (hstands : StandsBefore rest k lexeme) (hrest : Cut rest ls) :
      Seam gap (lexeme ++ rest) ((k, lexeme) :: ls)
  | stop {gap lexeme rest : Bytes} {k : Kind} {ls : List (Kind × Bytes)} (hgap : Gap False gap)
      (hstands : StandsBefore rest k lexeme) (hrest : Cut rest ls) :
      Seam (gap ++ lexeme) rest ((k, lexeme) :: ls)
  | later {gap lexeme a b : Bytes} {k : Kind} {ls : List (Kind × Bytes)} (hgap : Gap False gap)
      (hstands : StandsBefore (a ++ b) k lexeme) (hseam : Seam a b ls) :
      Seam (gap ++ (lexeme ++ a)) b ((k, lexeme) :: ls)

theorem Seam.cut {a b : Bytes} {ls : List (Kind × Bytes)} (h : Seam a b ls) : Cut (a ++ b) ls := by
  induction h with
  | atEnd hgap =>
    rw [List.append_nil]
    exact .nil hgap
  | start hgap hstands hrest => exact .cons hgap hstands hrest
  | stop hgap hstands hrest =>
    rw [List.append_assoc]
    exact .cons hgap hstands hrest
  | later hgap hstands _ ih =>
    rw [List.append_assoc, List.append_assoc]
    exact .cons hgap hstands ih

/-- The end token stands at the end of the text. -/
theorem seam_atEnd {c : Cursor} {a b : Bytes} (hnil : c.skipBlanks.rest = []) (hc : c.rest = a ++ b)
    {t : Token} (ht : t ∈ c.tokens)
    (hmeet : t.pos.offset = c.pos.offset + a.length ∨ t.stop = c.pos.offset + a.length) :
    Seam a b [] := by
  obtain ⟨gap, hsplit, hgap, -⟩ := c.exists_gap
  rw [hnil, List.append_nil] at hsplit
  rw [hnil, eq_self, ← hsplit, hc] at hgap
  rw [Cursor.tokens, dif_pos (Cursor.next_of_rest_eq_nil hnil), List.mem_singleton] at ht
  have hlexeme : t.lexeme = [] := by
    rw [ht]
    exact congrArg Token.lexeme (Cursor.unplaced_next_of_rest_eq_nil hnil)
  obtain rfl : b = [] := by
    have hoffset := c.offset_skipBlanks
    rw [hnil, hc, List.length_nil, List.length_append, ← c.pos_next, ← ht] at hoffset
    rw [stop, hlexeme, List.length_nil] at hmeet
    exact List.length_eq_zero_iff.mp (by omega)
  rw [List.append_nil] at hgap
  exact .atEnd hgap

/-- Where the next token starts and stops, if it is not illegal. -/
theorem offset_next_of_standsBefore {c : Cursor} {gap l : Bytes}
    (hsplit : c.rest = gap ++ (l ++ c.next.2.rest)) (hskip : c.skipBlanks.rest = l ++ c.next.2.rest)
    (hlexeme : c.next.1.lexeme = l) :
    c.next.1.pos.offset = c.pos.offset + gap.length ∧
      c.next.1.stop = c.pos.offset + (gap ++ l).length ∧
      c.next.2.pos.offset = c.pos.offset + (gap ++ l).length := by
  have hstart := c.offset_skipBlanks
  have hnext := c.offset_next
  rw [hskip, ← c.pos_next] at hstart
  rw [hsplit] at hstart hnext
  unfold stop
  simp only [hlexeme, List.length_append] at hstart hnext ⊢
  omega

/-- The tokens from a cursor on show where the text can be taken apart. -/
theorem exists_seam {c : Cursor} {a b : Bytes} (hc : c.rest = a ++ b)
    (hlegal : ∀ t ∈ c.tokens, t.kind ≠ .illegal) {t : Token} (ht : t ∈ c.tokens)
    (hmeet : t.pos.offset = c.pos.offset + a.length ∨ t.stop = c.pos.offset + a.length) :
    ∃ ls, Seam a b ls := by
  by_cases hnil : c.skipBlanks.rest = []
  · exact ⟨[], seam_atEnd hnil hc ht hmeet⟩
  · rw [Cursor.tokens_of_ne_nil hnil] at hlegal ht
    obtain ⟨hfirst, hothers⟩ := List.forall_mem_cons.mp hlegal
    obtain ⟨gap, k, l, hsplit, hskip, hgap, hstands, hlexeme⟩ := exists_standsBefore hnil hfirst
    obtain ⟨hstart, hstop, hnext⟩ := offset_next_of_standsBefore hsplit hskip hlexeme
    have htext : a ++ b = gap ++ (l ++ c.next.2.rest) := by rw [← hc, hsplit]
    rcases List.mem_cons.mp ht with rfl | ht
    · obtain ⟨ls, hcut⟩ := exists_cut c.next.2 fun u hu => hothers u (List.dropLast_subset _ hu)
      rcases hmeet with hmeet | hmeet
      · obtain ⟨rfl, rfl⟩ := List.append_inj htext (by omega)
        exact ⟨_, .start hgap hstands hcut⟩
      · rw [← List.append_assoc] at htext
        obtain ⟨rfl, rfl⟩ := List.append_inj htext (by omega)
        exact ⟨_, .stop hgap hstands hcut⟩
    · -- a later token: the first text holds the whole lexeme
      have hlength : (gap ++ l).length ≤ a.length := by
        have := Cursor.le_offset_of_mem_tokens ht
        unfold stop at hmeet
        omega
      rw [← List.append_assoc] at htext
      obtain ⟨a, rfl⟩ : gap ++ l <+: a :=
        List.prefix_of_prefix_length_le ⟨_, htext.symm⟩ (List.prefix_append a b) hlength
      rw [List.append_assoc (gap ++ l), List.append_cancel_left_eq] at htext
      have hlt : c.next.2.rest.length < c.rest.length :=
        Cursor.length_next_lt (Cursor.kind_next_ne_eof hnil)
      rw [List.length_append] at hmeet
      obtain ⟨ls, hseam⟩ := exists_seam htext.symm hothers ht (by omega)
      rw [← htext] at hstands
      rw [List.append_assoc]
      exact ⟨_, .later hgap hstands hseam⟩
termination_by c.rest.length

/-! ## A gap at the seam -/

theorem isEnd_gap_append {gap w : Bytes} {atEnd : Prop} (hgap : Gap atEnd gap)
    (hspace : w.startsWithSpace) (rest : Bytes) : isEnd (gap ++ (w ++ rest)) := by
  by_cases hnil : gap = []
  · rw [hnil]
    exact isEnd_of_startsWithSpace (startsWithSpace_append hspace rest)
  · exact hgap.isEnd fun h => absurd h hnil

/-- Whether a token may end in front of a lexeme does not hang on what follows the lexeme. -/
theorem StandsBefore.isEnd_congr {gap l rest : Bytes} {k : Kind} (hgap : Gap False gap)
    (h : StandsBefore rest k l) (hend : isEnd (gap ++ (l ++ rest))) (rest' : Bytes) :
    isEnd (gap ++ (l ++ rest')) := by
  by_cases hnil : gap = []
  · rcases h with ⟨-, rfl⟩ | ⟨⟨⟨a, tail, rfl, hplain⟩, -⟩, -⟩
    · rw [hnil]
      rfl
    · -- every other lexeme starts with a byte that ends nothing
      rw [hnil, List.nil_append, List.cons_append, hplain.isEnd] at hend
      cases hend
  · exact hgap.isEnd fun h => absurd h hnil

/-- A token that may end in front of both texts may end there with a gap between them. -/
theorem Seam.isEnd_insert {a b w : Bytes} {ls : List (Kind × Bytes)} (h : Seam a b ls)
    (hspace : w.startsWithSpace) (hend : isEnd (a ++ b)) : isEnd (a ++ (w ++ b)) := by
  cases h with
  | atEnd hgap => exact isEnd_gap_append hgap hspace _
  | start hgap => exact isEnd_gap_append hgap hspace _
  | stop hgap hstands =>
    rw [List.append_assoc] at hend ⊢
    exact hstands.isEnd_congr hgap hend _
  | later hgap hstands =>
    rw [List.append_assoc, List.append_assoc] at hend ⊢
    exact hstands.isEnd_congr hgap hend _

theorem Cut.gap_append {w b : Bytes} {ls : List (Kind × Bytes)} (hw : Gap False w) (h : Cut b ls) :
    Cut (w ++ b) ls := by
  cases h with
  | nil hgap => exact .nil (hw.append hgap)
  | cons hgap hstands hrest =>
    rw [← List.append_assoc]
    exact .cons (hw.append hgap) hstands hrest

theorem StandsBefore.of_isEnd {rest rest' l : Bytes} {k : Kind} (h : StandsBefore rest k l)
    (hend : isEnd rest → isEnd rest') : StandsBefore rest' k l :=
  h.imp_right fun ⟨hstands, hrest⟩ => ⟨hstands, hend hrest⟩

/-- With a gap at the seam the text is made of the same lexemes. -/
theorem Seam.insert {a b w : Bytes} {ls : List (Kind × Bytes)} (h : Seam a b ls)
    (hspace : w.startsWithSpace) (hw : Gap False w) : Cut (a ++ (w ++ b)) ls := by
  induction h with
  | atEnd hgap =>
    rw [List.append_nil]
    exact .nil (hgap.append_atEnd hw)
  | start hgap hstands hrest =>
    rw [← List.append_assoc]
    exact .cons (hgap.append hw) hstands hrest
  | stop hgap hstands hrest =>
    rw [List.append_assoc]
    refine .cons hgap (hstands.of_isEnd fun _ => ?_) (hrest.gap_append hw)
    exact isEnd_of_startsWithSpace (startsWithSpace_append hspace _)
  | later hgap hstands hseam ih =>
    rw [List.append_assoc, List.append_assoc]
    exact .cons hgap (hstands.of_isEnd (hseam.isEnd_insert hspace)) ih

end Token

/-! ## The same program -/

/-- A source with the same tokens at other places lists the same words. -/
theorem Program.parse_congr {s s' : Bytes}
    (h : (Token.ofText s').dropLast.map Token.unplaced =
      (Token.ofText s).dropLast.map Token.unplaced)
    {words : Program} (hs : parse s = .ok words) : parse s' = .ok words :=
  parse_ok_iff_parses.mpr ((parse_ok_iff_parses.mp hs).congr h)

/-- A source with the same tokens at other places assembles to the same words. -/
theorem Assembly.assemble_congr {s s' : Bytes}
    (h : (Token.ofText s').dropLast.map Token.unplaced =
      (Token.ofText s).dropLast.map Token.unplaced)
    {words : List Int32} (hs : assemble s = .ok words) : assemble s' = .ok words := by
  obtain ⟨ss, hss⟩ := exists_parses_of_assemble hs
  rw [assemble_ok_iff_of_parses hss] at hs
  rw [assemble_ok_iff_of_parses (hss.congr h)]
  exact hs

namespace Token

/-- Whitespace and comments that start with whitespace may be put wherever a token starts or ends,
if no token is illegal: kinds, lexemes and literals of all tokens stay what they are, and the source
is read as the same program, or refused as before, by both readers. -/
theorem a_gap_between_tokens_changes_none {a b w : Bytes}
    (hlegal : ∀ t ∈ Token.ofText (a ++ b), t.kind ≠ .illegal)
    (hmeet : ∃ t ∈ Token.ofText (a ++ b), t.pos.offset = a.length ∨ t.stop = a.length)
    (hspace : w.startsWithSpace) (hgap : Gap False w) :
    (Token.ofText (a ++ w ++ b)).map (fun t => (t.kind, t.lexeme, t.literal)) =
        (Token.ofText (a ++ b)).map (fun t => (t.kind, t.lexeme, t.literal)) ∧
      (∀ words, Program.parse (a ++ w ++ b) = .ok words ↔ Program.parse (a ++ b) = .ok words) ∧
      ∀ words, Assembly.assemble (a ++ w ++ b) = .ok words ↔
        Assembly.assemble (a ++ b) = .ok words := by
  obtain ⟨t, ht, hmeet⟩ := hmeet
  have hoffset : (Cursor.ofText (a ++ b)).pos.offset + a.length = a.length := Nat.zero_add _
  obtain ⟨ls, hseam⟩ : ∃ ls, Seam a b ls := by
    apply exists_seam (c := Cursor.ofText (a ++ b)) rfl hlegal ht
    rw [hoffset]
    exact hmeet
  have hmost : (Token.ofText (a ++ w ++ b)).dropLast.map unplaced =
      (Token.ofText (a ++ b)).dropLast.map unplaced := by
    have hinsert := hseam.insert hspace hgap
    rw [← List.append_assoc] at hinsert
    exact (hinsert.tokens rfl).trans (hseam.cut.tokens rfl).symm
  have hall : (Token.ofText (a ++ w ++ b)).map unplaced = (Token.ofText (a ++ b)).map unplaced := by
    unfold Token.ofText at hmost ⊢
    rw [Cursor.map_unplaced_tokens, hmost, ← Cursor.map_unplaced_tokens]
  refine ⟨?_, ?_, ?_⟩
  · have hparts := congrArg (List.map fun t => (t.kind, t.lexeme, t.literal)) hall
    rw [List.map_map, List.map_map] at hparts
    exact hparts
  · exact fun words => ⟨Program.parse_congr hmost.symm, Program.parse_congr hmost⟩
  · exact fun words => ⟨Assembly.assemble_congr hmost.symm, Assembly.assemble_congr hmost⟩

/-- Between a label and its colon stands a comment with a quote, a colon, a digit and a byte that is
no text. -/
theorem a_comment_between_a_label_and_its_colon_changes_nothing :
    let a : Bytes := "x"
    let b : Bytes := ": GOTO x CSTC \"/\" 7// end"
    let w : Bytes := [32, 47, 47, 34, 58, 49, 255, 10, 9]
    (Token.ofText (a ++ w ++ b)).map (fun t => (t.kind, t.lexeme, t.literal)) =
        (Token.ofText (a ++ b)).map (fun t => (t.kind, t.lexeme, t.literal)) ∧
      Assembly.assemble (a ++ w ++ b) = .ok [16, 0, 27, 47, 7] := by
  intro a b w
  have hgap : Gap False w := by
    have hbody : (10 : UInt8) ∉ [34, 58, 49, 255] := by decide
    have hend : Gap False [10, 9] := .space (c := '\n') rfl (.space (c := '\t') rfl .nil)
    exact .space (c := ' ') rfl (.comment hbody (Or.inl rfl) hend)
  obtain ⟨htokens, -, hassemble⟩ := a_gap_between_tokens_changes_none (a := a) (b := b)
    (by decide +kernel) (by decide +kernel) (by decide +kernel) hgap
  exact ⟨htokens, (hassemble _).mpr (by decide +kernel)⟩

end Token

end TagMachine
