import TagMachine.Proofs.SpacedLexemes

/-!
The languages of the tokens. A text starts with a token exactly if it splits into a lexeme of one of
the classes and a rest in front of which a token may end; there is at most one such split. In front
of any other text stands an illegal token, which runs up to the first whitespace.
-/

namespace TagMachine

/-! ## Characters at the start of a text -/

namespace Utf8

/-- The text `l ++ rest` starts with the characters `cs`, and `l` is all of their bytes. A byte that
starts no valid sequence is a replacement character. -/
inductive Opens (rest : Bytes) : Bytes → List Char → Prop
  | nil : Opens rest [] []
  | valid {l : Bytes} {cs : List Char} (c : Char) : Opens rest l cs →
      Opens rest (encode c ++ l) (c :: cs)
  | invalid {a : UInt8} {l : Bytes} {cs : List Char} :
      (∀ c tail, a :: (l ++ rest) ≠ encode c ++ tail) → Opens rest l cs →
      Opens rest (a :: l) (replacement :: cs)

end Utf8

theorem Bytes.startsWithSpace_iff {b : Bytes} :
    b.startsWithSpace ↔ ∃ c rest, isSpace c ∧ b = Utf8.encode c ++ rest := by
  unfold startsWithSpace
  constructor
  · intro h
    split at h
    · next c rest hfirst =>
      rcases Utf8.first?_cases hfirst with hb | ⟨rfl, -⟩
      · exact ⟨c, rest, h, hb⟩
      · exact absurd h (by decide)
    · cases h
  · rintro ⟨c, rest, hspace, rfl⟩
    rw [Utf8.first?_encode]
    exact hspace

namespace Token

/-! ## Splits -/

/-- A token may end in front of this text: it is empty, or whitespace, a colon or a comment
starts. -/
inductive MayEnd : Bytes → Prop
  | nil : MayEnd []
  | space {c : Char} (hspace : isSpace c) (rest : Bytes) : MayEnd (Utf8.encode c ++ rest)
  | colon (rest : Bytes) : MayEnd (58 :: rest)
  | comment (rest : Bytes) : MayEnd (47 :: 47 :: rest)

/-- The text is a lexeme of a class in front of a rest that lets it end. A colon always ends. -/
structure Splits (s : Bytes) (k : Kind) (l rest : Bytes) : Prop where
  text : s = l ++ rest
  lexeme : IsLexeme k l
  ends : k = .colon ∨ MayEnd rest

theorem isEnd_iff {b : Bytes} : isEnd b ↔ MayEnd b := by
  constructor
  · intro h
    cases b with
    | nil => exact .nil
    | cons x b =>
      simp only [isEnd, Bool.or_eq_true, Bool.and_eq_true, beq_iff_eq] at h
      rcases h with (rfl | ⟨rfl, hslash⟩) | hspace
      · exact .colon b
      · obtain ⟨rest, rfl⟩ := List.head?_eq_some_iff.mp hslash
        exact .comment rest
      · obtain ⟨c, rest, hc, heq⟩ := Bytes.startsWithSpace_iff.mp hspace
        rw [heq]
        exact .space hc rest
  · intro h
    cases h with
    | nil => rfl
    | @space c hspace rest =>
      exact isEnd_of_startsWithSpace (Bytes.startsWithSpace_iff.mpr ⟨c, rest, hspace, rfl⟩)
    | colon rest => rfl
    | comment rest => rfl

/-! ## Tokens -/

/-- What is recognized is a lexeme that may end where it does. -/
theorem splits_of_recognize {s l : Bytes} {k : Kind} (hs : s ≠ [])
    (h : recognize s = ⟨k, l, true⟩) :
    ∃ rest, Splits s k l rest := by
  rcases recognize_cases hs with ⟨k', l', rest, hlexeme, hrecognize, hend⟩ | hillegal
  · rw [hrecognize] at h
    cases h
    exact ⟨rest, (lexeme?_append hlexeme).symm, isLexeme_of_lexeme? hlexeme,
      hend.imp_right isEnd_iff.mp⟩
  · rw [hillegal] at h
    cases h

/-- A lexeme that may end where it does is recognized: no longer one of its class fits, and none of
another class. -/
theorem recognize_of_splits {s l rest : Bytes} {k : Kind} (h : Splits s k l rest) :
    recognize s = ⟨k, l, true⟩ := by
  obtain ⟨rfl, hlexeme, hends⟩ := h
  have hstands := standsBefore_of_isLexeme hlexeme (hends.imp_right isEnd_iff.mpr)
  exact hstands.recognize.2.2

theorem Splits.unique {s l l' rest rest' : Bytes} {k k' : Kind} (h : Splits s k l rest)
    (h' : Splits s k' l' rest') : k = k' ∧ l = l' ∧ rest = rest' := by
  have hsame := (recognize_of_splits h).symm.trans (recognize_of_splits h')
  cases hsame
  exact ⟨rfl, rfl, List.append_cancel_left (h.text.symm.trans h'.text)⟩

/-! ## Illegal tokens -/

/-- `l` is whole characters at the start of the text, none of them whitespace. -/
def SpaceFree (s l : Bytes) : Prop :=
  ∃ rest cs, s = l ++ rest ∧ Utf8.Opens rest l cs ∧ ∀ c ∈ cs, isSpace c = false

theorem SpaceFree.nil (s : Bytes) : SpaceFree s [] := ⟨s, [], rfl, .nil, by simp⟩

/-- One more character that is no whitespace. -/
theorem SpaceFree.cons {piece rest l : Bytes} {c : Char} (h : SpaceFree rest l)
    (hfirst : Utf8.first? (piece ++ rest) = some (c, rest)) (hspace : isSpace c = false) :
    SpaceFree (piece ++ rest) (piece ++ l) := by
  obtain ⟨after, cs, rfl, hopens, hfree⟩ := h
  have hall : ∀ d ∈ c :: cs, isSpace d = false := List.forall_mem_cons.mpr ⟨hspace, hfree⟩
  refine ⟨after, c :: cs, (List.append_assoc ..).symm, ?_, hall⟩
  rcases Utf8.first?_cases hfirst with hvalid | ⟨rfl, a, hbyte, hinvalid⟩
  · rw [List.append_cancel_right hvalid]
    exact .valid c hopens
  · obtain rfl : piece = [a] := List.append_cancel_right hbyte
    exact .invalid hinvalid hopens

theorem spanWord_append {piece rest : Bytes} {c : Char}
    (h : Utf8.first? (piece ++ rest) = some (c, rest)) (hspace : isSpace c = false) :
    (piece ++ rest).spanWord.1 = piece ++ rest.spanWord.1 := by
  rw [Bytes.spanWord]
  split
  · next hnone => cases h.symm.trans hnone
  · next hsome =>
    cases h.symm.trans hsome
    rw [hspace, if_neg Bool.false_ne_true, List.length_append, Nat.add_sub_cancel, List.take_left]

theorem spaceFree_spanWord (b : Bytes) : SpaceFree b b.spanWord.1 := by
  fun_induction Bytes.spanWord b with
  | case1 b hnone => exact .nil b
  | case2 b c rest hfirst hspace => exact .nil b
  | case3 b c rest hfirst hspace word after hrest ih =>
    obtain ⟨piece, rfl, -⟩ := Utf8.eq_append_of_first? hfirst
    rw [hrest] at ih
    rw [List.length_append, Nat.add_sub_cancel, List.take_left]
    exact ih.cons hfirst (by simpa using hspace)

/-- No run of characters without whitespace goes on behind the first word. -/
theorem length_le_spanWord {rest l : Bytes} {cs : List Char} (h : Utf8.Opens rest l cs)
    (hfree : ∀ c ∈ cs, isSpace c = false) : l.length ≤ (l ++ rest).spanWord.1.length := by
  induction h with
  | nil => exact Nat.zero_le _
  | @valid l cs c _ ih =>
    obtain ⟨hc, hcs⟩ := List.forall_mem_cons.mp hfree
    rw [List.append_assoc, spanWord_append (Utf8.first?_encode c _) hc, List.length_append,
      List.length_append]
    exact Nat.add_le_add_left (ih hcs) _
  | @invalid a l cs hinvalid _ ih =>
    obtain ⟨hc, hcs⟩ := List.forall_mem_cons.mp hfree
    rw [← List.singleton_append, List.append_assoc,
      spanWord_append (Utf8.first?_invalid hinvalid) hc, List.length_append, List.length_append]
    exact Nat.add_le_add_left (ih hcs) _

/-- An illegal token: the whitespace character that the text starts with, or else the longest run of
characters in front of the first whitespace. -/
inductive IllegalRun (s : Bytes) : Bytes → Prop
  | space {c : Char} {rest : Bytes} (hspace : isSpace c) (htext : s = Utf8.encode c ++ rest) :
      IllegalRun s (Utf8.encode c)
  | word {l : Bytes} (hstart : s.startsWithSpace = false) (hfree : SpaceFree s l)
      (hlongest : ∀ m, SpaceFree s m → m.length ≤ l.length) : IllegalRun s l

theorem illegalRun_eq {s : Bytes} (hs : s ≠ []) : IllegalRun s (illegalRun s) := by
  unfold illegalRun
  split
  · next hnone =>
    cases s with
    | nil => exact absurd rfl hs
    | cons a s => cases hnone
  · next c rest hfirst =>
    split
    · next hspace =>
      rcases Utf8.first?_cases hfirst with rfl | ⟨rfl, -⟩
      · rw [List.length_append, Nat.add_sub_cancel, List.take_left]
        exact .space hspace rfl
      · exact absurd hspace (by decide)
    · next hspace =>
      refine .word ?_ (spaceFree_spanWord s) ?_
      · rw [Bytes.startsWithSpace, hfirst]
        simpa using hspace
      · rintro m ⟨after, cs, rfl, hopens, hfree⟩
        exact length_le_spanWord hopens hfree

/-- A text starts with a token exactly if it splits into a lexeme and a rest that lets it end, and
then in one way only. Any other text starts with an illegal token up to the first whitespace. In
either case the token is not empty. -/
theorem a_token_is_recognized_exactly_if_the_text_splits (s : Bytes) (hs : s ≠ []) :
    (∀ k l, recognize s = ⟨k, l, true⟩ ↔ ∃ rest, Splits s k l rest) ∧
    (∀ k l rest k' l' rest', Splits s k l rest → Splits s k' l' rest' → k = k' ∧ l = l') ∧
    ((∀ k l rest, ¬ Splits s k l rest) →
      ∃ l, recognize s = ⟨.illegal, l, false⟩ ∧ IllegalRun s l) ∧
    (recognize s).lexeme ≠ [] := by
  refine ⟨?_, ?_, ?_, recognize_lexeme_ne_nil hs⟩
  · intro k l
    exact ⟨splits_of_recognize hs, fun ⟨_, h⟩ => recognize_of_splits h⟩
  · intro k l rest k' l' rest' h h'
    obtain ⟨hkind, hlexeme, -⟩ := h.unique h'
    exact ⟨hkind, hlexeme⟩
  · intro hnone
    rcases recognize_cases hs with ⟨k, l, -, -, hrecognize, -⟩ | hillegal
    · obtain ⟨rest, hsplits⟩ := splits_of_recognize hs hrecognize
      exact absurd hsplits (hnone k l rest)
    · exact ⟨illegalRun s, hillegal, illegalRun_eq hs⟩

/-- The string `"\""` in front of a comment is a token, and `12e+` with no digits in its exponent is
an illegal one up to the newline. -/
theorem a_string_may_hold_a_quote_but_no_exponent_lacks_digits :
    let string : Bytes := [34, 92, 34, 34, 47, 47]
    let number : Bytes := [49, 50, 101, 43, 10, 55]
    string ≠ [] ∧ number ≠ [] ∧ recognize string = ⟨.string, [34, 92, 34, 34], true⟩ ∧
      (∀ k l rest, ¬ Splits number k l rest) ∧
      recognize number = ⟨.illegal, [49, 50, 101, 43], false⟩ ∧
        IllegalRun number [49, 50, 101, 43] := by
  intro string number
  have hstring : string ≠ [] := by simp [string]
  have hnumber : number ≠ [] := by simp [number]
  obtain ⟨hfound, -, -, -⟩ := a_token_is_recognized_exactly_if_the_text_splits string hstring
  obtain ⟨hread, -, hillegal, -⟩ := a_token_is_recognized_exactly_if_the_text_splits number hnumber
  have hsplits : Splits string .string [34, 92, 34, 34] [47, 47] :=
    ⟨rfl, ⟨[92, 34], .escape (by decide) .nil, rfl⟩, Or.inr (.comment [])⟩
  have hnone : ∀ k l rest, ¬ Splits number k l rest := by
    intro k l rest h
    have haccepted : (recognize number).accepted = false := by decide +kernel
    rw [(hread k l).mpr ⟨rest, h⟩] at haccepted
    cases haccepted
  obtain ⟨l, hl, hrun⟩ := hillegal hnone
  have hlexeme : (recognize number).lexeme = [49, 50, 101, 43] := by decide +kernel
  rw [hl] at hlexeme
  cases hlexeme
  exact ⟨hstring, hnumber, (hfound _ _).mpr ⟨_, hsplits⟩, hnone, hl, hrun⟩

end Token

end TagMachine
