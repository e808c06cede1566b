import TagMachine.Proofs.Utf8Text
import TagMachine.Token.Lexer

/-!
The tokens of a text tile it. They come in order and without overlap, each is the piece of the text
at its offset, and between them stands nothing but whitespace and comments; lines and columns are
those of the offset.
-/

namespace TagMachine

/-! ## Places -/

/-- Where the line of an offset starts: behind the last newline in front of it. -/
def lineStart (b : Bytes) : Nat → Nat
  | 0 => 0
  | n + 1 => if b[n]? = some 10 then n + 1 else lineStart b n

/-- The line counts the newlines in front of a place, the column the bytes of its line. -/
structure Position.Exact (b : Bytes) (p : Position) : Prop where
  line : p.line = 1 + (b.take p.offset).count 10
  column : p.column = p.offset - lineStart b p.offset + 1

theorem lineStart_le (b : Bytes) (n : Nat) : lineStart b n ≤ n := by
  induction n with
  | zero => exact Nat.le_refl 0
  | succ n ih =>
    unfold lineStart
    split <;> omega

theorem Position.advance_append (p : Position) (b d : Bytes) :
    p.advance (b ++ d) = (p.advance b).advance d := List.foldl_append

theorem Position.advance_take {b : Bytes} {n : Nat} (h : n ≤ b.length) :
    Position.start.advance (b.take n) =
      ⟨1 + (b.take n).count 10, n - lineStart b n + 1, n⟩ := by
  induction n with
  | zero => rfl
  | succ n ih =>
    have hn : n < b.length := h
    have hle := lineStart_le b n
    have hbyte : b[n]? = some b[n] := List.getElem?_eq_getElem hn
    rw [List.take_add_one, hbyte, Option.toList_some, Position.advance_append, ih (by omega),
      List.count_append, lineStart, hbyte]
    -- one more byte: a newline starts the next line, any other byte is the next column
    by_cases h10 : b[n] = 10
    · simp [Position.advance, Position.next, h10, Nat.add_assoc]
    · simp only [Position.advance, Position.next, List.foldl_cons, List.foldl_nil, h10, if_false,
        Option.some.injEq, List.count_singleton, beq_iff_eq, Nat.add_zero, Position.mk.injEq,
        true_and, and_true]
      omega

namespace Cursor

theorem skip_skip (c : Cursor) (m n : Nat) : (c.skip m).skip n = c.skip (m + n) := by
  unfold skip
  rw [List.drop_drop, List.take_add, Position.advance_append]

theorem rest_ofText_skip (b : Bytes) (n : Nat) : ((ofText b).skip n).rest = b.drop n := rfl

theorem offset_ofText_skip {b : Bytes} {n : Nat} (h : n ≤ b.length) :
    ((ofText b).skip n).pos.offset = n := by
  unfold skip ofText
  rw [Position.advance_take h]

theorem exact_ofText_skip {b : Bytes} {n : Nat} (h : n ≤ b.length) :
    ((ofText b).skip n).pos.Exact b := by
  unfold skip ofText
  rw [Position.advance_take h]
  exact ⟨rfl, rfl⟩

end Cursor

/-! ## Gaps -/

/-- Text between tokens: whitespace characters and comments. A comment runs up to a newline, or to
the end of the text if the gap lies there. -/
inductive Gap (atEnd : Prop) : Bytes → Prop
  | nil : Gap atEnd []
  | space {c : Char} {rest : Bytes} (hspace : isSpace c) (hrest : Gap atEnd rest) :
      Gap atEnd (Utf8.encode c ++ rest)
  | comment {body rest : Bytes} (hbody : 10 ∉ body)
      (hstop : rest.head? = some 10 ∨ rest = [] ∧ atEnd) (hrest : Gap atEnd rest) :
      Gap atEnd (47 :: 47 :: (body ++ rest))

theorem Utf8.eq_append_of_first? {b rest : Bytes} {c : Char} (h : first? b = some (c, rest)) :
    ∃ l, b = l ++ rest ∧ (l = encode c ∨ c = replacement) := by
  rcases first?_cases h with rfl | ⟨rfl, a, rfl, -⟩
  · exact ⟨encode c, rfl, Or.inl rfl⟩
  · exact ⟨[a], rfl, Or.inr rfl⟩

namespace Cursor

/-- A blank is a whitespace character, or a comment with all that is left of its line. -/
theorem blank?_cases {b : Bytes} {n : Nat} (h : blank? b = some n) :
    ∃ l rest, b = l ++ rest ∧ n = l.length ∧
      ((∃ c, isSpace c ∧ l = Utf8.encode c) ∨
        ∃ body, 10 ∉ body ∧ l = 47 :: 47 :: body ∧ (rest = [] ∨ rest.head? = some 10)) := by
  unfold blank? at h
  split at h
  · cases h
  · next c rest hfirst =>
    split at h
    · next hspace =>
      obtain ⟨l, rfl, hl | rfl⟩ := Utf8.eq_append_of_first? hfirst
      · refine ⟨l, rest, rfl, ?_, Or.inl ⟨c, hspace, hl⟩⟩
        rw [Option.some_inj] at h
        rw [← h, List.length_append, Nat.add_sub_cancel]
      · exact absurd hspace (by decide)
    · unfold comment? at h
      split at h
      · next tail =>
        rw [Option.some_inj] at h
        refine ⟨47 :: 47 :: tail.takeWhile (· != 10), tail.dropWhile (· != 10), ?_, ?_,
          Or.inr ⟨_, ?_, rfl, ?_⟩⟩
        · simp
        · rw [← h, List.length_cons, List.length_cons]
          omega
        · intro hmem
          exact absurd (List.all_eq_true.mp List.all_takeWhile 10 hmem) (by decide)
        -- the comment stops only in front of a newline
        · cases hdrop : tail.dropWhile (· != 10) with
          | nil => exact Or.inl rfl
          | cons x rest =>
            have hx := List.head?_dropWhile_not (· != 10) tail
            rw [hdrop] at hx
            exact Or.inr (by simpa using hx)
      · cases h

theorem blank?_newline (rest : Bytes) : blank? (10 :: rest) = some 1 := by
  have hfirst : Utf8.first? (10 :: rest) = some (Char.ofNat 10, rest) := rfl
  unfold blank?
  rw [hfirst]
  simp [isSpace]

/-- A blank in front of a gap makes a longer gap. -/
theorem gap_of_blank? {b : Bytes} {n m : Nat} (hblank : blank? b = some n)
    (hm : m ≤ (b.drop n).length) (hgap : Gap (m = (b.drop n).length) ((b.drop n).take m))
    (hnone : blank? ((b.drop n).drop m) = none) :
    n + m ≤ b.length ∧ Gap (n + m = b.length) (b.take (n + m)) := by
  obtain ⟨l, rest, rfl, rfl, hl⟩ := blank?_cases hblank
  rw [List.drop_left] at hm hgap hnone
  have hlength : (m = rest.length) = (l.length + m = (l ++ rest).length) := by
    rw [List.length_append]
    exact propext (by omega)
  refine ⟨by rw [List.length_append]; omega, ?_⟩
  rw [← hlength, List.take_length_add_append]
  rcases hl with ⟨c, hspace, rfl⟩ | ⟨body, hbody, rfl, hstop⟩
  · exact Gap.space hspace hgap
  · refine Gap.comment hbody ?_ hgap
    rcases hstop with rfl | hnewline
    · exact Or.inr ⟨List.take_nil, by simpa using hm⟩
    -- the newline behind the comment is a blank, so it belongs to the gap as well
    · left
      cases rest with
      | nil => cases hnewline
      | cons x rest =>
        cases m with
        | zero =>
          cases hnewline
          rw [List.drop_zero, blank?_newline] at hnone
          cases hnone
        | succ m => exact hnewline

/-- What is skipped is a gap, and no blank follows it. -/
theorem skipBlanks_eq_skip (c : Cursor) :
    ∃ n, c.skipBlanks = c.skip n ∧ n ≤ c.rest.length ∧ Gap (n = c.rest.length) (c.rest.take n) ∧
      blank? (c.rest.drop n) = none := by
  fun_induction skipBlanks c with
  | case2 c hnone => exact ⟨0, rfl, Nat.zero_le _, Gap.nil, hnone⟩
  | case1 c n hblank ih =>
    obtain ⟨m, hskip, hm, hgap, hnone⟩ := ih
    obtain ⟨hle, hgap⟩ := gap_of_blank? hblank hm hgap hnone
    refine ⟨n + m, ?_, hle, hgap, ?_⟩
    · rw [hskip, skip_skip]
    · rw [← List.drop_drop]
      exact hnone

end Cursor

/-! ## Lexemes -/

namespace Token

theorem sign_append (b : Bytes) : (sign b).1 ++ (sign b).2 = b := by
  unfold sign
  split
  · split <;> rfl
  · rfl

theorem digits_append (b : Bytes) : (digits b).1 ++ (digits b).2 = b :=
  List.takeWhile_append_dropWhile

theorem fraction_append (b : Bytes) : (fraction b).1 ++ (fraction b).2 = b := by
  unfold fraction
  split
  · next rest =>
    dsimp only
    split
    · rfl
    · rw [List.cons_append, digits_append]
  · rfl

theorem exponent_append (b : Bytes) : (exponent b).1 ++ (exponent b).2 = b := by
  unfold exponent
  split
  · rfl
  · next e rest =>
    split
    · dsimp only
      split
      · rfl
      · rw [List.cons_append, List.cons_append, List.append_assoc, digits_append, sign_append]
    · rfl

theorem number?_append {b l r : Bytes} (h : number? b = some (l, r)) : l ++ r = b := by
  unfold number? at h
  dsimp only at h
  split at h
  · cases h
  · rw [Option.some_inj, Prod.mk.injEq] at h
    obtain ⟨rfl, rfl⟩ := h
    rw [List.append_assoc, exponent_append, List.append_assoc, fraction_append, List.append_assoc,
      digits_append, sign_append]

theorem stringTail?_append {b l r : Bytes} (h : stringTail? b = some (l, r)) : l ++ r = b := by
  fun_induction stringTail? b generalizing l r with
  | case1 => cases h
  | case2 =>
    cases h
    rfl
  | case3 => cases h
  | case4 => cases h
  | case5 y rest hline hquote ih =>
    obtain ⟨⟨body, after⟩, htail, hl⟩ := Option.map_eq_some_iff.mp h
    cases hl
    rw [List.cons_append, List.cons_append, ih htail]
  | case6 x rest hquote hslash ih =>
    obtain ⟨⟨body, after⟩, htail, hl⟩ := Option.map_eq_some_iff.mp h
    cases hl
    rw [List.cons_append, ih htail]

theorem string?_append {b l r : Bytes} (h : string? b = some (l, r)) : l ++ r = b := by
  unfold string? at h
  split at h
  · next rest =>
    obtain ⟨⟨body, after⟩, htail, hl⟩ := Option.map_eq_some_iff.mp h
    cases hl
    rw [List.cons_append, stringTail?_append htail]
  · cases h

theorem name?_append {b l r : Bytes} (h : name? b = some (l, r)) : l ++ r = b := by
  unfold name? at h
  split at h
  · split at h
    · cases h
      rw [List.cons_append, List.takeWhile_append_dropWhile]
    · cases h
  · cases h

theorem lexeme?_append {b l r : Bytes} {k : Kind} (h : lexeme? b = some (k, l, r)) :
    l ++ r = b := by
  unfold lexeme? at h
  split at h
  · next hnumber =>
    cases h
    exact number?_append hnumber
  · split at h
    · next hstring =>
      cases h
      exact string?_append hstring
    · split at h
      · next hname =>
        cases h
        exact name?_append hname
      · split at h
        · cases h
          rfl
        · cases h

theorem spanWord_isPrefix (b : Bytes) : b.spanWord.1 <+: b := by
  fun_induction Bytes.spanWord b with
  | case1 => exact List.nil_prefix
  | case2 => exact List.nil_prefix
  | case3 b c rest hfirst hspace word after hrest ih =>
    obtain ⟨l, rfl, -⟩ := Utf8.eq_append_of_first? hfirst
    rw [List.length_append, Nat.add_sub_cancel, List.take_left]
    exact (List.prefix_append_right_inj l).mpr (by simpa [hrest] using ih)

theorem illegalRun_isPrefix (b : Bytes) : illegalRun b <+: b := by
  unfold illegalRun
  split
  · exact List.nil_prefix
  · split
    · exact List.take_prefix _ _
    · exact spanWord_isPrefix b

/-- A lexeme is what the text starts with. -/
theorem recognize_isPrefix (b : Bytes) : (recognize b).lexeme <+: b := by
  unfold recognize
  split
  · exact List.nil_prefix
  · split
    · next hlexeme =>
      split
      · exact ⟨_, lexeme?_append hlexeme⟩
      · exact illegalRun_isPrefix b
    · exact illegalRun_isPrefix b

theorem lexeme?_kind_ne_eof {b l r : Bytes} {k : Kind} (h : lexeme? b = some (k, l, r)) :
    k ≠ .eof := by
  rintro rfl
  unfold lexeme? at h
  repeat' split at h
  all_goals cases h

theorem recognize_kind_ne_eof {b : Bytes} (h : b.isEmpty = false) : (recognize b).kind ≠ .eof := by
  unfold recognize
  rw [h, if_neg Bool.false_ne_true]
  split
  · next hlexeme =>
    split
    · exact lexeme?_kind_ne_eof hlexeme
    · exact Kind.noConfusion
  · exact Kind.noConfusion

/-! ## Tokens -/

/-- The offset behind a token. -/
def stop (t : Token) : Nat := t.pos.offset + t.lexeme.length

/-- Tokens that tile a text from an offset on. -/
structure Tiling (b : Bytes) (start : Nat) (ts : List Token) : Prop where
  /-- The one end token is the last and stands at the end of the text. -/
  ends : ∃ init last, ts = init ++ [last] ∧ last.kind = .eof ∧ last.pos.offset = b.length ∧
    ∀ t ∈ init, t.kind ≠ .eof
  /-- Any other token is a piece of the text. -/
  lexeme : ∀ t ∈ ts, t.kind ≠ .eof → t.lexeme ≠ [] ∧ t.lexeme = b.extract t.pos.offset t.stop
  /-- No token starts in front of the first offset. -/
  behind : ∀ t ∈ ts, start ≤ t.pos.offset
  /-- The tokens come in order and do not overlap. -/
  apart : ts.Pairwise fun t u => t.stop ≤ u.pos.offset ∧ t.pos.offset < u.pos.offset
  /-- From where one token stops to where the next one starts there is a gap. -/
  gaps : ∀ p ∈ (start :: ts.map stop).zip (ts.map (·.pos.offset)),
    Gap (p.2 = b.length) (b.extract p.1 p.2)
  exact : ∀ t ∈ ts, t.pos.Exact b

theorem Tiling.last {b : Bytes} {start : Nat} {t : Token} (hkind : t.kind = .eof)
    (hoffset : t.pos.offset = b.length) (hstart : start ≤ t.pos.offset)
    (hgap : Gap (t.pos.offset = b.length) (b.extract start t.pos.offset)) (hexact : t.pos.Exact b) :
    Tiling b start [t] where
  ends := ⟨[], t, rfl, hkind, hoffset, by simp⟩
  lexeme := by simp [hkind]
  behind := by simpa using hstart
  apart := List.pairwise_singleton _ t
  gaps := by simpa using hgap
  exact := by simpa using hexact

theorem Tiling.cons {b : Bytes} {start : Nat} {t : Token} {ts : List Token} (hkind : t.kind ≠ .eof)
    (hlexeme : t.lexeme ≠ [] ∧ t.lexeme = b.extract t.pos.offset t.stop)
    (hstart : start ≤ t.pos.offset)
    (hgap : Gap (t.pos.offset = b.length) (b.extract start t.pos.offset)) (hexact : t.pos.Exact b)
    (h : Tiling b t.stop ts) : Tiling b start (t :: ts) where
  ends := by
    obtain ⟨init, last, rfl, hlast, hoffset, hinit⟩ := h.ends
    exact ⟨t :: init, last, rfl, hlast, hoffset, List.forall_mem_cons.mpr ⟨hkind, hinit⟩⟩
  lexeme := List.forall_mem_cons.mpr ⟨fun _ => hlexeme, h.lexeme⟩
  behind := by
    refine List.forall_mem_cons.mpr ⟨hstart, fun u hu => ?_⟩
    have := h.behind u hu
    unfold stop at this
    omega
  apart := by
    refine List.pairwise_cons.mpr ⟨fun u hu => ?_, h.apart⟩
    have hpos : 0 < t.lexeme.length := List.length_pos_iff.mpr hlexeme.1
    have hu := h.behind u hu
    refine ⟨hu, ?_⟩
    unfold stop at hu
    omega
  gaps := by
    rw [List.map_cons, List.map_cons, List.zip_cons_cons]
    exact List.forall_mem_cons.mpr ⟨hgap, h.gaps⟩
  exact := List.forall_mem_cons.mpr ⟨hexact, h.exact⟩

/-- The next token: a gap is skipped, then the text ends or a lexeme follows. -/
theorem next_ofText_skip {b : Bytes} {n : Nat} (hn : n ≤ b.length) :
    ∃ m, n ≤ m ∧ m ≤ b.length ∧ Gap (m = b.length) (b.extract n m) ∧
      ∃ t c, ((Cursor.ofText b).skip n).next = (t, c) ∧ t.pos = ((Cursor.ofText b).skip m).pos ∧
        (t.kind = .eof ∧ m = b.length ∨
          t.kind ≠ .eof ∧ t.lexeme ≠ [] ∧ t.lexeme <+: b.drop m ∧
            c = (Cursor.ofText b).skip (m + t.lexeme.length)) := by
  obtain ⟨k, hskip, hk, hgap, -⟩ := Cursor.skipBlanks_eq_skip ((Cursor.ofText b).skip n)
  rw [Cursor.rest_ofText_skip] at hk hgap
  rw [Cursor.skip_skip] at hskip
  have hlength : (k = (b.drop n).length) = (n + k = b.length) := by
    rw [List.length_drop]
    exact propext (by omega)
  rw [List.length_drop] at hk
  -- the token starts where the blanks end
  refine ⟨n + k, by omega, by omega, ?_, ?_⟩
  · rw [← hlength, List.extract_eq_take_drop, Nat.add_sub_cancel_left]
    exact hgap
  unfold Cursor.next
  dsimp only
  rw [hskip]
  cases hempty : ((Cursor.ofText b).skip (n + k)).rest.isEmpty with
  | true =>
    refine ⟨_, _, rfl, rfl, Or.inl ⟨rfl, ?_⟩⟩
    rw [Cursor.rest_ofText_skip, List.isEmpty_iff, List.drop_eq_nil_iff] at hempty
    omega
  | false =>
    have hne : ((Cursor.ofText b).skip (n + k)).rest ≠ [] := by simpa using hempty
    refine ⟨_, _, rfl, rfl, Or.inr ⟨recognize_kind_ne_eof hempty, recognize_lexeme_ne_nil hne,
      recognize_isPrefix _, ?_⟩⟩
    rw [Cursor.skip_skip]

/-- Step by step, the tokens from any place of the text on tile what is left of it. -/
theorem tiling_tokens {b : Bytes} {n : Nat} (hn : n ≤ b.length) :
    Tiling b n ((Cursor.ofText b).skip n).tokens := by
  -- every cursor of the loop is the start of the text moved on by some number of bytes
  generalize hc : (Cursor.ofText b).skip n = c
  fun_induction Cursor.tokens c generalizing n with
  | case1 c heof =>
    subst hc
    obtain ⟨m, hnm, hm, hgap, t, c, hnext, hpos, ⟨hkind, hend⟩ | ⟨hkind, -⟩⟩ := next_ofText_skip hn
    · rw [hnext] at heof ⊢
      have hoffset : t.pos.offset = m := by rw [hpos, Cursor.offset_ofText_skip hm]
      subst hoffset
      refine Tiling.last hkind hend hnm hgap ?_
      rw [hpos]
      exact Cursor.exact_ofText_skip hm
    · rw [hnext] at heof
      exact absurd heof hkind
  | case2 c hmore ih =>
    subst hc
    obtain ⟨m, hnm, hm, hgap, t, c, hnext, hpos, ⟨hkind, -⟩ | ⟨hkind, hne, hlead, hc⟩⟩ :=
      next_ofText_skip hn
    · rw [hnext] at hmore
      exact absurd hkind hmore
    · rw [hnext] at ih ⊢
      have hoffset : t.pos.offset = m := by rw [hpos, Cursor.offset_ofText_skip hm]
      subst hoffset
      have hstop : t.stop ≤ b.length := by
        have := hlead.length_le
        rw [List.length_drop] at this
        unfold stop
        omega
      refine Tiling.cons hkind ⟨hne, ?_⟩ hnm hgap ?_ (ih hstop hc.symm)
      · rw [List.extract_eq_take_drop, stop, Nat.add_sub_cancel_left]
        exact List.prefix_iff_eq_take.mp hlead
      · rw [hpos]
        exact Cursor.exact_ofText_skip hm

/-- All tokens but the last are those that are not the end token. -/
theorem mem_dropLast_ofText {b : Bytes} {t : Token} :
    t ∈ (Token.ofText b).dropLast ↔ t ∈ Token.ofText b ∧ t.kind ≠ .eof := by
  have htiling : Tiling b 0 (Token.ofText b) := tiling_tokens (Nat.zero_le _)
  obtain ⟨init, last, htokens, hlast, -, hinit⟩ := htiling.ends
  rw [htokens, List.dropLast_concat, List.mem_append, List.mem_singleton]
  constructor
  · intro ht
    exact ⟨Or.inl ht, hinit t ht⟩
  · rintro ⟨ht | rfl, hkind⟩
    · exact ht
    · exact absurd hlast hkind

/-- The tokens of any text tile it. -/
theorem the_tokens_of_a_text_tile_it (b : Bytes) : Tiling b 0 (Token.ofText b) :=
  tiling_tokens (Nat.zero_le _)

end Token

end TagMachine
