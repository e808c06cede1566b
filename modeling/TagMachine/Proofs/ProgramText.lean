import Mathlib.Control.Monad.Basic
import TagMachine.Program.Text
import TagMachine.Proofs.Lexemes
import TagMachine.Proofs.TokenTiling

/-!
The grammar of numeric program text. A text lists words if it is made of their numerals with gaps
around them, and between two numerals the gap is not empty. Exactly such texts are read, and a text
that is refused is refused at its first token that is no such numeral.
-/

namespace TagMachine

namespace Program

/-- The text lists these words: their numerals in order, with gaps around them. `behind` another
word it starts with a gap that is not empty. -/
inductive Lists : (behind : Prop) → Bytes → Program → Prop
  | nil {behind : Prop} {gap : Bytes} (hgap : Gap True gap) : Lists behind gap []
  | cons {behind : Prop} {gap numeral rest : Bytes} {w : Int32} {words : Program}
      (hgap : Gap False gap) (hapart : behind → gap ≠ []) (hword : Numeral.Denotes numeral w.toInt)
      (hrest : Lists True rest words) : Lists behind (gap ++ numeral ++ rest) (w :: words)

end Program

/-! ## Bytes that end nothing -/

/-- A visible ASCII byte that starts neither a comment nor a label. -/
def Bytes.IsPlain (x : UInt8) : Prop := 32 < x.toNat ∧ x.toNat < 127 ∧ x ≠ 47 ∧ x ≠ 58

theorem Bytes.isPlain_of_isDigit {x : UInt8} (h : Bytes.isDigit x) : Bytes.IsPlain x := by
  obtain ⟨hlo, hhi⟩ := (Bytes.isDigit_iff x).mp h
  refine ⟨by omega, by omega, ?_, ?_⟩ <;> rintro rfl <;> exact absurd h (by decide)

theorem Utf8.first?_ascii {x : UInt8} (h : x.toNat < 128) (rest : Bytes) :
    first? (x :: rest) = some (Char.ofNat x.toNat, rest) := by
  have hlt : x < 0x80 := UInt8.lt_iff_toNat_lt.mpr h
  rw [first?, scalar?.eq_def]
  simp only [if_pos hlt, Option.getD_some]

theorem Token.isEnd_of_startsWithSpace {b : Bytes} (h : b.startsWithSpace) : Token.isEnd b := by
  cases b with
  | nil => rfl
  | cons x b => simp [Token.isEnd, h]

theorem Bytes.IsPlain.not_isSpace {x : UInt8} (h : Bytes.IsPlain x) :
    isSpace (Char.ofNat x.toNat) = false := by
  obtain ⟨hlo, hhi, -⟩ := h
  have hchar : (Char.ofNat x.toNat).toNat = x.toNat := Utf8.toNat_ofNat (Or.inl (by omega))
  unfold isSpace
  rw [hchar]
  simp only [Bool.or_eq_false_iff, Bool.and_eq_false_iff, decide_eq_false_iff_not,
    beq_eq_false_iff_ne]
  omega

/-- No token ends in front of such a byte. -/
theorem Bytes.IsPlain.isEnd {x : UInt8} (h : Bytes.IsPlain x) (rest : Bytes) :
    Token.isEnd (x :: rest) = false := by
  have hspace := h.not_isSpace
  obtain ⟨-, hhi, h47, h58⟩ := h
  unfold Token.isEnd Bytes.startsWithSpace
  rw [Utf8.first?_ascii (by omega)]
  simp [hspace, h47, h58]

theorem Bytes.IsPlain.blank? {x : UInt8} (h : Bytes.IsPlain x) (rest : Bytes) :
    Cursor.blank? (x :: rest) = none := by
  have hspace := h.not_isSpace
  obtain ⟨-, hhi, h47, -⟩ := h
  unfold Cursor.blank?
  rw [Utf8.first?_ascii (by omega)]
  simp only [hspace, Bool.false_eq_true, if_false]
  unfold Cursor.comment?
  split
  · next heq =>
    cases heq
    exact absurd rfl h47
  · rfl

/-! ## Numerals -/

namespace Token

/-- A numeral starts with a sign or a digit. -/
theorem exists_isPlain_of_denotes {l : Bytes} {x : Int} (h : Numeral.Denotes l x) :
    ∃ a tail, l = a :: tail ∧ Bytes.IsPlain a := by
  obtain ⟨s, ds, hs, ⟨hne, hdigits⟩, rfl⟩ := exists_digits_of_denotes h
  rcases hs with rfl | rfl | rfl
  · cases ds with
    | nil => exact absurd rfl hne
    | cons d ds => exact ⟨d, ds, rfl, Bytes.isPlain_of_isDigit (hdigits d List.mem_cons_self)⟩
  · exact ⟨43, ds, rfl, by simp [Bytes.IsPlain]⟩
  · exact ⟨45, ds, rfl, by simp [Bytes.IsPlain]⟩

theorem sign_of_isSign {s ds : Bytes} (hs : IsSign s) (hds : IsDigits ds) (rest : Bytes) :
    sign (s ++ (ds ++ rest)) = (s, ds ++ rest) := by
  rcases hs with rfl | rfl | rfl
  · obtain ⟨hne, hdigits⟩ := hds
    cases ds with
    | nil => exact absurd rfl hne
    | cons d ds =>
      have hd := hdigits d List.mem_cons_self
      have h43 : d ≠ 43 := by rintro rfl; exact absurd hd (by decide)
      have h45 : d ≠ 45 := by rintro rfl; exact absurd hd (by decide)
      simp [sign, h43, h45]
  · rfl
  · rfl

/-- Where a token may end, neither digits nor a fraction nor an exponent go on. -/
theorem digits_of_isEnd {ds rest : Bytes} (hdigits : ∀ d ∈ ds, Bytes.isDigit d)
    (hend : isEnd rest) :
    digits (ds ++ rest) = (ds, rest) := by
  have hstop : rest.takeWhile Bytes.isDigit = [] ∧ rest.dropWhile Bytes.isDigit = rest := by
    cases rest with
    | nil => exact ⟨rfl, rfl⟩
    | cons x rest =>
      have hx : Bytes.isDigit x = false := by
        cases hd : Bytes.isDigit x with
        | false => rfl
        | true =>
          rw [(Bytes.isPlain_of_isDigit hd).isEnd] at hend
          cases hend
      simp [hx]
  unfold digits
  rw [List.takeWhile_append_of_pos hdigits, List.dropWhile_append_of_pos hdigits, hstop.1, hstop.2,
    List.append_nil]

theorem fraction_of_isEnd {rest : Bytes} (hend : isEnd rest) : fraction rest = ([], rest) := by
  unfold fraction
  split
  · next tail =>
    rw [Bytes.IsPlain.isEnd (by simp [Bytes.IsPlain])] at hend
    cases hend
  · rfl

theorem exponent_of_isEnd {rest : Bytes} (hend : isEnd rest) : exponent rest = ([], rest) := by
  unfold exponent
  split
  · rfl
  · next x tail =>
    refine if_neg ?_
    intro hx
    simp only [Bool.or_eq_true, decide_eq_true_eq] at hx
    rcases hx with rfl | rfl
    · rw [Bytes.IsPlain.isEnd (by simp [Bytes.IsPlain])] at hend
      cases hend
    · rw [Bytes.IsPlain.isEnd (by simp [Bytes.IsPlain])] at hend
      cases hend

/-- A numeral that may end where it does is a token. -/
theorem recognize_numeral {l rest : Bytes} {x : Int} (h : Numeral.Denotes l x) (hend : isEnd rest) :
    recognize (l ++ rest) = ⟨.number, l, true⟩ := by
  obtain ⟨s, ds, hs, hds, rfl⟩ := exists_digits_of_denotes h
  have hne : ds.isEmpty = false := by simpa using hds.1
  have hnumber : number? (s ++ ds ++ rest) = some (s ++ ds, rest) := by
    unfold number?
    rw [List.append_assoc, sign_of_isSign hs hds]
    simp only [digits_of_isEnd hds.2 hend, hne, fraction_of_isEnd hend, exponent_of_isEnd hend]
    simp
  have hlexeme : lexeme? (s ++ ds ++ rest) = some (.number, s ++ ds, rest) := by
    unfold lexeme?
    rw [hnumber]
  have hfull : (s ++ ds ++ rest).isEmpty = false := by
    simp [hds.1]
  unfold recognize
  rw [hfull, hlexeme]
  simp [hend]

/-- What stands at the start of a text is a lexeme that may end where it does, or is illegal. -/
theorem recognize_cases {b : Bytes} (hb : b ≠ []) :
    (∃ k l r, lexeme? b = some (k, l, r) ∧ recognize b = ⟨k, l, true⟩ ∧ (k = .colon ∨ isEnd r)) ∨
      recognize b = ⟨.illegal, illegalRun b, false⟩ := by
  have hempty : b.isEmpty = false := by simpa using hb
  unfold recognize
  rw [hempty, if_neg Bool.false_ne_true]
  cases hlexeme : lexeme? b with
  | none => exact Or.inr rfl
  | some p =>
    obtain ⟨k, l, r⟩ := p
    dsimp only
    by_cases hend : k == .colon || isEnd r
    · rw [if_pos hend]
      exact Or.inl ⟨k, l, r, rfl, rfl, by simpa using hend⟩
    · rw [if_neg hend]
      exact Or.inr rfl

/-- A text that starts with a numeral has a number there. -/
theorem lexeme?_of_denotes {l r : Bytes} {x : Int} (h : Numeral.Denotes l x) :
    ∃ m t, lexeme? (l ++ r) = some (.number, m, t) := by
  obtain ⟨s, ds, hs, hds, rfl⟩ := exists_digits_of_denotes h
  have hne : (digits (ds ++ r)).1.isEmpty = false := by
    obtain ⟨hne, hdigits⟩ := hds
    cases ds with
    | nil => exact absurd rfl hne
    | cons d ds => simp [digits, hdigits d List.mem_cons_self]
  unfold lexeme? number?
  rw [List.append_assoc, sign_of_isSign hs hds]
  simp only [hne]
  exact ⟨_, _, rfl⟩

/-- A word ends where a token may end. -/
theorem spanWord_isEnd (b : Bytes) : ∃ rest, b = b.spanWord.1 ++ rest ∧ isEnd rest := by
  fun_induction Bytes.spanWord b with
  | case1 b hfirst =>
    cases b with
    | nil => exact ⟨[], rfl, rfl⟩
    | cons x b => cases hfirst
  | case2 b c rest hfirst hspace =>
    refine ⟨b, rfl, isEnd_of_startsWithSpace ?_⟩
    rw [Bytes.startsWithSpace, hfirst]
    exact hspace
  | case3 b c rest hfirst hspace word after hrest ih =>
    obtain ⟨l, rfl, -⟩ := Utf8.eq_append_of_first? hfirst
    obtain ⟨tail, htail, hend⟩ := ih
    rw [hrest] at htail
    refine ⟨tail, ?_, hend⟩
    rw [List.length_append, Nat.add_sub_cancel, List.take_left, List.append_assoc, ← htail]

theorem illegalRun_of_blank? {b : Bytes} (h : Cursor.blank? b = none) :
    illegalRun b = b.spanWord.1 := by
  unfold illegalRun
  unfold Cursor.blank? at h
  split
  · next hfirst =>
    cases b with
    | nil => simp [Bytes.spanWord, Utf8.first?]
    | cons x b => cases hfirst
  · next c rest hfirst =>
    rw [hfirst] at h
    refine if_neg ?_
    intro hspace
    simp [hspace] at h

/-- No token looks like a numeral but a number: an illegal one runs on up to where a token may
end. -/
theorem recognize_kind_of_denotes {b : Bytes} {x : Int} (hb : b ≠ [])
    (hblank : Cursor.blank? b = none) (h : Numeral.Denotes (recognize b).lexeme x) :
    (recognize b).kind = .number := by
  rcases recognize_cases hb with ⟨k, l, r, hlexeme, hrecognize, -⟩ | hillegal
  · rw [hrecognize] at h ⊢
    obtain ⟨m, t, hnumber⟩ := lexeme?_of_denotes (r := r) h
    rw [lexeme?_append hlexeme, hlexeme] at hnumber
    cases hnumber
    rfl
  · rw [hillegal, illegalRun_of_blank? hblank] at h
    obtain ⟨rest, hsplit, hend⟩ := spanWord_isEnd b
    have hnumber := recognize_numeral h hend
    rw [← hsplit] at hnumber
    rw [hnumber]

end Token

/-! ## Gaps -/

namespace Cursor

theorem blank?_space {c : Char} (h : isSpace c) (rest : Bytes) :
    blank? (Utf8.encode c ++ rest) = some (Utf8.encode c).length := by
  unfold blank?
  rw [Utf8.first?_encode]
  simp [h]

theorem blank?_comment {body rest : Bytes} (hbody : 10 ∉ body)
    (hstop : rest.head? = some 10 ∨ rest = []) :
    blank? (47 :: 47 :: (body ++ rest)) = some (2 + body.length) := by
  have hline : (body ++ rest).takeWhile (· != 10) = body := by
    rw [List.takeWhile_append_of_pos]
    · rcases hstop with hnewline | rfl
      · cases rest with
        | nil => cases hnewline
        | cons x rest =>
          cases hnewline
          simp
      · simp
    · intro x hx
      rw [bne_iff_ne]
      rintro rfl
      exact hbody hx
  have hspace : isSpace (Char.ofNat (47 : UInt8).toNat) = false := by decide
  unfold blank?
  rw [Utf8.first?_ascii (by decide)]
  simp only [hspace, Bool.false_eq_true, if_false, comment?, hline]

theorem skipBlanks_of_none {c : Cursor} (h : blank? c.rest = none) : c.skipBlanks = c := by
  rw [skipBlanks]
  split
  · next heq =>
    rw [h] at heq
    cases heq
  · rfl

theorem skipBlanks_of_some {c : Cursor} {n : Nat} (h : blank? c.rest = some n) :
    c.skipBlanks = (c.skip n).skipBlanks := by
  rw [skipBlanks]
  split
  · next heq =>
    rw [h] at heq
    cases heq
    rfl
  · next heq =>
    rw [h] at heq
    cases heq

/-- Of a text that starts with a gap and goes on with no blank, just the gap is skipped. -/
theorem skipBlanks_of_gap {c : Cursor} {gap rest : Bytes} {atEnd : Prop} (hgap : Gap atEnd gap)
    (hrest : c.rest = gap ++ rest) (hend : atEnd → rest = []) (hnone : blank? rest = none) :
    c.skipBlanks.rest = rest := by
  induction hgap generalizing c with
  | nil =>
    have hc : c.rest = rest := hrest
    rw [skipBlanks_of_none (by rw [hc]; exact hnone), hc]
  | @space x tail hspace hgap ih =>
    rw [List.append_assoc] at hrest
    have hblank : blank? c.rest = some (Utf8.encode x).length := by
      rw [hrest]
      exact blank?_space hspace _
    rw [skipBlanks_of_some hblank]
    apply ih
    rw [skip, hrest]
    exact List.drop_left
  | @comment body tail hbody hstop hgap ih =>
    rw [List.cons_append, List.cons_append, List.append_assoc] at hrest
    have hline : (tail ++ rest).head? = some 10 ∨ tail ++ rest = [] := by
      rcases hstop with hnewline | ⟨rfl, hatEnd⟩
      · left
        rw [List.head?_append, hnewline, Option.some_or]
      · exact Or.inr (hend hatEnd)
    have hblank : blank? c.rest = some (2 + body.length) := by
      rw [hrest]
      exact blank?_comment hbody hline
    rw [skipBlanks_of_some hblank]
    apply ih
    rw [skip, hrest, Nat.add_comm]
    exact List.drop_left

/-- What is skipped is a gap, and no blank follows it. -/
theorem exists_gap (c : Cursor) :
    ∃ gap, c.rest = gap ++ c.skipBlanks.rest ∧ Gap (c.skipBlanks.rest = []) gap ∧
      blank? c.skipBlanks.rest = none := by
  obtain ⟨n, hskip, hn, hgap, hnone⟩ := skipBlanks_eq_skip c
  have hrest : c.skipBlanks.rest = c.rest.drop n := by rw [hskip, skip]
  have hall : (n = c.rest.length) = (c.skipBlanks.rest = []) := by
    rw [hrest, List.drop_eq_nil_iff]
    exact propext (by omega)
  rw [hall] at hgap
  refine ⟨c.rest.take n, ?_, hgap, ?_⟩
  · rw [hrest, List.take_append_drop]
  · rw [hrest]
    exact hnone

end Cursor

/-- A token may end in front of a gap, unless the gap is empty and the text goes on. -/
theorem Gap.isEnd {gap rest : Bytes} {atEnd : Prop} (h : Gap atEnd gap)
    (hne : gap = [] → rest = []) :
    Token.isEnd (gap ++ rest) := by
  cases h with
  | nil =>
    rw [hne rfl]
    rfl
  | @space c tail hspace _ =>
    apply Token.isEnd_of_startsWithSpace
    rw [Bytes.startsWithSpace, List.append_assoc, Utf8.first?_encode]
    exact hspace
  | comment => simp [Token.isEnd]

/-! ## Tokens and words -/

namespace Cursor

theorem next_of_rest_eq_nil {c : Cursor} (h : c.skipBlanks.rest = []) : c.next.1.kind = .eof := by
  simp [next, h]

theorem next_of_rest_ne_nil {c : Cursor} (h : c.skipBlanks.rest ≠ []) :
    c.next.1.kind = (Token.recognize c.skipBlanks.rest).kind ∧
      c.next.1.lexeme = (Token.recognize c.skipBlanks.rest).lexeme ∧
      c.next.2.rest = c.skipBlanks.rest.drop c.next.1.lexeme.length := by
  have hempty : c.skipBlanks.rest.isEmpty = false := by simpa using h
  simp [next, hempty, skip]

theorem dropLast_tokens_of_nil {c : Cursor} (h : c.skipBlanks.rest = []) :
    c.tokens.dropLast = [] := by
  rw [tokens, dif_pos (next_of_rest_eq_nil h)]
  rfl

theorem tokens_ne_nil (c : Cursor) : c.tokens ≠ [] := by
  rw [tokens]
  split <;> simp

theorem kind_next_ne_eof {c : Cursor} (h : c.skipBlanks.rest ≠ []) : c.next.1.kind ≠ .eof := by
  rw [(next_of_rest_ne_nil h).1]
  exact Token.recognize_kind_ne_eof (by simpa using h)

theorem tokens_of_ne_nil {c : Cursor} (h : c.skipBlanks.rest ≠ []) :
    c.tokens = c.next.1 :: c.next.2.tokens := by
  rw [tokens, dif_neg (kind_next_ne_eof h)]

theorem dropLast_tokens_of_ne_nil {c : Cursor} (h : c.skipBlanks.rest ≠ []) :
    c.tokens.dropLast = c.next.1 :: c.next.2.tokens.dropLast := by
  rw [tokens_of_ne_nil h, List.dropLast_cons_of_ne_nil c.next.2.tokens_ne_nil]

end Cursor

namespace Program

theorem ofToken_ok_iff {t : Token} {w : Int32} :
    ofToken t = .ok w ↔ t.kind = .number ∧ Numeral.Denotes t.lexeme w.toInt := by
  rw [← Numeral.readInt32_ok_iff]
  unfold ofToken
  by_cases hkind : t.kind = .number
  · rw [if_pos hkind]
    cases Numeral.readInt32 t.lexeme <;> simp [hkind]
  · rw [if_neg hkind]
    simp [hkind]

/-- A token is read as a word exactly if it is a numeral for it. -/
theorem ofToken_next_ok_iff {c : Cursor} {w : Int32} (h : c.skipBlanks.rest ≠ []) :
    ofToken c.next.1 = .ok w ↔ Numeral.Denotes c.next.1.lexeme w.toInt := by
  obtain ⟨-, -, -, hnone⟩ := c.exists_gap
  obtain ⟨hkind, hlexeme, -⟩ := Cursor.next_of_rest_ne_nil h
  rw [ofToken_ok_iff]
  constructor
  · exact fun hw => hw.2
  · intro hw
    refine ⟨?_, hw⟩
    rw [hlexeme] at hw
    rw [hkind]
    exact Token.recognize_kind_of_denotes h hnone hw

theorem mapM_cons_ok_iff {t : Token} {ts : List Token} {words : Program} :
    (t :: ts).mapM ofToken = .ok words ↔
      ∃ w rest, ofToken t = .ok w ∧ ts.mapM ofToken = .ok rest ∧ words = w :: rest := by
  rw [List.mapM_cons]
  cases ofToken t with
  | error e => simp [bind, Except.bind]
  | ok w =>
    cases ts.mapM ofToken with
    | error e => simp [bind, Except.bind]
    | ok rest => simp [bind, Except.bind, pure, Except.pure, eq_comm]

/-- A number is followed by an end, where the next token is looked for. -/
theorem isEnd_next {c : Cursor} (h : c.skipBlanks.rest ≠ []) (hkind : c.next.1.kind = .number) :
    c.skipBlanks.rest = c.next.1.lexeme ++ c.next.2.rest ∧ Token.isEnd c.next.2.rest := by
  obtain ⟨hk, hl, hrest⟩ := Cursor.next_of_rest_ne_nil h
  rw [hk] at hkind
  rw [hrest, hl]
  rcases Token.recognize_cases h with ⟨k, l, r, hlexeme, hrecognize, hend⟩ | hillegal
  · rw [hrecognize] at hkind ⊢
    have hsplit := Token.lexeme?_append hlexeme
    have hdrop : c.skipBlanks.rest.drop l.length = r := by
      rw [← hsplit]
      exact List.drop_left
    dsimp only at hkind ⊢
    subst hkind
    rw [hdrop, hsplit]
    exact ⟨rfl, hend.resolve_left (by simp)⟩
  · rw [hillegal] at hkind
    cases hkind

/-- What is read is a list of the words. -/
theorem lists_of_tokens {c : Cursor} {behind : Prop} {words : Program}
    (hbehind : behind → Token.isEnd c.rest) (h : c.tokens.dropLast.mapM ofToken = .ok words) :
    Lists behind c.rest words := by
  obtain ⟨gap, hsplit, hgap, -⟩ := c.exists_gap
  by_cases hnil : c.skipBlanks.rest = []
  · rw [Cursor.dropLast_tokens_of_nil hnil] at h
    cases h
    rw [hnil, List.append_nil] at hsplit
    rw [hnil, eq_self] at hgap
    rw [hsplit]
    exact .nil hgap
  · rw [Cursor.dropLast_tokens_of_ne_nil hnil, mapM_cons_ok_iff] at h
    obtain ⟨w, rest, hw, hrest, rfl⟩ := h
    obtain ⟨hkind, hword⟩ := ofToken_ok_iff.mp hw
    obtain ⟨hnext, hend⟩ := isEnd_next hnil hkind
    have hlt : c.next.2.rest.length < c.rest.length :=
      Cursor.length_next_lt (by rw [hkind]; decide)
    have htail : Lists True c.next.2.rest rest := lists_of_tokens (fun _ => hend) hrest
    rw [eq_false hnil] at hgap
    rw [hsplit, hnext, ← List.append_assoc]
    refine .cons hgap ?_ hword htail
    -- right behind a word an empty gap would leave the numeral where no token may end
    rintro hb rfl
    obtain ⟨a, tail, hl, hplain⟩ := Token.exists_isPlain_of_denotes hword
    have hend := hbehind hb
    rw [hsplit, hnext, hl, List.nil_append, List.cons_append, hplain.isEnd] at hend
    cases hend
termination_by c.rest.length

/-- A list of words is followed by an end. -/
theorem Lists.isEnd {b : Bytes} {words : Program} (h : Lists True b words) : Token.isEnd b := by
  cases h with
  | nil hgap =>
    have hend := hgap.isEnd (fun _ => rfl : _ → ([] : Bytes) = [])
    rw [List.append_nil] at hend
    exact hend
  | cons hgap hapart _ _ =>
    rw [List.append_assoc]
    exact hgap.isEnd fun hnil => absurd hnil (hapart trivial)

/-- A list of words is read. -/
theorem tokens_of_lists {behind : Prop} {b : Bytes} {words : Program} (h : Lists behind b words)
    {c : Cursor} (hc : c.rest = b) : c.tokens.dropLast.mapM ofToken = .ok words := by
  induction h generalizing c with
  | @nil behind gap hgap =>
    have hnil : c.skipBlanks.rest = [] :=
      Cursor.skipBlanks_of_gap hgap (by rw [hc, List.append_nil]) (fun _ => rfl) rfl
    rw [Cursor.dropLast_tokens_of_nil hnil]
    rfl
  | @cons behind gap numeral rest w words hgap hapart hword hrest ih =>
    obtain ⟨a, tail, hl, hplain⟩ := Token.exists_isPlain_of_denotes hword
    have hskip : c.skipBlanks.rest = numeral ++ rest := by
      refine Cursor.skipBlanks_of_gap hgap ?_ False.elim ?_
      · rw [hc, List.append_assoc]
      · rw [hl, List.cons_append]
        exact hplain.blank? _
    have hne : c.skipBlanks.rest ≠ [] := by
      rw [hskip, hl]
      simp
    obtain ⟨hkind, hlexeme, hnext⟩ := Cursor.next_of_rest_ne_nil hne
    have hrecognize := Token.recognize_numeral hword hrest.isEnd
    rw [hskip, hrecognize] at hkind hlexeme
    rw [hskip, hlexeme, List.drop_left] at hnext
    rw [Cursor.dropLast_tokens_of_ne_nil hne, mapM_cons_ok_iff]
    exact ⟨w, words, ofToken_ok_iff.mpr ⟨hkind, by rw [hlexeme]; exact hword⟩, ih hnext, rfl⟩

theorem parse_ok_iff {source : Bytes} {words : Program} :
    parse source = .ok words ↔ Lists False source words :=
  ⟨fun h => lists_of_tokens (c := Cursor.ofText source) False.elim h,
    fun h => tokens_of_lists h rfl⟩

/-! ## Refusals -/

/-- Tokens are refused for the first one that is. -/
theorem exists_refused {ts : List Token} {e : SyntaxError} (h : ts.mapM ofToken = .error e) :
    ∃ before t after, ts = before ++ t :: after ∧ (∀ u ∈ before, ∃ w, ofToken u = .ok w) ∧
      ofToken t = .error e := by
  induction ts with
  | nil => cases h
  | cons t ts ih =>
    rw [List.mapM_cons] at h
    cases ht : ofToken t with
    | error why =>
      rw [ht] at h
      cases h
      exact ⟨[], t, ts, rfl, by simp, ht⟩
    | ok w =>
      cases hts : ts.mapM ofToken with
      | ok words =>
        rw [ht, hts] at h
        cases h
      | error why =>
        rw [ht, hts] at h
        cases h
        obtain ⟨before, u, after, rfl, hbefore, hu⟩ := ih hts
        exact ⟨t :: before, u, after, rfl, List.forall_mem_cons.mpr ⟨⟨w, ht⟩, hbefore⟩, hu⟩

/-- The error of a token names it and its place. -/
theorem eq_of_ofToken_error {t : Token} {e : SyntaxError} (h : ofToken t = .error e) :
    e = if t.kind = .number then .notInt32 t.lexeme t.pos else .notNumber t.lexeme t.pos := by
  unfold ofToken at h
  split at h
  · next hkind =>
    rw [if_pos hkind]
    split at h
    · cases h
    · cases h
      rfl
  · next hkind =>
    rw [if_neg hkind]
    cases h
    rfl

/-- A refused token is no numeral of a word. -/
theorem not_denotes_of_refused {source : Bytes} {t : Token} {e : SyntaxError}
    (ht : t ∈ Token.ofText source) (hkind : t.kind ≠ .eof) (h : ofToken t = .error e) (w : Int32) :
    ¬ Numeral.Denotes t.lexeme w.toInt := by
  obtain ⟨c, rfl⟩ := Token.mem_tokens ht
  have hne : c.skipBlanks.rest ≠ [] := fun hnil => hkind (Cursor.next_of_rest_eq_nil hnil)
  intro hw
  rw [(ofToken_next_ok_iff hne).mpr hw] at h
  cases h

/-- A text is read as a program exactly if it lists the words. Any other text is refused for its
first token that is no numeral of a word, and the error tells where that token stands. -/
theorem a_text_is_read_exactly_if_it_lists_words (source : Bytes) :
    (∀ words, parse source = .ok words ↔ Lists False source words) ∧
    ((∀ words, ¬ Lists False source words) →
      ∃ before t after, Token.ofText source = before ++ t :: after ∧ t.kind ≠ .eof ∧
        (∀ u ∈ before, ∃ w : Int32, Numeral.Denotes u.lexeme w.toInt) ∧
        (∀ w : Int32, ¬ Numeral.Denotes t.lexeme w.toInt) ∧
        t.pos.Exact source ∧ t.lexeme = source.extract t.pos.offset t.stop ∧
        parse source = .error
          (if t.kind = .number then .notInt32 t.lexeme t.pos else .notNumber t.lexeme t.pos)) := by
  refine ⟨fun words => parse_ok_iff, ?_⟩
  intro hno
  cases hparse : parse source with
  | ok words => exact absurd (parse_ok_iff.mp hparse) (hno words)
  | error e =>
    have htiling : Token.Tiling source 0 (Token.ofText source) :=
      Token.tiling_tokens (Nat.zero_le _)
    obtain ⟨init, last, htokens, -, -, hinit⟩ := htiling.ends
    unfold parse at hparse
    rw [htokens, List.dropLast_concat] at hparse
    obtain ⟨before, t, after, rfl, hbefore, ht⟩ := exists_refused hparse
    have hkind : t.kind ≠ .eof := hinit t (by simp)
    have hmem : t ∈ Token.ofText source := by
      rw [htokens]
      simp
    refine ⟨before, t, after ++ [last], by simp [htokens], hkind, ?_, ?_, htiling.exact t hmem,
      (htiling.lexeme t hmem hkind).2, by rw [eq_of_ofToken_error ht]⟩
    · intro u hu
      obtain ⟨w, hw⟩ := hbefore u hu
      exact ⟨w, (ofToken_ok_iff.mp hw).2⟩
    · exact not_denotes_of_refused hmem hkind ht

/-- The text `7//x`, `12:3` in two lines lists no words: the colon is the first token that is no
numeral of one. -/
theorem a_text_is_refused_for_its_colon :
    let source : Bytes := [55, 47, 47, 120, 10, 49, 50, 58, 51]
    parse source = .error (.notNumber [58] ⟨2, 3, 7⟩) ∧ (∀ words, ¬ Lists False source words) ∧
      ∃ before t after, Token.ofText source = before ++ t :: after ∧ t.lexeme = [58] ∧
        t.pos = ⟨2, 3, 7⟩ ∧ (∀ u ∈ before, ∃ w : Int32, Numeral.Denotes u.lexeme w.toInt) ∧
        ∀ w : Int32, ¬ Numeral.Denotes t.lexeme w.toInt := by
  intro source
  have hparse : parse source = .error (.notNumber [58] ⟨2, 3, 7⟩) := by
    decide +kernel
  obtain ⟨hread, hrefused⟩ := a_text_is_read_exactly_if_it_lists_words source
  have hno : ∀ words, ¬ Lists False source words := by
    intro words hlists
    have hok := (hread words).mpr hlists
    rw [hparse] at hok
    cases hok
  obtain ⟨before, t, after, htokens, -, hbefore, ht, -, -, herror⟩ := hrefused hno
  rw [hparse, Except.error.injEq] at herror
  split at herror
  · cases herror
  · obtain ⟨hlexeme, hpos⟩ := SyntaxError.notNumber.inj herror
    exact ⟨hparse, hno, before, t, after, htokens, hlexeme.symm, hpos.symm, hbefore, ht⟩

end Program

end TagMachine
