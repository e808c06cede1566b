import TagMachine.Proofs.ProgramText

/-!
Texts made of lexemes with space between them. A number, a name or a string in front of which a
token may start and behind which it may end is a token of its own, so a text of such lexemes with
gaps between them is cut into just these. Every text without an illegal token is of that form, and
two such texts with a newline between them are one whose lexemes are those of both.
-/

namespace TagMachine

/-- A newline ends the comment that a gap may end with. -/
theorem Gap.append_newline {a b : Bytes} {p q : Prop} (ha : Gap p a) (hb : Gap q b) :
    Gap q (a ++ 10 :: b) := by
  induction ha with
  | nil => exact .space (c := Char.ofNat 10) rfl hb
  | space hspace _ ih =>
    rw [List.append_assoc]
    exact .space hspace ih
  | @comment body rest hbody hstop _ ih =>
    rw [List.cons_append, List.cons_append, List.append_assoc]
    refine .comment hbody (Or.inl ?_) ih
    rcases hstop with hnewline | ⟨rfl, -⟩
    · rw [List.head?_append, hnewline, Option.some_or]
    · rfl

namespace Token

/-- The text does not start with a byte of this class. -/
def Leaves (p : UInt8 → Bool) (b : Bytes) : Prop := ∀ x, b.head? = some x → p x = false

theorem leaves_of_isEnd {p : UInt8 → Bool} (hp : ∀ x, p x → Bytes.IsPlain x) {b : Bytes}
    (h : isEnd b) : Leaves p b := by
  intro x hx
  obtain ⟨rest, rfl⟩ := List.head?_eq_some_iff.mp hx
  cases hpx : p x with
  | false => rfl
  | true =>
    rw [(hp x hpx).isEnd] at h
    cases h

/-- A run of bytes of a class ends where the text leaves the class. -/
theorem span_append_of_leaves {p : UInt8 → Bool} {as b : Bytes} (has : ∀ x ∈ as, p x)
    (hb : Leaves p b) : (as ++ b).takeWhile p = as ∧ (as ++ b).dropWhile p = b := by
  have hstop : b.takeWhile p = [] ∧ b.dropWhile p = b := by
    cases b with
    | nil => exact ⟨rfl, rfl⟩
    | cons x b => simp [hb x rfl]
  rw [List.takeWhile_append_of_pos has, List.dropWhile_append_of_pos has, hstop.1, hstop.2,
    List.append_nil]
  exact ⟨rfl, rfl⟩

/-! ## Numbers -/

theorem leaves_digits_of_isEnd {b : Bytes} (h : isEnd b) : Leaves Bytes.isDigit b :=
  leaves_of_isEnd (fun _ => Bytes.isPlain_of_isDigit) h

theorem leaves_exponent {e rest : Bytes} (he : IsExponent e) (hend : isEnd rest) :
    Leaves Bytes.isDigit (e ++ rest) := by
  rcases he with rfl | ⟨x, s, ds, hx, -, -, rfl⟩
  · exact leaves_digits_of_isEnd hend
  · rintro y ⟨⟩
    rcases hx with rfl | rfl <;> rfl

theorem leaves_fraction {f b : Bytes} (hf : IsFraction f) (hb : Leaves Bytes.isDigit b) :
    Leaves Bytes.isDigit (f ++ b) := by
  rcases hf with rfl | ⟨ds, -, rfl⟩
  · exact hb
  · rintro y ⟨⟩
    rfl

theorem digits_of_leaves {ds b : Bytes} (hds : ∀ d ∈ ds, Bytes.isDigit d)
    (hb : Leaves Bytes.isDigit b) : digits (ds ++ b) = (ds, b) := by
  obtain ⟨htake, hdrop⟩ := span_append_of_leaves hds hb
  rw [digits, htake, hdrop]

theorem exponent_of_isExponent {e rest : Bytes} (he : IsExponent e) (hend : isEnd rest) :
    exponent (e ++ rest) = (e, rest) := by
  rcases he with rfl | ⟨x, s, ds, hx, hs, hds, rfl⟩
  · exact exponent_of_isEnd hend
  · have hmark : (x = 101 || x = 69) = true := by simpa using hx
    have hne : ds.isEmpty = false := by simpa using hds.1
    rw [List.cons_append, List.append_assoc]
    unfold exponent
    dsimp only
    rw [if_pos hmark, sign_of_isSign hs hds, digits_of_leaves hds.2 (leaves_digits_of_isEnd hend)]
    simp [hne]

theorem fraction_of_isFraction {f e rest : Bytes} (hf : IsFraction f) (he : IsExponent e)
    (hend : isEnd rest) : fraction (f ++ (e ++ rest)) = (f, e ++ rest) := by
  rcases hf with rfl | ⟨ds, hds, rfl⟩
  · rcases he with rfl | ⟨x, s, ds, hx, -, -, rfl⟩
    · exact fraction_of_isEnd hend
    · rcases hx with rfl | rfl <;> rfl
  · have hne : ds.isEmpty = false := by simpa using hds.1
    have hpoint : fraction (46 :: (ds ++ (e ++ rest))) =
        if (digits (ds ++ (e ++ rest))).1.isEmpty then ([], 46 :: (ds ++ (e ++ rest)))
        else (46 :: (digits (ds ++ (e ++ rest))).1, (digits (ds ++ (e ++ rest))).2) := rfl
    rw [List.cons_append, hpoint, digits_of_leaves hds.2 (leaves_exponent he hend), hne]
    rfl

theorem recognize_of_lexeme? {k : Kind} {l rest : Bytes} (hne : l ≠ [])
    (h : lexeme? (l ++ rest) = some (k, l, rest)) (hend : isEnd rest) :
    recognize (l ++ rest) = ⟨k, l, true⟩ := by
  have hempty : (l ++ rest).isEmpty = false := by simp [hne]
  unfold recognize
  rw [hempty, h]
  simp [hend]

/-- A number that may end where it does is a token. -/
theorem recognize_number {l rest : Bytes} (h : IsNumber l) (hend : isEnd rest) :
    recognize (l ++ rest) = ⟨.number, l, true⟩ := by
  obtain ⟨s, ds, f, e, hs, hds, hf, he, rfl⟩ := h
  have hne : ds.isEmpty = false := by simpa using hds.1
  have hsplit : s ++ ds ++ f ++ e ++ rest = s ++ (ds ++ (f ++ (e ++ rest))) := by simp
  have hnumber : number? (s ++ ds ++ f ++ e ++ rest) = some (s ++ ds ++ f ++ e, rest) := by
    unfold number?
    rw [hsplit, sign_of_isSign hs hds]
    dsimp only
    rw [digits_of_leaves hds.2 (leaves_fraction hf (leaves_exponent he hend))]
    dsimp only
    rw [fraction_of_isFraction hf he hend]
    dsimp only
    rw [exponent_of_isExponent he hend, hne]
    rfl
  apply recognize_of_lexeme? (by simp [hds.1]) _ hend
  unfold lexeme?
  rw [hnumber]

/-! ## Names -/

theorem isPlain_of_isNamePart {x : UInt8} (h : isNamePart x) : Bytes.IsPlain x := by
  have hlt := UInt8.lt_iff_toNat_lt.mp (lt_of_isNamePart h)
  simp only [isNamePart, isNameStart, Bytes.isLetter, Bytes.isDigit, UInt8.le_iff_toNat_le,
    UInt8.reduceToNat, Bool.or_eq_true, Bool.and_eq_true, decide_eq_true_eq, beq_iff_eq,
    ← UInt8.toNat_inj] at h
  unfold Bytes.IsPlain
  simp only [ne_eq, ← UInt8.toNat_inj, UInt8.reduceToNat]
  omega

/-- A name that may end where it does is a token. -/
theorem recognize_name {x : UInt8} {tail rest : Bytes} (hx : isNameStart x)
    (htail : ∀ y ∈ tail, isNamePart y) (hend : isEnd rest) :
    recognize (x :: tail ++ rest) = ⟨.name, x :: tail, true⟩ := by
  have hname : name? (x :: (tail ++ rest)) = some (x :: tail, rest) := by
    obtain ⟨htake, hdrop⟩ :=
      span_append_of_leaves htail (leaves_of_isEnd (fun _ => isPlain_of_isNamePart) hend)
    unfold name?
    dsimp only
    rw [if_pos hx, htake, hdrop]
  -- numbers and strings are tried first, but start with other bytes
  have hother : ∀ y : UInt8, isNameStart y = false → x ≠ y := by
    rintro y hy rfl
    rw [hx] at hy
    cases hy
  have hnumber : number? (x :: (tail ++ rest)) = none := by
    have hdigit : Bytes.isDigit x = false := by
      cases hd : Bytes.isDigit x with
      | false => rfl
      | true =>
        have hval := (Bytes.isDigit_iff x).mp hd
        simp only [isNameStart, Bytes.isLetter, UInt8.le_iff_toNat_le, UInt8.reduceToNat,
          Bool.or_eq_true, Bool.and_eq_true, decide_eq_true_eq, beq_iff_eq, ← UInt8.toNat_inj] at hx
        omega
    unfold number? sign
    simp [hother 43 rfl, hother 45 rfl, digits, hdigit]
  have hstring : string? (x :: (tail ++ rest)) = none := by
    unfold string?
    split
    · next heq =>
      cases heq
      exact absurd rfl (hother 34 rfl)
    · rfl
  rw [List.cons_append]
  apply recognize_of_lexeme? (l := x :: tail) (by simp) _ hend
  rw [List.cons_append]
  unfold lexeme?
  rw [hnumber, hstring, hname]

/-! ## Strings -/

/-- What may stand between the quotes of a string. A backslash takes the next byte with it, which
may not end the line. -/
inductive IsBody : Bytes → Prop
  | nil : IsBody []
  | byte {x : UInt8} {rest : Bytes} : x ≠ 34 → x ≠ 92 → IsBody rest → IsBody (x :: rest)
  | escape {y : UInt8} {rest : Bytes} : y ≠ 10 → IsBody rest → IsBody (92 :: y :: rest)

/-- A string with its quotes. -/
def IsString (l : Bytes) : Prop := ∃ body, IsBody body ∧ l = 34 :: (body ++ [34])

theorem IsBody.append {a b : Bytes} (ha : IsBody a) (hb : IsBody b) : IsBody (a ++ b) := by
  induction ha with
  | nil => exact hb
  | byte hquote hslash _ ih => exact .byte hquote hslash ih
  | escape hline _ ih => exact .escape hline ih

theorem stringTail?_of_isBody {body : Bytes} (h : IsBody body) (rest : Bytes) :
    stringTail? (body ++ 34 :: rest) = some (body ++ [34], rest) := by
  induction h with
  | nil =>
    rw [List.nil_append, stringTail?.eq_def]
    simp
  | byte hquote hslash _ ih =>
    rw [List.cons_append, stringTail?.eq_def]
    simp [hquote, hslash, ih]
  | escape hline _ ih =>
    rw [List.cons_append, List.cons_append, stringTail?.eq_def]
    simp [hline, ih]

theorem isBody_of_stringTail? {b l r : Bytes} (h : stringTail? b = some (l, r)) :
    ∃ body, IsBody body ∧ l = body ++ [34] := by
  fun_induction stringTail? b generalizing l r with
  | case1 => cases h
  | case2 =>
    cases h
    exact ⟨[], .nil, rfl⟩
  | case3 => cases h
  | case4 => cases h
  | case5 y rest hline hquote ih =>
    obtain ⟨⟨tail, after⟩, htail, hl⟩ := Option.map_eq_some_iff.mp h
    cases hl
    obtain ⟨body, hbody, rfl⟩ := ih htail
    exact ⟨92 :: y :: body, .escape hline hbody, rfl⟩
  | case6 x rest hquote hslash ih =>
    obtain ⟨⟨tail, after⟩, htail, hl⟩ := Option.map_eq_some_iff.mp h
    cases hl
    obtain ⟨body, hbody, rfl⟩ := ih htail
    exact ⟨x :: body, .byte hquote hslash hbody, rfl⟩

theorem isString_of_string? {b l r : Bytes} (h : string? b = some (l, r)) : IsString l := by
  unfold string? at h
  split at h
  · obtain ⟨⟨tail, after⟩, htail, hl⟩ := Option.map_eq_some_iff.mp h
    cases hl
    obtain ⟨body, hbody, rfl⟩ := isBody_of_stringTail? htail
    exact ⟨body, hbody, rfl⟩
  · cases h

/-- A string that may end where it does is a token. -/
theorem recognize_string {l rest : Bytes} (h : IsString l) (hend : isEnd rest) :
    recognize (l ++ rest) = ⟨.string, l, true⟩ := by
  obtain ⟨body, hbody, rfl⟩ := h
  have htail := stringTail?_of_isBody hbody rest
  have hsplit : 34 :: (body ++ [34]) ++ rest = 34 :: (body ++ 34 :: rest) := by simp
  apply recognize_of_lexeme? (by simp) _ hend
  rw [hsplit]
  unfold lexeme?
  simp [number?, sign, digits, Bytes.isDigit, string?, htail]

/-! ## The classes -/

/-- A name: a letter or an underscore, then letters, digits, points and underscores. -/
def IsName (l : Bytes) : Prop :=
  ∃ x tail, isNameStart x ∧ (∀ y ∈ tail, isNamePart y) ∧ l = x :: tail

/-- The lexemes of a class. The end of a text is none, and neither is anything illegal. -/
def IsLexeme : Kind → Bytes → Prop
  | .number, l => IsNumber l
  | .name, l => IsName l
  | .string, l => IsString l
  | .colon, l => l = [58]
  | .eof, _ | .illegal, _ => False

theorem isName_of_name? {b l r : Bytes} (h : name? b = some (l, r)) : IsName l := by
  have hparts := fun x => isNamePart_of_mem_name? (x := x) h
  unfold name? at h
  split at h
  · split at h
    · next hx =>
      cases h
      exact ⟨_, _, hx, fun y hy => hparts y (List.mem_cons_of_mem _ hy), rfl⟩
    · cases h
  · cases h

theorem isLexeme_of_lexeme? {b l r : Bytes} {k : Kind} (h : lexeme? b = some (k, l, r)) :
    IsLexeme k l := by
  unfold lexeme? at h
  split at h
  · next hnumber =>
    cases h
    exact isNumber_of_number? hnumber
  · split at h
    · next hstring =>
      cases h
      exact isString_of_string? hstring
    · split at h
      · next hname =>
        cases h
        exact isName_of_name? hname
      · split at h
        · cases h
          rfl
        · cases h

/-! ## Texts of lexemes -/

/-- A lexeme that is a token of its class wherever a token may end behind it. -/
def Stands (k : Kind) (l : Bytes) : Prop :=
  (∃ a tail, l = a :: tail ∧ Bytes.IsPlain a) ∧
    ∀ rest, isEnd rest → recognize (l ++ rest) = ⟨k, l, true⟩

theorem stands_number {l : Bytes} (h : IsNumber l) : Stands .number l := by
  refine ⟨?_, fun rest hend => recognize_number h hend⟩
  obtain ⟨s, ds, f, e, hs, ⟨hne, hdigits⟩, -, -, rfl⟩ := h
  rcases hs with rfl | rfl | rfl
  · cases ds with
    | nil => exact absurd rfl hne
    | cons d ds => exact ⟨d, _, rfl, Bytes.isPlain_of_isDigit (hdigits d List.mem_cons_self)⟩
  · exact ⟨43, _, rfl, by simp [Bytes.IsPlain]⟩
  · exact ⟨45, _, rfl, by simp [Bytes.IsPlain]⟩

theorem stands_name {x : UInt8} {tail : Bytes} (hx : isNameStart x)
    (htail : ∀ y ∈ tail, isNamePart y) : Stands .name (x :: tail) :=
  ⟨⟨x, tail, rfl, isPlain_of_isNamePart (by simp [isNamePart, hx])⟩,
    fun _ hend => recognize_name hx htail hend⟩

theorem stands_string {l : Bytes} (h : IsString l) : Stands .string l := by
  refine ⟨?_, fun rest hend => recognize_string h hend⟩
  obtain ⟨body, -, rfl⟩ := h
  exact ⟨34, _, rfl, by simp [Bytes.IsPlain]⟩

/-- The lexeme is a token of its class in front of this text. A colon is one in front of any. -/
def StandsBefore (rest : Bytes) (k : Kind) (l : Bytes) : Prop :=
  k = .colon ∧ l = [58] ∨ Stands k l ∧ isEnd rest

theorem standsBefore_of_isLexeme {l rest : Bytes} {k : Kind} (h : IsLexeme k l)
    (hend : k = .colon ∨ isEnd rest) : StandsBefore rest k l := by
  cases k with
  | number => exact Or.inr ⟨stands_number h, hend.resolve_left (by simp)⟩
  | name =>
    obtain ⟨x, tail, hx, htail, rfl⟩ := h
    exact Or.inr ⟨stands_name hx htail, hend.resolve_left (by simp)⟩
  | string => exact Or.inr ⟨stands_string h, hend.resolve_left (by simp)⟩
  | colon => exact Or.inl ⟨rfl, h⟩
  | eof | illegal => cases h

theorem standsBefore_of_lexeme? {b l rest : Bytes} {k : Kind} (h : lexeme? b = some (k, l, rest))
    (hend : k = .colon ∨ isEnd rest) : StandsBefore rest k l :=
  standsBefore_of_isLexeme (isLexeme_of_lexeme? h) hend

theorem StandsBefore.recognize {rest l : Bytes} {k : Kind} (h : StandsBefore rest k l) :
    l ++ rest ≠ [] ∧ Cursor.blank? (l ++ rest) = none ∧ recognize (l ++ rest) = ⟨k, l, true⟩ := by
  rcases h with ⟨rfl, rfl⟩ | ⟨⟨⟨a, tail, rfl, hplain⟩, hrecognize⟩, hend⟩
  · refine ⟨by simp, ?_, ?_⟩
    · unfold Cursor.blank?
      rw [List.singleton_append, Utf8.first?_ascii (by decide)]
      rfl
    · rfl
  · exact ⟨by simp, hplain.blank? _, hrecognize rest hend⟩

/-- The text is made of these lexemes, with gaps in front of each and behind the last. -/
inductive Cut : Bytes → List (Kind × Bytes) → Prop
  | nil {gap : Bytes} (hgap : Gap True gap) : Cut gap []
  | cons {gap lexeme rest : Bytes} {k : Kind} {ls : List (Kind × Bytes)} (hgap : Gap False gap)
      (hstands : StandsBefore rest k lexeme) (hrest : Cut rest ls) :
      Cut (gap ++ (lexeme ++ rest)) ((k, lexeme) :: ls)

/-- What a lexeme of a class stands for. -/
def literalOf (k : Kind) (l : Bytes) : Bytes :=
  if k == .illegal then [] else if k == .string then stringValue l else l

/-- The token of a lexeme at the start of the text. -/
def ofLexeme (l : Kind × Bytes) : Token := ⟨l.1, l.2, literalOf l.1 l.2, .start⟩

theorem next_of_standsBefore {c : Cursor} {l rest : Bytes} {k : Kind}
    (hc : c.skipBlanks.rest = l ++ rest) (h : StandsBefore rest k l) :
    c.next.1.unplaced = ofLexeme (k, l) ∧ c.next.2.rest = rest := by
  obtain ⟨hne, -, hrecognize⟩ := h.recognize
  have hempty : (l ++ rest).isEmpty = false := by simpa using hne
  unfold Cursor.next
  dsimp only
  rw [hc, hempty, hrecognize]
  refine ⟨rfl, ?_⟩
  simp [Cursor.skip, hc]

/-- Such a text is cut into its lexemes. -/
theorem Cut.tokens {b : Bytes} {ls : List (Kind × Bytes)} (h : Cut b ls) {c : Cursor}
    (hc : c.rest = b) : c.tokens.dropLast.map unplaced = ls.map ofLexeme := by
  induction h generalizing c with
  | nil hgap =>
    have hnil : c.skipBlanks.rest = [] :=
      Cursor.skipBlanks_of_gap hgap (by rw [hc, List.append_nil]) (fun _ => rfl) rfl
    rw [Cursor.dropLast_tokens_of_nil hnil]
    rfl
  | @cons gap lexeme rest k ls hgap hstands _ ih =>
    obtain ⟨hne, hblank, -⟩ := hstands.recognize
    have hskip : c.skipBlanks.rest = lexeme ++ rest :=
      Cursor.skipBlanks_of_gap hgap hc False.elim hblank
    obtain ⟨htoken, hrest⟩ := next_of_standsBefore hskip hstands
    rw [Cursor.dropLast_tokens_of_ne_nil (by rw [hskip]; exact hne), List.map_cons, htoken,
      ih hrest, List.map_cons]

/-- A token that is not illegal is a lexeme that stands behind a gap. -/
theorem exists_standsBefore {c : Cursor} (hne : c.skipBlanks.rest ≠ [])
    (hlegal : c.next.1.kind ≠ .illegal) :
    ∃ gap k l, c.rest = gap ++ (l ++ c.next.2.rest) ∧ c.skipBlanks.rest = l ++ c.next.2.rest ∧
      Gap False gap ∧ StandsBefore c.next.2.rest k l ∧ c.next.1.lexeme = l := by
  obtain ⟨gap, hsplit, hgap, -⟩ := c.exists_gap
  obtain ⟨hkind, hlexeme, -⟩ := Cursor.next_of_rest_ne_nil hne
  rcases recognize_cases hne with ⟨k, l, r, hfound, hrecognize, hend⟩ | hillegal
  · have hstands := standsBefore_of_lexeme? hfound hend
    have hrest : l ++ r = c.skipBlanks.rest := lexeme?_append hfound
    obtain ⟨-, hnext⟩ := next_of_standsBefore hrest.symm hstands
    rw [eq_false hne] at hgap
    refine ⟨gap, k, l, ?_, ?_, hgap, ?_, by rw [hlexeme, hrecognize]⟩
    · rw [hnext, hrest, ← hsplit]
    · rw [hnext, hrest]
    · rw [hnext]
      exact hstands
  · rw [hkind, hillegal] at hlegal
    exact absurd rfl hlegal

/-- A text without an illegal token is made of lexemes. -/
theorem exists_cut (c : Cursor) (h : ∀ t ∈ c.tokens.dropLast, t.kind ≠ .illegal) :
    ∃ ls, Cut c.rest ls := by
  by_cases hnil : c.skipBlanks.rest = []
  · obtain ⟨gap, hsplit, hgap, -⟩ := c.exists_gap
    rw [hnil, List.append_nil] at hsplit
    rw [hnil, eq_self] at hgap
    rw [hsplit]
    exact ⟨[], .nil hgap⟩
  · rw [Cursor.dropLast_tokens_of_ne_nil hnil] at h
    obtain ⟨hlegal, hothers⟩ := List.forall_mem_cons.mp h
    obtain ⟨gap, k, l, hsplit, -, hgap, hstands, -⟩ := exists_standsBefore hnil hlegal
    have hlt : c.next.2.rest.length < c.rest.length :=
      Cursor.length_next_lt (Cursor.kind_next_ne_eof hnil)
    obtain ⟨ls, hcut⟩ := exists_cut c.next.2 hothers
    rw [hsplit]
    exact ⟨(k, l) :: ls, .cons hgap hstands hcut⟩
termination_by c.rest.length

/-- The text is made of these lexemes with gaps in front of them. `behind` another lexeme a gap is
not empty. -/
inductive Spaced : (behind : Prop) → Bytes → List (Kind × Bytes) → Prop
  | nil {behind : Prop} : Spaced behind [] []
  | cons {behind : Prop} {gap lexeme rest : Bytes} {k : Kind} {ls : List (Kind × Bytes)}
      (hgap : Gap False gap) (hapart : behind → gap ≠ []) (hstands : Stands k lexeme)
      (hrest : Spaced True rest ls) : Spaced behind (gap ++ lexeme ++ rest) ((k, lexeme) :: ls)

theorem Spaced.isEnd {b : Bytes} {ls : List (Kind × Bytes)} (h : Spaced True b ls) :
    Token.isEnd b := by
  cases h with
  | nil => rfl
  | cons hgap hapart _ _ =>
    rw [List.append_assoc]
    exact hgap.isEnd fun hnil => absurd hnil (hapart trivial)

theorem Spaced.cut {behind : Prop} {b : Bytes} {ls : List (Kind × Bytes)} (h : Spaced behind b ls) :
    Cut b ls := by
  induction h with
  | nil => exact .nil .nil
  | cons hgap _ hstands hrest ih =>
    rw [List.append_assoc]
    exact .cons hgap (Or.inr ⟨hstands, hrest.isEnd⟩) ih

theorem Spaced.tokens {behind : Prop} {b : Bytes} {ls : List (Kind × Bytes)}
    (h : Spaced behind b ls) {c : Cursor} (hc : c.rest = b) :
    c.tokens.dropLast.map (fun t => (t.kind, t.lexeme)) = ls := by
  have htokens := congrArg (List.map fun t => (t.kind, t.lexeme)) (h.cut.tokens hc)
  rw [List.map_map, List.map_map] at htokens
  exact htokens.trans (List.map_id ls)

/-! ## A newline between two texts -/

theorem startsWithSpace_append {b : Bytes} (h : b.startsWithSpace) (rest : Bytes) :
    Bytes.startsWithSpace (b ++ rest) := by
  unfold Bytes.startsWithSpace at h ⊢
  split at h
  · next c tail hfirst =>
    obtain ⟨l, rfl, rfl | rfl⟩ := Utf8.eq_append_of_first? hfirst
    · rw [List.append_assoc, Utf8.first?_encode]
      exact h
    · exact absurd h (by decide)
  · cases h

theorem isEnd_append_newline {b : Bytes} (h : isEnd b) (rest : Bytes) :
    isEnd (b ++ 10 :: rest) := by
  cases b with
  | nil => exact isEnd_of_startsWithSpace rfl
  | cons x b =>
    simp only [isEnd, Bool.or_eq_true, Bool.and_eq_true, beq_iff_eq] at h
    rcases h with (rfl | ⟨rfl, hslash⟩) | hspace
    · rfl
    · simp [isEnd, List.head?_append, hslash]
    · exact isEnd_of_startsWithSpace (startsWithSpace_append hspace _)

theorem StandsBefore.append_newline {rest l : Bytes} {k : Kind} (h : StandsBefore rest k l)
    (b : Bytes) : StandsBefore (rest ++ 10 :: b) k l := by
  rcases h with hcolon | ⟨hstands, hend⟩
  · exact Or.inl hcolon
  · exact Or.inr ⟨hstands, isEnd_append_newline hend b⟩

/-- Two texts with a newline between them are made of the lexemes of both. -/
theorem Cut.append_newline {a b : Bytes} {as bs : List (Kind × Bytes)} (ha : Cut a as)
    (hb : Cut b bs) :
    Cut (a ++ 10 :: b) (as ++ bs) := by
  induction ha with
  | nil hgap =>
    -- the lexemes of the second text stand behind a longer gap
    cases hb with
    | nil hgap' => exact .nil (hgap.append_newline hgap')
    | cons hgap' hstands hrest =>
      have hcons := Cut.cons (hgap.append_newline hgap') hstands hrest
      rw [List.append_assoc, List.cons_append] at hcons
      exact hcons
  | cons hgap hstands _ ih =>
    rw [List.append_assoc, List.append_assoc]
    exact .cons hgap (hstands.append_newline b) ih

end Token

end TagMachine
