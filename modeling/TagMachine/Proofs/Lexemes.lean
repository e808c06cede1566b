import TagMachine.Assembly
import TagMachine.Proofs.Numerals

/-!
What the lexemes of tokens look like. A name holds only letters, digits, points and underscores, so
its case is the case of ASCII. A number is a numeral with an optional fraction and exponent.
-/

namespace TagMachine.Token

/-! ## Numbers -/

def IsSign (s : Bytes) : Prop := s = [] ∨ s = [43] ∨ s = [45]

def IsDigits (ds : Bytes) : Prop := ds ≠ [] ∧ ∀ d ∈ ds, Bytes.isDigit d

def IsFraction (f : Bytes) : Prop := f = [] ∨ ∃ ds, IsDigits ds ∧ f = 46 :: ds

def IsExponent (e : Bytes) : Prop :=
  e = [] ∨ ∃ x s ds, (x = 101 ∨ x = 69) ∧ IsSign s ∧ IsDigits ds ∧ e = x :: (s ++ ds)

/-- A number: a sign or none, digits, and perhaps a fraction and an exponent. -/
def IsNumber (l : Bytes) : Prop :=
  ∃ s ds f e, IsSign s ∧ IsDigits ds ∧ IsFraction f ∧ IsExponent e ∧ l = s ++ ds ++ f ++ e

/-- A numeral is a sign or none, and digits. -/
theorem exists_digits_of_denotes {l : Bytes} {x : Int} (h : Numeral.Denotes l x) :
    ∃ s ds, IsSign s ∧ IsDigits ds ∧ l = s ++ ds := by
  cases h with
  | plain hne hdigits => exact ⟨[], _, Or.inl rfl, ⟨hne, hdigits⟩, rfl⟩
  | plus hne hdigits => exact ⟨[43], _, Or.inr (Or.inl rfl), ⟨hne, hdigits⟩, rfl⟩
  | minus hne hdigits => exact ⟨[45], _, Or.inr (Or.inr rfl), ⟨hne, hdigits⟩, rfl⟩

theorem exists_denotes {s ds : Bytes} (hs : IsSign s) (hds : IsDigits ds) :
    ∃ x, Numeral.Denotes (s ++ ds) x := by
  rcases hs with rfl | rfl | rfl
  · exact ⟨_, .plain hds.1 hds.2⟩
  · exact ⟨_, .plus hds.1 hds.2⟩
  · exact ⟨_, .minus hds.1 hds.2⟩

theorem isSign_sign (b : Bytes) : IsSign (sign b).1 := by
  unfold sign IsSign
  split
  · next x rest =>
    split
    · next h =>
      simp only [Bool.or_eq_true, decide_eq_true_eq] at h
      rcases h with rfl | rfl <;> simp
    · simp
  · simp

theorem isDigit_of_mem_digits {b : Bytes} {d : UInt8} (h : d ∈ (digits b).1) : Bytes.isDigit d := by
  exact List.all_eq_true.mp List.all_takeWhile d h

theorem isDigits_digits {b : Bytes} (h : (digits b).1.isEmpty = false) : IsDigits (digits b).1 := by
  refine ⟨?_, fun d hd => isDigit_of_mem_digits hd⟩
  intro hnil
  rw [hnil] at h
  cases h

theorem isFraction_fraction (b : Bytes) : IsFraction (fraction b).1 := by
  unfold fraction
  split
  · next rest =>
    dsimp only
    by_cases h : (digits rest).1.isEmpty
    · rw [if_pos h]
      exact Or.inl rfl
    · rw [if_neg h]
      exact Or.inr ⟨_, isDigits_digits (by simpa using h), rfl⟩
  · exact Or.inl rfl

theorem isExponent_exponent (b : Bytes) : IsExponent (exponent b).1 := by
  unfold exponent
  split
  · exact Or.inl rfl
  · next x rest =>
    by_cases hx : x = 101 || x = 69
    · rw [if_pos hx]
      dsimp only
      by_cases h : (digits (sign rest).2).1.isEmpty
      · rw [if_pos h]
        exact Or.inl rfl
      · rw [if_neg h]
        refine Or.inr
          ⟨x, _, _, by simpa using hx, isSign_sign rest, isDigits_digits (by simpa using h), ?_⟩
        simp
    · rw [if_neg hx]
      exact Or.inl rfl

theorem isNumber_of_number? {b l r : Bytes} (h : number? b = some (l, r)) : IsNumber l := by
  unfold number? at h
  dsimp only at h
  by_cases hd : (digits (sign b).2).1.isEmpty
  · rw [if_pos hd] at h
    cases h
  · rw [if_neg hd] at h
    simp only [Option.some.injEq, Prod.mk.injEq] at h
    obtain ⟨rfl, -⟩ := h
    exact ⟨_, _, _, _, isSign_sign b, isDigits_digits (by simpa using hd), isFraction_fraction _,
      isExponent_exponent _, rfl⟩

/-! ## Names -/

theorem isNamePart_of_mem_name? {b l r : Bytes} {x : UInt8} (h : name? b = some (l, r))
    (hx : x ∈ l) :
    isNamePart x := by
  unfold name? at h
  split at h
  · next y rest =>
    split at h
    · next hy =>
      cases h
      rcases List.mem_cons.mp hx with rfl | hx
      · simp [isNamePart, hy]
      · exact List.all_eq_true.mp List.all_takeWhile x hx
    · cases h
  · cases h

theorem lt_of_isNamePart {x : UInt8} (h : isNamePart x) : x < 128 := by
  simp only [isNamePart, isNameStart, Bytes.isLetter, Bytes.isDigit, UInt8.le_iff_toNat_le,
    UInt8.reduceToNat, Bool.or_eq_true, Bool.and_eq_true, decide_eq_true_eq, beq_iff_eq,
    ← UInt8.toNat_inj] at h
  rw [UInt8.lt_iff_toNat_lt]
  simp only [UInt8.reduceToNat]
  omega

theorem upperName_of_lt {l : Bytes} (h : ∀ x ∈ l, x < 128) :
    Opcode.upperName l = l.map Bytes.upper := by
  induction l with
  | nil => rfl
  | cons x l ih =>
    have hx := h x (List.mem_cons_self ..)
    have hl := ih fun y hy => h y (List.mem_cons_of_mem _ hy)
    -- the first two cases are letters outside ASCII that have an upper case in it
    unfold Opcode.upperName
    split
    · next heq =>
      cases heq
      exact absurd hx (by decide)
    · next heq =>
      cases heq
      exact absurd hx (by decide)
    · next heq =>
      cases heq
      rw [hl]
      rfl
    · next heq => cases heq

theorem find?_name (op : Opcode) : Opcode.all.find? (·.name == op.name) = some op := by
  cases op <;> decide +kernel

/-- A name is a mnemonic exactly if its letters in upper case spell one. -/
theorem ofName?_eq_some_iff {l : Bytes} {op : Opcode} (h : ∀ x ∈ l, isNamePart x) :
    Opcode.ofName? l = some op ↔ op.name = l.map Bytes.upper := by
  unfold Opcode.ofName?
  rw [upperName_of_lt fun x hx => lt_of_isNamePart (h x hx)]
  constructor
  · intro hfind
    simpa using List.find?_some hfind
  · intro hname
    dsimp only
    rw [← hname]
    exact find?_name op

/-! ## Tokens of a text -/

theorem mem_tokens {c : Cursor} {t : Token} (h : t ∈ c.tokens) : ∃ d : Cursor, t = d.next.1 := by
  fun_induction Cursor.tokens c with
  | case1 c heof => exact ⟨c, by simpa using h⟩
  | case2 c hmore ih =>
    rcases List.mem_cons.mp h with rfl | h
    · exact ⟨c, rfl⟩
    · exact ih h

/-- A token that is no end and not illegal is a lexeme of its class. -/
theorem exists_lexeme? {c : Cursor} (heof : c.next.1.kind ≠ .eof)
    (hill : c.next.1.kind ≠ .illegal) :
    ∃ b r, lexeme? b = some (c.next.1.kind, c.next.1.lexeme, r) := by
  unfold Cursor.next at heof hill ⊢
  dsimp only at heof hill ⊢
  by_cases hempty : c.skipBlanks.rest.isEmpty
  · rw [if_pos hempty] at heof
    exact absurd rfl heof
  · rw [if_neg hempty] at hill ⊢
    refine ⟨c.skipBlanks.rest, ?_⟩
    unfold recognize at hill ⊢
    rw [if_neg hempty] at hill ⊢
    dsimp only at hill ⊢
    split at hill
    · next kind lexeme rest hlex =>
      by_cases hend : kind == .colon || isEnd rest
      · rw [if_pos hend]
        exact ⟨rest, hlex⟩
      · rw [if_neg hend] at hill
        exact absurd rfl hill
    · exact absurd rfl hill

theorem lexeme?_name {b l r : Bytes} (h : lexeme? b = some (.name, l, r)) :
    name? b = some (l, r) := by
  unfold lexeme? at h
  split at h
  · cases h
  · split at h
    · cases h
    · split at h
      · next hname =>
        cases h
        exact hname
      · split at h <;> cases h

theorem lexeme?_number {b l r : Bytes} (h : lexeme? b = some (.number, l, r)) :
    number? b = some (l, r) := by
  unfold lexeme? at h
  split at h
  · next hnumber =>
    cases h
    exact hnumber
  · split at h
    · cases h
    · split at h
      · cases h
      · split at h <;> cases h

/-- A token as if it stood at the start of the text. -/
def unplaced (t : Token) : Token := { t with pos := .start }

/-- What every token of a text keeps to. -/
structure Lexed (t : Token) : Prop where
  name : t.kind = .name → ∀ x ∈ t.lexeme, isNamePart x
  number : t.kind = .number → IsNumber t.lexeme

theorem lexed_of_mem_ofText {source : Bytes} {t : Token} (h : t ∈ Token.ofText source) :
    t.Lexed := by
  obtain ⟨c, rfl⟩ := mem_tokens h
  constructor
  · intro hkind x hx
    obtain ⟨b, r, hlex⟩ := exists_lexeme? (c := c) (by rw [hkind]; decide) (by rw [hkind]; decide)
    rw [hkind] at hlex
    exact isNamePart_of_mem_name? (lexeme?_name hlex) hx
  · intro hkind
    obtain ⟨b, r, hlex⟩ := exists_lexeme? (c := c) (by rw [hkind]; decide) (by rw [hkind]; decide)
    rw [hkind] at hlex
    exact isNumber_of_number? (lexeme?_number hlex)

end TagMachine.Token
