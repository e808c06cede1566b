import TagMachine.Proofs.Layout

/-!
The parts of any source, valid or not. Whatever is wrong with a source, it is read part by part: an
instruction takes its opcode and a word for each operand, even for one that is missing, a number
takes a word if it is one, and nothing else takes any. So a label stands for the number of words of
the parts before it.
-/

namespace TagMachine.Assembly

/-- A part of a source. -/
inductive Part where
  | raw (w : Int32)
  | label (name : Bytes) (pos : Position)
  /-- An instruction that is recognised, with what its operands are read as. -/
  | instruction (op : Opcode) (operands : List Item)
  /-- Something that is no statement. -/
  | refused
  deriving DecidableEq, Repr

namespace Part

/-- The items of a part. -/
def items : Part → List Item
  | raw w => [.word w]
  | label name pos => [.label name pos]
  | instruction op operands => .word op.word :: operands
  | refused => []

/-- The number of program words of a part. -/
def size : Part → Nat
  | raw _ => 1
  | label _ _ => 0
  | instruction op _ => 1 + op.arity
  | refused => 0

/-- The name that a part defines. -/
def label? : Part → Option Bytes
  | label name _ => some name
  | _ => none

/-- The part is a word written as a number. -/
def isRaw : Part → Bool
  | raw _ => true
  | _ => false

end Part

/-- The number of program words of parts. -/
def span : List Part → Nat
  | [] => 0
  | p :: ps => p.size + span ps

/-! ## How tokens make up parts -/

/-- The token is one that an operand is read off, right or wrong. -/
inductive Takes : Opcode.Operand → Token → Prop
  | number {kind : Opcode.Operand} {t : Token} : t.kind = .number → Takes kind t
  | char {t : Token} : t.kind = .string → Takes .char t
  | label {t : Token} : t.kind = .name → (∀ op, ¬ IsMnemonic t.lexeme op) → Takes .target t

/-- The tokens in front of `rest` that operands are read off, and what they are read as. Each
operand takes one token and one word, which may be that of a label, or is missing, takes no token
and is the word zero. -/
inductive Operands (rest : List Token) : List Opcode.Operand → List Token → List Item → Prop
  | nil : Operands rest [] [] []
  | taken {kind : Opcode.Operand} {kinds : List Opcode.Operand} {t : Token} {ts : List Token}
      {i : Item} {is : List Item} : Takes kind t → i.size = 1 → Operands rest kinds ts is →
      Operands rest (kind :: kinds) (t :: ts) (i :: is)
  | missing {kind : Opcode.Operand} {kinds : List Opcode.Operand} {ts : List Token}
      {is : List Item} : (∀ t, (ts ++ rest).head? = some t → ¬ Takes kind t) →
      Operands rest kinds ts is → Operands rest (kind :: kinds) ts (.word 0 :: is)

/-- Tokens make up one part in front of others. -/
inductive Opens : List Token → Part → List Token → Prop
  | raw {t : Token} {w : Int32} {rest : List Token} : t.kind = .number →
      Numeral.Denotes t.lexeme w.toInt → Opens [t] (.raw w) rest
  | notWord {t : Token} {rest : List Token} : t.kind = .number →
      (∀ w : Int32, ¬ Numeral.Denotes t.lexeme w.toInt) → Opens [t] .refused rest
  | label {t colon : Token} {rest : List Token} : t.kind = .name → colon.kind = .colon →
      Opens [t, colon] (.label t.lexeme t.pos) rest
  | instruction {t : Token} {op : Opcode} {us rest : List Token} {is : List Item} : t.kind = .name →
      ¬ AtColon (us ++ rest) → IsMnemonic t.lexeme op → Operands rest op.operands us is →
      Opens (t :: us) (.instruction op is) rest
  | unknown {t : Token} {rest : List Token} : t.kind = .name → ¬ AtColon rest →
      (∀ op, ¬ IsMnemonic t.lexeme op) → Opens [t] .refused rest
  | unexpected {t : Token} {rest : List Token} : t.kind ≠ .number → t.kind ≠ .name →
      Opens [t] .refused rest

/-- Tokens make up parts, one after the other. -/
inductive Splits : List Token → List Part → Prop
  | nil : Splits [] []
  | cons {ts rest : List Token} {p : Part} {ps : List Part} : Opens ts p rest → Splits rest ps →
      Splits (ts ++ rest) (p :: ps)

/-! ## The reader follows the parts -/

theorem items_wordOr (w : Int32 × Bool) (p : Problem) : (wordOr w p).items = [.word w.1] := by
  unfold wordOr
  split <;> rfl

theorem not_takes {kind : Opcode.Operand} {t : Token} (hnumber : t.kind ≠ .number)
    (hchar : ¬ (t.kind = .string ∧ kind = .char))
    (hlabel : t.kind = .name → kind = .target → ∃ op, IsMnemonic t.lexeme op) : ¬ Takes kind t := by
  intro h
  cases h with
  | number hkind => exact hnumber hkind
  | char hkind => exact hchar ⟨hkind, rfl⟩
  | label hkind hfree =>
    obtain ⟨op, hop⟩ := hlabel hkind rfl
    exact hfree op hop

/-- An operand is one word, right or wrong, off the next token if that is one to take. -/
theorem operand_cases (stop : Position) (op : Opcode) (kind : Opcode.Operand) {ts : List Token}
    (hts : ∀ t ∈ ts, t.Lexed) :
    ∃ i : Item, (operand stop op kind ts).1.items = [i] ∧
      ((∃ t, ts = t :: (operand stop op kind ts).2 ∧ Takes kind t ∧ i.size = 1) ∨
        i = .word 0 ∧ (operand stop op kind ts).2 = ts ∧
          ∀ t, ts.head? = some t → ¬ Takes kind t) := by
  cases ts with
  | nil => exact ⟨_, rfl, Or.inr ⟨rfl, rfl, by simp⟩⟩
  | cons t rest =>
    have ht : t.Lexed := hts t List.mem_cons_self
    unfold operand
    dsimp only
    split
    · next hkind =>
      by_cases hop : (Opcode.ofName? t.lexeme).isSome
      · rw [if_pos hop]
        obtain ⟨o, ho⟩ := Option.isSome_iff_exists.mp hop
        refine ⟨_, rfl, Or.inr ⟨rfl, rfl, ?_⟩⟩
        rintro u ⟨⟩
        exact not_takes (by simp [hkind]) (by simp [hkind])
          fun _ _ => ⟨o, (Token.ofName?_eq_some_iff (ht.name hkind)).mp ho⟩
      · rw [if_neg hop]
        refine ⟨_, rfl, Or.inl ⟨t, rfl, .label hkind fun o ho => hop ?_, rfl⟩⟩
        rw [(Token.ofName?_eq_some_iff (ht.name hkind)).mpr ho]
        rfl
    · next hkind => exact ⟨_, items_wordOr _ _, Or.inl ⟨t, rfl, .char hkind, rfl⟩⟩
    · next hkind => exact ⟨_, items_wordOr _ _, Or.inl ⟨t, rfl, .number hkind, rfl⟩⟩
    · next hkind _ => exact ⟨_, items_wordOr _ _, Or.inl ⟨t, rfl, .number hkind, rfl⟩⟩
    · -- no operand of this kind is read off such a token, which stays for the next one
      next hnumber htarget hchar _ =>
      refine ⟨_, rfl, Or.inr ⟨rfl, rfl, ?_⟩⟩
      rintro u ⟨⟩
      exact not_takes hnumber (fun h => hchar h.1 h.2) fun h h' => (htarget h h').elim

theorem operands_of_operandList (stop : Position) (op : Opcode) (kinds : List Opcode.Operand)
    {ts : List Token} (hts : ∀ t ∈ ts, t.Lexed) :
    ∃ us, ts = us ++ (operandList stop op kinds ts).2 ∧
      Operands (operandList stop op kinds ts).2 kinds us
        (operandList stop op kinds ts).1.items := by
  induction kinds generalizing ts with
  | nil => exact ⟨[], rfl, .nil⟩
  | cons kind kinds ih =>
    obtain ⟨i, hi, htaken⟩ := operand_cases stop op kind hts
    simp only [operandList, Reading.append, hi]
    -- a missing operand leaves all tokens to the others, so their first one is the one it missed
    rcases htaken with ⟨t, hcons, htakes, hsize⟩ | ⟨rfl, hsame, hnone⟩
    · obtain ⟨us, hus, hothers⟩ :=
        ih fun u hu => hts u (by rw [hcons]; exact List.mem_cons_of_mem t hu)
      rw [hus] at hcons
      exact ⟨t :: us, hcons, .taken htakes hsize hothers⟩
    · obtain ⟨us, hus, hothers⟩ := ih hts
      rw [hsame]
      refine ⟨us, hus, .missing ?_ hothers⟩
      rw [← hus]
      exact hnone

/-- Any statement is read as a part. -/
theorem opens_of_statement (stop : Position) {t : Token} {rest : List Token} (ht : t.Lexed)
    (hrest : ∀ u ∈ rest, u.Lexed) :
    ∃ us p, rest = us ++ (statement stop t rest).2 ∧
      Opens (t :: us) p (statement stop t rest).2 ∧ (statement stop t rest).1.items = p.items := by
  cases hkind : t.kind with
  | number =>
    unfold statement
    rw [hkind]
    cases hread : Numeral.readInt32 t.lexeme with
    | ok w => exact ⟨[], .raw w, rfl, .raw hkind (Numeral.readInt32_ok_iff.mp hread), rfl⟩
    | error e =>
      refine ⟨[], .refused, rfl, .notWord hkind ?_, rfl⟩
      intro w hw
      rw [Numeral.readInt32_ok_iff.mpr hw] at hread
      cases hread
  | name =>
    by_cases hcolon : AtColon rest
    · obtain ⟨c, rest, rfl, hc⟩ := hcolon
      refine ⟨[c], .label t.lexeme t.pos, ?_⟩
      unfold statement
      rw [hkind]
      dsimp only
      rw [hc]
      exact ⟨rfl, .label hkind hc, rfl⟩
    · rw [statement_name hkind hcolon]
      cases hop : Opcode.ofName? t.lexeme with
      | none =>
        unfold instruction
        rw [hop]
        refine ⟨[], .refused, rfl, .unknown hkind hcolon ?_, rfl⟩
        intro op hmnemonic
        rw [(Token.ofName?_eq_some_iff (ht.name hkind)).mpr hmnemonic] at hop
        cases hop
      | some op =>
        have hmnemonic : IsMnemonic t.lexeme op :=
          (Token.ofName?_eq_some_iff (ht.name hkind)).mp hop
        obtain ⟨us, hus, hoperands⟩ := operands_of_operandList stop op op.operands hrest
        rw [instruction_eq rest ht hkind hmnemonic]
        refine ⟨us, .instruction op _, hus, .instruction hkind ?_ hmnemonic hoperands, rfl⟩
        rw [← hus]
        exact hcolon
  | eof | string | colon | illegal =>
    unfold statement
    rw [hkind]
    exact ⟨[], .refused, rfl, .unexpected (by rw [hkind]; decide) (by rw [hkind]; decide), rfl⟩

theorem splits_of_statements (stop : Position) {ts : List Token} (hts : ∀ t ∈ ts, t.Lexed) :
    ∃ ps, Splits ts ps ∧ (statements stop ts).items = ps.flatMap Part.items := by
  fun_induction statements stop ts with
  | case1 => exact ⟨[], .nil, rfl⟩
  | case2 t rest ih =>
    obtain ⟨ht, hrest⟩ := List.forall_mem_cons.mp hts
    obtain ⟨us, p, hus, hopens, hitems⟩ := opens_of_statement stop ht hrest
    obtain ⟨ps, hps, hothers⟩ := ih fun u hu => hrest u (by rw [hus]; simp [hu])
    refine ⟨p :: ps, ?_, ?_⟩
    · have hsplits := Splits.cons hopens hps
      rw [List.cons_append, ← hus] at hsplits
      exact hsplits
    · rw [Reading.append, hitems, hothers, List.flatMap_cons]

/-! ## Sizes -/

theorem Operands.size {rest ts : List Token} {kinds : List Opcode.Operand} {is : List Item}
    (h : Operands rest kinds ts is) :
    Assembly.size is = kinds.length ∧ ∀ i ∈ is, i.label? = none := by
  induction h with
  | nil => exact ⟨rfl, by simp⟩
  | @taken _ kinds t ts i is _ hsize _ ih =>
    have hi : i.label? = none := by cases i <;> first | rfl | cases hsize
    refine ⟨?_, List.forall_mem_cons.mpr ⟨hi, ih.2⟩⟩
    rw [Assembly.size, hsize, ih.1, List.length_cons, Nat.add_comm]
  | missing _ _ ih =>
    refine ⟨?_, List.forall_mem_cons.mpr ⟨rfl, ih.2⟩⟩
    rw [Assembly.size, ih.1, List.length_cons, Nat.add_comm]
    rfl

/-- A part takes as many words as it has to, and defines no name but that of a label. -/
theorem Opens.size {ts rest : List Token} {p : Part} (h : Opens ts p rest) :
    Assembly.size p.items = p.size ∧ definedIn p.items = p.label?.toList := by
  cases h with
  | raw | label | notWord | unknown | unexpected => exact ⟨rfl, rfl⟩
  | @instruction _ op _ _ _ _ _ _ hoperands =>
    obtain ⟨hsize, hlabel⟩ := hoperands.size
    refine ⟨?_, ?_⟩
    · rw [Part.items, Assembly.size, hsize, op.length_operands]
      rfl
    · rw [Part.items, definedIn_cons rfl]
      exact List.filterMap_eq_nil_iff.mpr hlabel

/-- Parts whose sizes and names are those of their items. -/
def Sized (ps : List Part) : Prop :=
  ∀ p ∈ ps, size p.items = p.size ∧ definedIn p.items = p.label?.toList

theorem Splits.sized {ts : List Token} {ps : List Part} (h : Splits ts ps) : Sized ps := by
  induction h with
  | nil => simp [Sized]
  | cons hopens _ ih => exact List.forall_mem_cons.mpr ⟨hopens.size, ih⟩

theorem size_append (as bs : List Item) : size (as ++ bs) = size as + size bs := by
  induction as with
  | nil => simp [size]
  | cons a as ih => rw [List.cons_append, size, ih, size, Nat.add_assoc]

theorem span_append (ps qs : List Part) : span (ps ++ qs) = span ps + span qs := by
  induction ps with
  | nil => simp [span]
  | cons p ps ih => rw [List.cons_append, span, ih, span, Nat.add_assoc]

theorem size_parts {ps : List Part} (h : Sized ps) : size (ps.flatMap Part.items) = span ps := by
  induction ps with
  | nil => rfl
  | cons p ps ih =>
    obtain ⟨hp, hps⟩ := List.forall_mem_cons.mp h
    rw [List.flatMap_cons, size_append, hp.1, ih hps, span]

theorem length_fixed (table : LabelTable) (is : List Item) :
    (is.filterMap (·.fixed? table)).length = size is := by
  induction is with
  | nil => rfl
  | cons i is ih =>
    rw [List.filterMap_cons, size]
    cases i with
    | word | reference => exact (congrArg (· + 1) ih).trans (Nat.add_comm _ _)
    | label => exact ih.trans (Nat.zero_add _).symm

/-! ## Labels -/

theorem definedIn_parts {ps : List Part} (h : Sized ps) :
    definedIn (ps.flatMap Part.items) = ps.filterMap Part.label? := by
  induction ps with
  | nil => rfl
  | cons p ps ih =>
    obtain ⟨hp, hps⟩ := List.forall_mem_cons.mp h
    have hsplit : definedIn (p.items ++ ps.flatMap Part.items) =
        definedIn p.items ++ definedIn (ps.flatMap Part.items) := List.filterMap_append
    rw [List.flatMap_cons, hsplit, hp.2, ih hps]
    cases hlabel : p.label? <;> simp [hlabel]

/-- In front of its first definition a name stands for the words of the parts there. -/
theorem before_parts {ps : List Part} {name : Bytes} (h : Sized ps)
    (hname : ∀ p ∈ ps, p.label? ≠ some name) (pos : Position) (rest : List Part) :
    before name ((ps ++ .label name pos :: rest).flatMap Part.items) = span ps := by
  have hfree : ∀ i ∈ ps.flatMap Part.items, i.label? ≠ some name := by
    intro i hi heq
    have hmem : name ∈ definedIn (ps.flatMap Part.items) := List.mem_filterMap.mpr ⟨i, hi, heq⟩
    rw [definedIn_parts h] at hmem
    obtain ⟨p, hp, hlabel⟩ := List.mem_filterMap.mp hmem
    exact hname p hp hlabel
  rw [List.flatMap_append, before_append hfree, size_parts h, List.flatMap_cons]
  simp [Part.items, before_label_self]

/-- The table of labels has just the names that are defined, each with the number of words of the
parts in front of its first definition. -/
theorem lookup_labels_parts {ps : List Part} (h : Sized ps) (name : Bytes) (a : Nat) :
    (labels (ps.flatMap Part.items)).lookup name = some a ↔
      ∃ front pos rest, ps = front ++ .label name pos :: rest ∧
        (∀ p ∈ front, p.label? ≠ some name) ∧ a = span front := by
  rw [lookup_labels, definedIn_parts h]
  constructor
  · intro hlookup
    by_cases hmem : name ∈ ps.filterMap Part.label?
    · rw [if_pos hmem] at hlookup
      obtain ⟨p, hp, hlabel⟩ := List.mem_filterMap.mp hmem
      -- the first part that defines the name
      cases hfind : ps.find? (·.label? = some name) with
      | none => simpa [hlabel] using List.find?_eq_none.mp hfind p hp
      | some q =>
        obtain ⟨hq, front, rest, rfl, hfront⟩ := List.find?_eq_some_iff_append.mp hfind
        have hfree : ∀ p ∈ front, p.label? ≠ some name := by simpa using hfront
        cases q with
        | raw w => simp [Part.label?] at hq
        | instruction op is => simp [Part.label?] at hq
        | refused => simp [Part.label?] at hq
        | label n pos =>
          obtain rfl : n = name := by simpa [Part.label?] using hq
          have hsized : Sized front := fun p hp => h p (List.mem_append_left _ hp)
          rw [before_parts hsized hfree] at hlookup
          exact ⟨front, pos, rest, rfl, hfree, (Option.some.inj hlookup).symm⟩
    · rw [if_neg hmem] at hlookup
      cases hlookup
  · rintro ⟨front, pos, rest, rfl, hfree, rfl⟩
    have hsized : Sized front := fun p hp => h p (List.mem_append_left _ hp)
    rw [before_parts hsized hfree, if_pos]
    simp [Part.label?]

end TagMachine.Assembly
