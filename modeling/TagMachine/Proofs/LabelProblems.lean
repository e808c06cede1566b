import Mathlib.Data.List.Nodup
import Mathlib.Data.List.TakeWhile
import TagMachine.Proofs.SourceParts
import TagMachine.Proofs.TokenTiling

/-!
What is wrong with a source. A program can be written in one pass, with zeros in place of references
that are filled in at the end; this gives the same words, labels and problems as fixing its items. A
definition is a problem if the name was defined in front of it, a reference if the name is defined
nowhere, and a source has these problems behind those of its statements, which come in the order of
the source.
-/

namespace TagMachine.Assembly

/-! ## Programs written in one pass -/

/-- A word that stays zero until the address of a label is known. -/
structure Hole where
  index : Nat
  name : Bytes
  pos : Position
  deriving DecidableEq, Repr

/-- A program as far as it is written. -/
structure Draft where
  words : List Int32
  table : LabelTable
  holes : List Hole
  problems : List Problem
  deriving DecidableEq, Repr

namespace Draft

/-- Nothing written yet. -/
def empty : Draft := ⟨[], [], [], []⟩

/-- Writes one more item. -/
def add (d : Draft) : Item → Draft
  | .word w => { d with words := d.words ++ [w] }
  | .reference name pos =>
    { d with words := d.words ++ [0], holes := d.holes ++ [⟨d.words.length, name, pos⟩] }
  | .label name pos =>
    match d.table.lookup name with
    | some _ => { d with problems := d.problems ++ [.duplicateLabel name pos] }
    | none => { d with table := d.table ++ [(name, d.words.length)] }

/-- Fills a hole, if its name has an address. -/
def fill (d : Draft) (hole : Hole) : Draft :=
  match d.table.lookup hole.name with
  | some address => { d with words := d.words.set hole.index (Int32.ofNat address) }
  | none => { d with problems := d.problems ++ [.undefinedLabel hole.name hole.pos] }

/-- Fills all holes in order. -/
def close (d : Draft) : Draft := { d.holes.foldl fill d with holes := [] }

/-- The program of items, written one by one and closed. -/
def ofItems (items : List Item) : Draft := (items.foldl add empty).close

end Draft

/-- The word that is written for an item at first. -/
def Item.blank? : Item → Option Int32
  | .word w => some w
  | .reference _ _ => some 0
  | .label _ _ => none

/-- The holes of items that are written at `address`. -/
def holesFrom (address : Nat) : List Item → List Hole
  | [] => []
  | .reference name pos :: rest => ⟨address, name, pos⟩ :: holesFrom (address + 1) rest
  | item :: rest => holesFrom (address + item.size) rest

namespace Draft

theorem add_label_of_some {d : Draft} {name : Bytes} {a : Nat} (h : d.table.lookup name = some a)
    (pos : Position) :
    d.add (.label name pos) = { d with problems := d.problems ++ [.duplicateLabel name pos] } := by
  simp only [add, h]

theorem add_label_of_none {d : Draft} {name : Bytes} (h : d.table.lookup name = none)
    (pos : Position) :
    d.add (.label name pos) = { d with table := d.table ++ [(name, d.words.length)] } := by
  simp only [add, h]

theorem fill_of_some {d : Draft} {hole : Hole} {a : Nat} (h : d.table.lookup hole.name = some a) :
    d.fill hole = { d with words := d.words.set hole.index (Int32.ofNat a) } := by
  simp only [fill, h]

theorem fill_of_none {d : Draft} {hole : Hole} (h : d.table.lookup hole.name = none) :
    d.fill hole = { d with problems := d.problems ++ [.undefinedLabel hole.name hole.pos] } := by
  simp only [fill, h]

/-- The names of a draft are those in its table. -/
def Names (d : Draft) (seen : List Bytes) : Prop :=
  ∀ name, name ∈ seen ↔ (d.table.lookup name).isSome

theorem Names.add_label {d : Draft} {seen : List Bytes} (h : d.Names seen) {name : Bytes}
    (hnone : d.table.lookup name = none) (pos : Position) :
    (d.add (.label name pos)).Names (name :: seen) := by
  intro n
  rw [add_label_of_none hnone, List.mem_cons, h, List.lookup_append, Option.isSome_or,
    Bool.or_eq_true, or_comm]
  by_cases hn : n = name
  · simp [hn]
  · have hbeq : (n == name) = false := by simpa using hn
    simp [hn, List.lookup_cons, hbeq]

/-- What a draft becomes when items are written. -/
theorem foldl_add {d : Draft} {seen : List Bytes} (items : List Item) (hseen : d.Names seen) :
    items.foldl add d =
      ⟨d.words ++ items.filterMap Item.blank?, labelsFrom d.table d.words.length items,
        d.holes ++ holesFrom d.words.length items, d.problems ++ duplicatesFrom seen items⟩ := by
  induction items generalizing d seen with
  | nil => simp [labelsFrom, holesFrom, duplicatesFrom]
  | cons item items ih =>
    rw [List.foldl_cons]
    cases item with
    | word w =>
      rw [ih (d := d.add (.word w)) hseen]
      simp [add, Item.blank?, labelsFrom, holesFrom, duplicatesFrom, Item.size]
    | reference name pos =>
      rw [ih (d := d.add (.reference name pos)) hseen]
      simp [add, Item.blank?, labelsFrom, holesFrom, duplicatesFrom, Item.size]
    | label name pos =>
      have hblank : (Item.label name pos :: items).filterMap Item.blank? =
          items.filterMap Item.blank? := rfl
      rw [hblank]
      cases hlookup : d.table.lookup name with
      | some a =>
        have hmem : name ∈ seen := (hseen name).mpr (by rw [hlookup]; rfl)
        have hnames : (d.add (.label name pos)).Names seen := by
          rw [add_label_of_some hlookup]
          exact hseen
        rw [ih hnames, add_label_of_some hlookup]
        simp [labelsFrom, holesFrom, duplicatesFrom, Item.size, hlookup, hmem]
      | none =>
        have hmem : name ∉ seen := by
          rw [hseen, hlookup]
          simp
        rw [ih (hseen.add_label hlookup pos), add_label_of_none hlookup]
        simp [labelsFrom, holesFrom, duplicatesFrom, Item.size, hlookup, hmem]

/-- Filling the holes of items that stand behind `front` fixes these items and changes nothing else,
not even a word that is zero. -/
theorem foldl_fill (front : List Int32) (table : LabelTable) (holes : List Hole)
    (problems : List Problem) (items : List Item) :
    (holesFrom front.length items).foldl fill
        ⟨front ++ items.filterMap Item.blank?, table, holes, problems⟩ =
      ⟨front ++ items.filterMap (·.fixed? table), table, holes,
        problems ++ undefined table items⟩ := by
  induction items generalizing front problems with
  | nil => simp [holesFrom, undefined]
  | cons item items ih =>
    -- the item's own word joins those in front, and the others follow
    have hnext : ∀ (w : Int32) (ps : List Problem),
        (holesFrom (front.length + 1) items).foldl fill
            ⟨front ++ w :: items.filterMap Item.blank?, table, holes, ps⟩ =
          ⟨front ++ w :: items.filterMap (·.fixed? table), table, holes,
            ps ++ undefined table items⟩ := by
      intro w ps
      simpa using ih (front ++ [w]) ps
    cases item with
    | word w => exact hnext w problems
    | label name pos => exact ih front problems
    | reference name pos =>
      have hblank : (Item.reference name pos :: items).filterMap Item.blank? =
          0 :: items.filterMap Item.blank? := rfl
      rw [holesFrom, List.foldl_cons, hblank]
      cases hlookup : table.lookup name with
      | some a =>
        have hset : (front ++ 0 :: items.filterMap Item.blank?).set front.length (Int32.ofNat a) =
            front ++ Int32.ofNat a :: items.filterMap Item.blank? := by
          simp
        rw [fill_of_some hlookup, hset, hnext]
        simp [Item.fixed?, undefined, hlookup]
      | none =>
        rw [fill_of_none hlookup, hnext]
        simp [Item.fixed?, undefined, hlookup]

end Draft

theorem ofItems_eq (items : List Item) :
    Draft.ofItems items = ⟨fix items, labels items, [], labelProblems items⟩ := by
  have hnames : Draft.empty.Names [] := by simp [Draft.Names, Draft.empty]
  have hwritten := Draft.foldl_add items hnames
  have hfilled := Draft.foldl_fill [] (labels items) (holesFrom 0 items) (duplicates items) items
  simp only [Draft.empty, List.nil_append, List.length_nil] at hwritten hfilled
  unfold Draft.ofItems Draft.close
  rw [Draft.empty, hwritten]
  unfold labels duplicates at hfilled
  dsimp only
  rw [hfilled]
  rfl

/-! ## Definitions and references -/

/-- A definition of a name that is defined in front of it. -/
def Item.repeated? (front : List Item) : Item → Option Problem
  | .label name pos => if name ∈ definedIn front then some (.duplicateLabel name pos) else none
  | _ => none

/-- A reference to a name that no item defines. -/
def Item.dangling? (items : List Item) : Item → Option Problem
  | .reference name pos => if name ∈ definedIn items then none else some (.undefinedLabel name pos)
  | _ => none

/-- Each repeated definition, in order; then each reference to nothing, in order. -/
def expectedProblems (items : List Item) : List Problem :=
  (items.inits.zip items).filterMap (fun p => p.2.repeated? p.1) ++
    items.filterMap (·.dangling? items)

/-- The words, labels and problems of items. -/
structure Resolves (items : List Item) (d : Draft) : Prop where
  /-- There is a word for each item but labels. -/
  length : d.words.length = size items
  /-- A word stays as it is. -/
  word : ∀ front w after, items = front ++ .word w :: after → d.words[size front]? = some w
  /-- A reference holds the address of its name, or zero if the name has none. -/
  reference : ∀ front name pos after, items = front ++ .reference name pos :: after →
    ∃ w, d.words[size front]? = some w ∧ w.toInt = (d.table.lookup name).getD 0
  /-- The address of a name is the number of words in front of its first definition. -/
  label : ∀ name a, d.table.lookup name = some a ↔
    ∃ front pos after, items = front ++ .label name pos :: after ∧ name ∉ definedIn front ∧
      a = size front
  /-- No name has two addresses. -/
  once : (d.table.map Prod.fst).Nodup
  holes : d.holes = []
  problems : d.problems = expectedProblems items

theorem definedIn_append (as bs : List Item) :
    definedIn (as ++ bs) = definedIn as ++ definedIn bs := List.filterMap_append

theorem mem_definedIn {name : Bytes} {items : List Item} :
    name ∈ definedIn items ↔ ∃ i ∈ items, i.label? = some name := List.mem_filterMap

theorem duplicatesFrom_eq {seen : List Bytes} {front : List Item} (items : List Item)
    (hseen : ∀ name, name ∈ seen ↔ name ∈ definedIn front) :
    duplicatesFrom seen items =
      ((items.inits.map (front ++ ·)).zip items).filterMap fun p => p.2.repeated? p.1 := by
  induction items generalizing seen front with
  | nil => rfl
  | cons item items ih =>
    have htail : ((item :: items).inits.map (front ++ ·)).zip (item :: items) =
        (front, item) :: ((items.inits.map (front ++ [item] ++ ·)).zip items) := by
      simp [Function.comp_def]
    rw [htail, List.filterMap_cons]
    cases item with
    | word w =>
      refine ih fun name => ?_
      rw [hseen, definedIn_append]
      simp [definedIn, Item.label?]
    | reference n pos =>
      refine ih fun name => ?_
      rw [hseen, definedIn_append]
      simp [definedIn, Item.label?]
    | label n pos =>
      rw [duplicatesFrom]
      by_cases hn : n ∈ seen
      · have hnext : ∀ name, name ∈ seen ↔ name ∈ definedIn (front ++ [.label n pos]) := by
          intro name
          rw [definedIn_append, List.mem_append, ← hseen]
          simp only [definedIn, Item.label?, List.filterMap_cons, List.filterMap_nil,
            List.mem_singleton]
          exact ⟨Or.inl, fun h => h.elim id fun h => h ▸ hn⟩
        rw [if_pos (by simpa using hn), ih hnext]
        simp [Item.repeated?, (hseen n).mp hn]
      · have hnext : ∀ name, name ∈ n :: seen ↔ name ∈ definedIn (front ++ [.label n pos]) := by
          intro name
          rw [definedIn_append, List.mem_append, List.mem_cons, hseen]
          simp only [definedIn, Item.label?, List.filterMap_cons, List.filterMap_nil,
            List.mem_singleton]
          exact or_comm
        have hfront : n ∉ definedIn front := fun h => hn ((hseen n).mpr h)
        rw [if_neg (by simpa using hn), ih hnext]
        simp [Item.repeated?, hfront]

theorem labelProblems_eq (items : List Item) : labelProblems items = expectedProblems items := by
  have hnone : ∀ name : Bytes, name ∈ [] ↔ name ∈ definedIn [] := by simp [definedIn]
  have hrepeated := duplicatesFrom_eq items hnone
  simp only [List.nil_append, List.map_id'] at hrepeated
  unfold labelProblems expectedProblems duplicates
  rw [hrepeated]
  congr 1
  unfold undefined
  refine List.filterMap_congr fun item _ => ?_
  cases item with
  | word w => rfl
  | label name pos => rfl
  | reference name pos =>
    simp only [Item.dangling?, lookup_labels]
    by_cases hname : name ∈ definedIn items <;> simp [hname]

/-- A name has the address of its first definition, and no other. -/
theorem lookup_labels_eq_some_iff {items : List Item} {name : Bytes} {a : Nat} :
    (labels items).lookup name = some a ↔
      ∃ front pos after, items = front ++ .label name pos :: after ∧ name ∉ definedIn front ∧
        a = size front := by
  rw [lookup_labels]
  constructor
  · intro h
    by_cases hmem : name ∈ definedIn items
    · rw [if_pos hmem, Option.some_inj] at h
      obtain ⟨i, hi, hlabel⟩ := mem_definedIn.mp hmem
      -- the items in front of the first one that defines the name
      obtain ⟨found, after, hsplit⟩ : ∃ found after,
          items.dropWhile (·.label? ≠ some name) = found :: after := by
        refine List.exists_cons_of_ne_nil fun hnil => ?_
        simpa [hlabel] using List.dropWhile_eq_nil_iff.mp hnil i hi
      have hfound : found.label? = some name := by
        have := List.head?_dropWhile_not (·.label? ≠ some name) items
        rw [hsplit] at this
        simpa using this
      cases found with
      | word w => cases hfound
      | reference n pos => cases hfound
      | label n pos =>
        cases hfound
        refine ⟨items.takeWhile (·.label? ≠ some name), pos, after, ?_, ?_, h.symm⟩
        · rw [← hsplit, List.takeWhile_append_dropWhile]
        · intro hfront
          obtain ⟨j, hj, hjlabel⟩ := mem_definedIn.mp hfront
          simpa [hjlabel] using List.mem_takeWhile_imp hj
    · rw [if_neg hmem] at h
      cases h
  · rintro ⟨front, pos, after, rfl, hfront, rfl⟩
    have hfree : ∀ i ∈ front, i.label? ≠ some name :=
      fun i hi hlabel => hfront (mem_definedIn.mpr ⟨i, hi, hlabel⟩)
    rw [if_pos (mem_definedIn.mpr ⟨.label name pos, by simp, rfl⟩), before_append hfree,
      before_label_self, Nat.add_zero]

theorem nodup_labelsFrom {table : LabelTable} (address : Nat) (items : List Item)
    (h : (table.map Prod.fst).Nodup) : ((labelsFrom table address items).map Prod.fst).Nodup := by
  induction items generalizing table address with
  | nil => exact h
  | cons item items ih =>
    cases item with
    | word w => exact ih (address + 1) h
    | reference name pos => exact ih (address + 1) h
    | label name pos =>
      rw [labelsFrom]
      cases hlookup : table.lookup name with
      | some a => exact ih address h
      | none =>
        refine ih address ?_
        have hfresh : name ∉ table.map Prod.fst := by
          intro hmem
          obtain ⟨p, hp, rfl⟩ := List.mem_map.mp hmem
          simpa using List.lookup_eq_none_iff.mp hlookup p hp
        rw [List.map_append]
        exact h.append (List.nodup_singleton name) (by simpa using hfresh)

/-- The word of an item stands behind those of the items in front of it. -/
theorem getElem?_fix (front : List Item) (item : Item) (after : List Item) {w : Int32}
    (h : item.fixed? (labels (front ++ item :: after)) = some w) :
    (fix (front ++ item :: after))[size front]? = some w := by
  unfold fix
  dsimp only
  rw [List.filterMap_append, List.filterMap_cons_some h,
    ← length_fixed (labels (front ++ item :: after))]
  simp

theorem lookup_le_size {items : List Item} {name : Bytes} {a : Nat}
    (h : (labels items).lookup name = some a) : a ≤ size items := by
  obtain ⟨front, pos, after, rfl, -, rfl⟩ := lookup_labels_eq_some_iff.mp h
  rw [size_append]
  omega

theorem resolves_ofItems {items : List Item} (h : size items < 2 ^ 31) :
    Resolves items (Draft.ofItems items) := by
  rw [ofItems_eq]
  refine ⟨length_fixed _ items, ?_, ?_, fun _ _ => lookup_labels_eq_some_iff,
    nodup_labelsFrom 0 items List.nodup_nil, rfl, labelProblems_eq items⟩
  · rintro front w after rfl
    exact getElem?_fix front _ after rfl
  · rintro front name pos after rfl
    refine ⟨_, getElem?_fix front _ after rfl, ?_⟩
    refine Int32.toInt_ofNat_of_lt ?_
    cases hlookup : (labels (front ++ .reference name pos :: after)).lookup name with
    | none => exact Nat.two_pow_pos 31
    | some a => exact Nat.lt_of_le_of_lt (lookup_le_size hlookup) h

/-! ## Problems of statements -/

/-- Where a problem is. -/
def Problem.pos : Problem → Position
  | .notWord _ pos | .unexpected _ pos | .unknownInstruction _ pos | .missingOperand _ pos
  | .notOneChar _ _ pos | .notFloat _ _ pos | .notInteger _ _ pos | .duplicateLabel _ pos
  | .undefinedLabel _ pos => pos

/-- A problem of labels, which no single statement has. -/
def Problem.ofLabel : Problem → Bool
  | .duplicateLabel _ _ | .undefinedLabel _ _ => true
  | _ => false

/-- Problems of statements between two offsets, in the order of the source. -/
structure Ordered (start stop : Nat) (ps : List Problem) : Prop where
  le : start ≤ stop
  within : ∀ p ∈ ps, start ≤ p.pos.offset ∧ p.pos.offset ≤ stop
  sorted : ps.Pairwise fun p q => p.pos.offset ≤ q.pos.offset
  ofStatement : ∀ p ∈ ps, p.ofLabel = false

theorem Ordered.nil {start stop : Nat} (h : start ≤ stop) : Ordered start stop [] :=
  ⟨h, by simp, .nil, by simp⟩

theorem Ordered.single {stop : Nat} {p : Problem} (h : p.pos.offset ≤ stop)
    (hp : p.ofLabel = false) :
    Ordered p.pos.offset stop [p] :=
  ⟨h, by simpa using h, List.pairwise_singleton _ p, by simpa using hp⟩

theorem Ordered.append {start mid stop : Nat} {ps qs : List Problem} (hp : Ordered start mid ps)
    (hq : Ordered mid stop qs) : Ordered start stop (ps ++ qs) where
  le := Nat.le_trans hp.le hq.le
  within := by
    intro p hmem
    rcases List.mem_append.mp hmem with hmem | hmem
    · exact ⟨(hp.within p hmem).1, Nat.le_trans (hp.within p hmem).2 hq.le⟩
    · exact ⟨Nat.le_trans hp.le (hq.within p hmem).1, (hq.within p hmem).2⟩
  sorted := by
    refine List.pairwise_append.mpr ⟨hp.sorted, hq.sorted, ?_⟩
    intro p hpmem q hqmem
    exact Nat.le_trans (hp.within p hpmem).2 (hq.within q hqmem).1
  ofStatement := by
    intro p hmem
    rcases List.mem_append.mp hmem with hmem | hmem
    · exact hp.ofStatement p hmem
    · exact hq.ofStatement p hmem

theorem Ordered.widen {start start' stop : Nat} {ps : List Problem} (h : Ordered start stop ps)
    (hle : start' ≤ start) : Ordered start' stop ps := by
  simpa using (Ordered.nil hle).append h

/-- Where the next token stands, or the source ends. -/
def nextOffset (stop : Position) : List Token → Nat
  | [] => stop.offset
  | t :: _ => t.pos.offset

/-- Tokens in the order of the source, none behind its end. -/
def InOrder (stop : Position) (ts : List Token) : Prop :=
  ts.Pairwise (fun t u => t.pos.offset ≤ u.pos.offset) ∧ ∀ t ∈ ts, t.pos.offset ≤ stop.offset

theorem InOrder.tail {stop : Position} {t : Token} {ts : List Token} (h : InOrder stop (t :: ts)) :
    InOrder stop ts ∧ t.pos.offset ≤ nextOffset stop ts := by
  obtain ⟨hsorted, hstop⟩ := h
  obtain ⟨hfirst, hrest⟩ := List.pairwise_cons.mp hsorted
  refine ⟨⟨hrest, fun u hu => hstop u (List.mem_cons_of_mem t hu)⟩, ?_⟩
  cases ts with
  | nil => exact hstop t List.mem_cons_self
  | cons u us => exact hfirst u List.mem_cons_self

theorem ordered_wordOr {stop : Nat} {p : Problem} (w : Int32 × Bool) (h : p.pos.offset ≤ stop)
    (hp : p.ofLabel = false) : Ordered p.pos.offset stop (wordOr w p).problems := by
  unfold wordOr
  split
  · exact .nil h
  · exact .single h hp

/-- An operand has its problem at the next token, taken or not. -/
theorem ordered_operand (stop : Position) (op : Opcode) (kind : Opcode.Operand) {ts : List Token}
    (h : InOrder stop ts) :
    InOrder stop (operand stop op kind ts).2 ∧
      Ordered (nextOffset stop ts) (nextOffset stop (operand stop op kind ts).2)
        (operand stop op kind ts).1.problems := by
  cases ts with
  | nil => exact ⟨h, .single (p := .missingOperand op stop) (Nat.le_refl _) rfl⟩
  | cons t rest =>
    obtain ⟨hrest, hle⟩ := h.tail
    unfold operand
    dsimp only
    split
    · split
      · exact ⟨h, .single (p := .missingOperand op t.pos) (Nat.le_refl _) rfl⟩
      · exact ⟨hrest, .nil hle⟩
    · exact ⟨hrest, ordered_wordOr (p := .notOneChar op t.lexeme t.pos) _ hle rfl⟩
    · exact ⟨hrest, ordered_wordOr (p := .notFloat op t.lexeme t.pos) _ hle rfl⟩
    · exact ⟨hrest, ordered_wordOr (p := .notInteger op t.lexeme t.pos) _ hle rfl⟩
    · exact ⟨h, .single (p := .missingOperand op t.pos) (Nat.le_refl _) rfl⟩

theorem ordered_operandList (stop : Position) (op : Opcode) (kinds : List Opcode.Operand)
    {ts : List Token} (h : InOrder stop ts) :
    InOrder stop (operandList stop op kinds ts).2 ∧
      Ordered (nextOffset stop ts) (nextOffset stop (operandList stop op kinds ts).2)
        (operandList stop op kinds ts).1.problems := by
  induction kinds generalizing ts with
  | nil => exact ⟨h, .nil (Nat.le_refl _)⟩
  | cons kind kinds ih =>
    obtain ⟨hrest, hfirst⟩ := ordered_operand stop op kind h
    obtain ⟨hlast, hothers⟩ := ih hrest
    exact ⟨hlast, hfirst.append hothers⟩

theorem ordered_instruction (stop : Position) {t : Token} {rest : List Token}
    (h : InOrder stop (t :: rest)) :
    InOrder stop (instruction stop t rest).2 ∧
      Ordered t.pos.offset (nextOffset stop (instruction stop t rest).2)
        (instruction stop t rest).1.problems := by
  obtain ⟨hrest, hle⟩ := h.tail
  unfold instruction
  split
  · exact ⟨hrest, .single (p := .unknownInstruction t.lexeme t.pos) hle rfl⟩
  · next op _ =>
    obtain ⟨hlast, hothers⟩ := ordered_operandList stop op op.operands hrest
    exact ⟨hlast, hothers.widen hle⟩

theorem ordered_statement (stop : Position) {t : Token} {rest : List Token}
    (h : InOrder stop (t :: rest)) :
    InOrder stop (statement stop t rest).2 ∧
      Ordered t.pos.offset (nextOffset stop (statement stop t rest).2)
        (statement stop t rest).1.problems := by
  obtain ⟨hrest, hle⟩ := h.tail
  unfold statement
  split
  · split
    · exact ⟨hrest, .nil hle⟩
    · exact ⟨hrest, .single (p := .notWord t.lexeme t.pos) hle rfl⟩
  · split
    · next next others =>
      split
      · obtain ⟨hothers, hle'⟩ := hrest.tail
        exact ⟨hothers, .nil (Nat.le_trans hle hle')⟩
      · exact ordered_instruction stop h
    · exact ordered_instruction stop h
  · exact ⟨hrest, .single (p := .unexpected t.lexeme t.pos) hle rfl⟩

theorem ordered_statements (stop : Position) {ts : List Token} (h : InOrder stop ts) :
    Ordered (nextOffset stop ts) stop.offset (statements stop ts).problems := by
  fun_induction statements stop ts with
  | case1 => exact .nil (Nat.le_refl _)
  | case2 t rest ih =>
    obtain ⟨hrest, hfirst⟩ := ordered_statement stop h
    exact hfirst.append (ih hrest)

/-- The problems of the statements of a source come in its order. -/
theorem ordered_read (source : Bytes) : Ordered 0 source.length (read source).problems := by
  have htiling : Token.Tiling source 0 (Token.ofText source) := Token.tiling_tokens (Nat.zero_le _)
  obtain ⟨init, last, htokens, -, hoffset, -⟩ := htiling.ends
  have hapart := htiling.apart
  rw [htokens] at hapart
  obtain ⟨hsorted, -, hlast⟩ := List.pairwise_append.mp hapart
  have horder : InOrder last.pos init :=
    ⟨hsorted.imp fun h => Nat.le_of_lt h.2, fun t ht => Nat.le_of_lt (hlast t ht last (by simp)).2⟩
  have hread : read source = statements last.pos init := by
    simp [read, htokens]
  rw [hread, ← hoffset]
  exact (ordered_statements last.pos horder).widen (Nat.zero_le _)

/-- Items written in one pass are fixed as they should be: a word for each word and each reference,
an address for each name, a problem for each repeated definition and then one for each reference to
nothing. A source assembles to the program that its items are fixed to, or it fails with the
problems of its statements, in its order, and then with just these problems of its labels. -/
theorem label_problems_are_complete_and_exact (items : List Item) (hsize : size items < 2 ^ 31)
    (source : Bytes) :
    Draft.ofItems items = ⟨fix items, labels items, [], labelProblems items⟩ ∧
    Resolves items (Draft.ofItems items) ∧
    assemble source =
      (let problems := (read source).problems ++ expectedProblems (read source).items
      if problems = [] then .ok (fix (read source).items) else .error problems) ∧
    Ordered 0 source.length (read source).problems := by
  refine ⟨ofItems_eq items, resolves_ofItems hsize, ?_, ordered_read source⟩
  unfold assemble Reading.allProblems
  simp only [labelProblems_eq, List.isEmpty_iff]

/-- A name is referred to in front of its definition and behind it, with a zero and a second
definition between; another name has no definition. In a source, the problem of a statement comes
first although a repeated definition stands in front of it. -/
theorem a_second_definition_moves_no_reference :
    let a : Bytes := [97]
    let b : Bytes := [98]
    let items : List Item := [.reference a ⟨1, 1, 0⟩, .word 0, .label a ⟨1, 2, 1⟩, .word 7,
      .label a ⟨1, 3, 2⟩, .reference b ⟨1, 4, 3⟩, .reference a ⟨1, 5, 4⟩]
    let source : Bytes := "a: a: GOTO b ?"
    size items < 2 ^ 31 ∧
    Resolves items ⟨[2, 0, 7, 0, 2], [(a, 2)], [],
      [.duplicateLabel a ⟨1, 3, 2⟩, .undefinedLabel b ⟨1, 4, 3⟩]⟩ ∧
    assemble source = .error
      [.unexpected [63] ⟨1, 14, 13⟩, .duplicateLabel a ⟨1, 4, 3⟩,
        .undefinedLabel b ⟨1, 12, 11⟩] := by
  intro a b items source
  have hsize : size items < 2 ^ 31 := by decide
  obtain ⟨-, hresolves, hassemble, -⟩ := label_problems_are_complete_and_exact items hsize source
  have hdraft : Draft.ofItems items = ⟨[2, 0, 7, 0, 2], [(a, 2)], [],
      [.duplicateLabel a ⟨1, 3, 2⟩, .undefinedLabel b ⟨1, 4, 3⟩]⟩ := by decide +kernel
  have hread : (read source).problems ++ expectedProblems (read source).items =
      [.unexpected [63] ⟨1, 14, 13⟩, .duplicateLabel a ⟨1, 4, 3⟩,
        .undefinedLabel b ⟨1, 12, 11⟩] := by
    decide +kernel
  rw [hdraft] at hresolves
  refine ⟨hsize, hresolves, ?_⟩
  rw [hassemble]
  dsimp only
  rw [hread]
  rfl

end TagMachine.Assembly
