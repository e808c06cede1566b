import TagMachine.Proofs.SourceStatements

/-!
Where the words of a program lie. A label stands for the number of words of all statements before
it, and the words of a program are those of its statements, in order, with addresses for labels.
This is what assembling a source comes to.
-/

namespace TagMachine.Assembly

/-! ## The layout -/

/-- The number of program words of a statement. -/
def Statement.size : Statement → Nat
  | .raw _ => 1
  | .label _ => 0
  | .instruction _ args => 1 + args.length

/-- The name that a statement defines. -/
def Statement.label? : Statement → Option Bytes
  | .label name => some name
  | _ => none

/-- The name that an operand refers to. -/
def Argument.label? : Argument → Option Bytes
  | .label name => some name
  | .word _ => none

/-- The names that a statement refers to. -/
def Statement.references : Statement → List Bytes
  | .instruction _ args => args.filterMap Argument.label?
  | _ => []

/-- All names that statements define, in order. -/
def defined (ss : List Statement) : List Bytes := ss.filterMap Statement.label?

/-- All names that statements refer to, in order. -/
def referred (ss : List Statement) : List Bytes := ss.flatMap Statement.references

/-- The number of program words of statements. -/
def extent : List Statement → Nat
  | [] => 0
  | s :: ss => s.size + extent ss

/-- The address of a label: the number of words of all statements before it. -/
def address (ss : List Statement) (name : Bytes) : Nat := extent (ss.takeWhile (· ≠ .label name))

/-- The program word of an operand. -/
def Argument.value (address : Bytes → Nat) : Argument → Int32
  | .word w => w
  | .label name => Int32.ofNat (address name)

/-- The program words of a statement. -/
def Statement.words (address : Bytes → Nat) : Statement → List Int32
  | .raw w => [w]
  | .label _ => []
  | .instruction op args => op.word :: args.map (·.value address)

/-- The program words of statements. -/
def layout (ss : List Statement) : List Int32 := ss.flatMap (·.words (address ss))

example :
    layout [.instruction .goto [.label [120]], .raw 5, .label [120], .instruction .csti [.word 7]] =
      [16, 3, 5, 0, 7] := by
  decide

/-! ## Names of items -/

def Item.label? : Item → Option Bytes
  | .label name _ => some name
  | _ => none

def Item.reference? : Item → Option Bytes
  | .reference name _ => some name
  | _ => none

/-- All names that items define, in order. -/
def definedIn (items : List Item) : List Bytes := items.filterMap Item.label?

/-- All names that items refer to, in order. -/
def referredIn (items : List Item) : List Bytes := items.filterMap Item.reference?

theorem definedIn_label (name : Bytes) (pos : Position) (items : List Item) :
    definedIn (.label name pos :: items) = name :: definedIn items := rfl

theorem definedIn_cons {item : Item} (h : item.label? = none) (items : List Item) :
    definedIn (item :: items) = definedIn items := by
  simp [definedIn, h]

theorem duplicatesFrom_eq_nil_iff (seen : List Bytes) (items : List Item) :
    duplicatesFrom seen items = [] ↔
      (definedIn items).Nodup ∧ ∀ name ∈ definedIn items, name ∉ seen := by
  induction items generalizing seen with
  | nil => simp [duplicatesFrom, definedIn]
  | cons item items ih =>
    cases item with
    | word w =>
      rw [definedIn_cons rfl]
      exact ih seen
    | reference name pos =>
      rw [definedIn_cons rfl]
      exact ih seen
    | label name pos =>
      rw [duplicatesFrom, definedIn_label]
      by_cases hseen : name ∈ seen
      · rw [if_pos (by simpa using hseen)]
        simp [hseen]
      · rw [if_neg (by simpa using hseen), ih]
        simp only [List.nodup_cons, List.mem_cons, not_or, forall_eq_or_imp]
        constructor
        · rintro ⟨hnodup, hout⟩
          exact ⟨⟨fun hmem => (hout name hmem).1 rfl, hnodup⟩, hseen, fun n hn => (hout n hn).2⟩
        · rintro ⟨⟨hfresh, hnodup⟩, -, hout⟩
          refine ⟨hnodup, fun n hn => ⟨?_, hout n hn⟩⟩
          rintro rfl
          exact hfresh hn

theorem duplicates_eq_nil_iff (items : List Item) :
    duplicates items = [] ↔ (definedIn items).Nodup := by
  rw [duplicates, duplicatesFrom_eq_nil_iff]
  simp

theorem undefined_eq_nil_iff (table : LabelTable) (items : List Item) :
    undefined table items = [] ↔ ∀ name ∈ referredIn items, (table.lookup name).isSome := by
  unfold undefined referredIn
  rw [List.filterMap_eq_nil_iff]
  simp only [List.mem_filterMap, forall_exists_index, and_imp]
  constructor
  · intro h name item hitem hname
    have hfound := h item hitem
    cases item with
    | reference n pos =>
      cases hname
      cases hlookup : table.lookup name <;> simp_all
    | word w => cases hname
    | label n pos => cases hname
  · intro h item hitem
    cases item with
    | reference name pos =>
      have hfound := h name _ hitem rfl
      cases hlookup : table.lookup name <;> simp_all
    | word w => rfl
    | label name pos => rfl

/-! ## Addresses of items -/

/-- The number of words in front of the first definition of a name. -/
def before (name : Bytes) (items : List Item) : Nat := size (items.takeWhile (·.label? ≠ some name))

theorem before_label_self (name : Bytes) (pos : Position) (items : List Item) :
    before name (.label name pos :: items) = 0 := by
  simp [before, Item.label?, size]

theorem before_cons {name : Bytes} {item : Item} (h : item.label? ≠ some name) (items : List Item) :
    before name (item :: items) = item.size + before name items := by
  simp [before, h, size]

/-- The table gives a name the address of its first definition, unless it had one before. -/
theorem lookup_labelsFrom (table : LabelTable) (start : Nat) (items : List Item) (name : Bytes) :
    (labelsFrom table start items).lookup name =
      (table.lookup name).or
        (if name ∈ definedIn items then some (start + before name items) else none) := by
  induction items generalizing table start with
  | nil => simp [labelsFrom, definedIn]
  | cons item items ih =>
    cases item with
    | word w =>
      simp only [labelsFrom, Item.size]
      rw [ih, definedIn_cons rfl, before_cons (by simp [Item.label?]), Item.size, Nat.add_assoc]
    | reference n pos =>
      simp only [labelsFrom, Item.size]
      rw [ih, definedIn_cons rfl, before_cons (by simp [Item.label?]), Item.size, Nat.add_assoc]
    | label n pos =>
      by_cases hname : name = n
      · -- the first definition of the name, unless the table has it
        subst hname
        rw [before_label_self, definedIn_label, if_pos (List.mem_cons_self ..), Nat.add_zero]
        cases hlookup : table.lookup name with
        | some a =>
          simp only [labelsFrom, hlookup]
          rw [ih, hlookup]
          rfl
        | none =>
          simp only [labelsFrom, hlookup]
          rw [ih, List.lookup_append, hlookup]
          simp
      · -- another name: it takes no words and moves no address of this one
        have hkeep : (Item.label n pos).label? ≠ some name := by
          simpa [Item.label?] using Ne.symm hname
        rw [before_cons hkeep, definedIn_label, Item.size, Nat.zero_add]
        have hmem : name ∈ n :: definedIn items ↔ name ∈ definedIn items := by simp [hname]
        simp only [hmem]
        cases hlookup : table.lookup n with
        | some a =>
          simp only [labelsFrom, hlookup]
          rw [ih]
        | none =>
          simp only [labelsFrom, hlookup]
          have hbeq : (name == n) = false := by simpa using hname
          have hother : [(n, start)].lookup name = none := by simp [List.lookup_cons, hbeq]
          rw [ih, List.lookup_append, hother, Option.or_none]

theorem lookup_labels (items : List Item) (name : Bytes) :
    (labels items).lookup name =
      if name ∈ definedIn items then some (before name items) else none := by
  rw [labels, lookup_labelsFrom]
  simp

/-! ## Places do not matter -/

theorem label?_unplaced (item : Item) : item.unplaced.label? = item.label? := by
  cases item <;> rfl

theorem reference?_unplaced (item : Item) : item.unplaced.reference? = item.reference? := by
  cases item <;> rfl

theorem definedIn_unplaced (items : List Item) :
    definedIn (items.map Item.unplaced) = definedIn items := by
  simp [definedIn, List.filterMap_map, label?_unplaced]

theorem referredIn_unplaced (items : List Item) :
    referredIn (items.map Item.unplaced) = referredIn items := by
  simp [referredIn, List.filterMap_map, reference?_unplaced]

theorem labelsFrom_unplaced (table : LabelTable) (start : Nat) (items : List Item) :
    labelsFrom table start (items.map Item.unplaced) = labelsFrom table start items := by
  induction items generalizing table start with
  | nil => rfl
  | cons item items ih =>
    cases item with
    | word w => exact ih table (start + 1)
    | reference name pos => exact ih table (start + 1)
    | label name pos =>
      simp only [List.map_cons, Item.unplaced, labelsFrom]
      cases table.lookup name with
      | some a => exact ih table start
      | none => exact ih (table ++ [(name, start)]) start

theorem fix_unplaced (items : List Item) : fix (items.map Item.unplaced) = fix items := by
  have hfixed : ∀ table item, Item.fixed? table (Item.unplaced item) = Item.fixed? table item := by
    intro table item
    cases item <;> rfl
  unfold fix labels
  rw [labelsFrom_unplaced]
  simp [List.filterMap_map, hfixed]

/-! ## Items of statements -/

theorem label?_item (a : Argument) : a.item.label? = none := by
  cases a <;> rfl

theorem definedIn_items (ss : List Statement) :
    definedIn (ss.flatMap Statement.items) = defined ss := by
  induction ss with
  | nil => rfl
  | cons s ss ih =>
    unfold definedIn defined at ih ⊢
    rw [List.flatMap_cons, List.filterMap_append, ih]
    cases s with
    | raw w => rfl
    | label name => rfl
    | instruction op args =>
      have hargs : (args.map Argument.item).filterMap Item.label? = [] := by
        rw [List.filterMap_eq_nil_iff]
        simp [label?_item]
      rw [Statement.items, List.filterMap_cons_none rfl, hargs, List.filterMap_cons_none rfl]
      rfl

theorem referredIn_items (ss : List Statement) :
    referredIn (ss.flatMap Statement.items) = referred ss := by
  have hargument : ∀ a : Argument, a.item.reference? = a.label? := by
    intro a
    cases a <;> rfl
  unfold referredIn referred
  rw [List.filterMap_flatMap]
  congr 1
  funext s
  cases s with
  | raw w => rfl
  | label name => rfl
  | instruction op args =>
    rw [Statement.items, List.filterMap_cons_none rfl, List.filterMap_map]
    simp only [Function.comp_def, hargument]
    rfl

theorem size_items (s : Statement) : size s.items = s.size := by
  have hone : ∀ a : Argument, a.item.size = 1 := by
    intro a
    cases a <;> rfl
  cases s with
  | raw w => rfl
  | label name => rfl
  | instruction op args =>
    have hargs : size (args.map Argument.item) = args.length := by
      induction args with
      | nil => rfl
      | cons a args ih => rw [List.map_cons, size, ih, hone, List.length_cons, Nat.add_comm]
    rw [Statement.items, size, hargs]
    rfl

theorem before_append {name : Bytes} {items : List Item} (h : ∀ i ∈ items, i.label? ≠ some name)
    (rest : List Item) : before name (items ++ rest) = size items + before name rest := by
  induction items with
  | nil => simp [size]
  | cons item items ih =>
    obtain ⟨hitem, hitems⟩ := List.forall_mem_cons.mp h
    rw [List.cons_append, before_cons hitem, ih hitems, size, Nat.add_assoc]

/-- No item of a statement defines a name but the one of a label. -/
theorem label?_ne_of_mem_items {name : Bytes} {s : Statement} (h : s ≠ .label name) :
    ∀ i ∈ s.items, i.label? ≠ some name := by
  cases s with
  | raw w => simp [Statement.items, Item.label?]
  | label n =>
    simp only [Statement.items, List.mem_singleton, forall_eq, Item.label?, ne_eq,
      Option.some.injEq]
    rintro rfl
    exact h rfl
  | instruction op args =>
    intro i hi
    rcases List.mem_cons.mp hi with rfl | hi
    · simp [Item.label?]
    · obtain ⟨a, -, rfl⟩ := List.mem_map.mp hi
      rw [label?_item]
      simp

theorem before_items (ss : List Statement) (name : Bytes) :
    before name (ss.flatMap Statement.items) = address ss name := by
  induction ss with
  | nil => rfl
  | cons s ss ih =>
    rw [List.flatMap_cons]
    by_cases hs : s = .label name
    · subst hs
      simp [Statement.items, before_label_self, address, extent]
    · rw [before_append (label?_ne_of_mem_items hs), size_items, ih]
      simp [address, extent, hs]

/-- Fixing the items of statements lays the statements out. -/
theorem fix_items {ss : List Statement} (h : ∀ name ∈ referred ss, name ∈ defined ss) :
    fix (ss.flatMap Statement.items) = layout ss := by
  unfold fix layout
  dsimp only
  rw [List.filterMap_flatMap]
  apply List.flatMap_congr
  intro s hs
  cases s with
  | raw w => rfl
  | label name => rfl
  | instruction op args =>
    -- a label operand is one of the references, so the table has its address
    have hargs : ∀ a ∈ args, a.item.fixed? (labels (ss.flatMap Statement.items)) =
        some (a.value (address ss)) := by
      intro a ha
      cases a with
      | word w => rfl
      | label name =>
        have hmem : name ∈ referred ss := by
          refine List.mem_flatMap.mpr ⟨_, hs, ?_⟩
          exact List.mem_filterMap.mpr ⟨_, ha, rfl⟩
        simp only [Argument.item, Item.fixed?, Argument.value, lookup_labels, definedIn_items,
          if_pos (h name hmem), before_items, Option.getD_some]
    simp only [Statement.items, Statement.words, List.filterMap_cons, Item.fixed?,
      List.filterMap_map]
    congr 1
    rw [← List.filterMap_eq_map]
    apply List.filterMap_congr
    intro a ha
    exact hargs a ha

theorem fix_eq_layout {items : List Item} {ss : List Statement}
    (h : items.map Item.unplaced = ss.flatMap Statement.items)
    (hrefs : ∀ name ∈ referred ss, name ∈ defined ss) : fix items = layout ss := by
  rw [← fix_unplaced, h, fix_items hrefs]

/-! ## Assembling -/

open Decimal (leading)

/-- The labels of statements are in order: each is defined once, and every reference has one. -/
theorem labelProblems_eq_nil_iff {items : List Item} {ss : List Statement}
    (h : items.map Item.unplaced = ss.flatMap Statement.items) :
    labelProblems items = [] ↔ (defined ss).Nodup ∧ ∀ name ∈ referred ss, name ∈ defined ss := by
  have hdefined : definedIn items = defined ss := by
    rw [← definedIn_unplaced, h, definedIn_items]
  have hreferred : referredIn items = referred ss := by
    rw [← referredIn_unplaced, h, referredIn_items]
  have hlookup : ∀ name, ((labels items).lookup name).isSome ↔ name ∈ defined ss := by
    intro name
    rw [lookup_labels, hdefined]
    by_cases hname : name ∈ defined ss <;> simp [hname]
  rw [labelProblems, List.append_eq_nil_iff, duplicates_eq_nil_iff, undefined_eq_nil_iff, hdefined,
    hreferred]
  simp only [hlookup]

theorem lexed_of_mem_dropLast {source : Bytes} {t : Token}
    (h : t ∈ (Token.ofText source).dropLast) :
    t.Lexed :=
  Token.lexed_of_mem_ofText (List.dropLast_subset _ h)

theorem assemble_ok_iff {source : Bytes} {words : List Int32} :
    assemble source = .ok words ↔
      (read source).problems = [] ∧ labelProblems (read source).items = [] ∧
        words = fix (read source).items := by
  unfold assemble Reading.allProblems
  dsimp only
  by_cases h : ((read source).problems ++ labelProblems (read source).items).isEmpty
  · rw [if_pos h]
    have := List.append_eq_nil_iff.mp (List.isEmpty_iff.mp h)
    simp [this, eq_comm]
  · rw [if_neg h]
    have hne : ¬ ((read source).problems = [] ∧ labelProblems (read source).items = []) := by
      rw [← List.append_eq_nil_iff, ← List.isEmpty_iff]
      exact h
    simp only [reduceCtorEq, false_iff]
    rintro ⟨hproblems, hlabels, -⟩
    exact hne ⟨hproblems, hlabels⟩

theorem clean_read {source : Bytes} {ss : List Statement}
    (h : Parses leading (Token.ofText source).dropLast ss) :
    (read source).Clean (ss.flatMap Statement.items) :=
  statements_of_parses _ (fun _ => lexed_of_mem_dropLast) h

theorem exists_parses_of_assemble {source : Bytes} {words : List Int32}
    (h : assemble source = .ok words) : ∃ ss, Parses leading (Token.ofText source).dropLast ss := by
  obtain ⟨hproblems, -⟩ := assemble_ok_iff.mp h
  exact parses_of_statements _ (fun _ => lexed_of_mem_dropLast) hproblems

/-- Statements assemble exactly if their labels are in order. -/
theorem assemble_ok_iff_of_parses {source : Bytes} {ss : List Statement}
    (h : Parses leading (Token.ofText source).dropLast ss) {words : List Int32} :
    assemble source = .ok words ↔
      (defined ss).Nodup ∧ (∀ name ∈ referred ss, name ∈ defined ss) ∧ words = layout ss := by
  obtain ⟨hproblems, hitems⟩ := clean_read h
  rw [assemble_ok_iff, labelProblems_eq_nil_iff hitems, and_assoc]
  constructor
  · rintro ⟨-, hnodup, hrefs, rfl⟩
    exact ⟨hnodup, hrefs, fix_eq_layout hitems hrefs⟩
  · rintro ⟨hnodup, hrefs, rfl⟩
    exact ⟨hproblems, hnodup, hrefs, (fix_eq_layout hitems hrefs).symm⟩

theorem length_words (address : Bytes → Nat) (s : Statement) :
    (s.words address).length = s.size := by
  cases s with
  | raw w => rfl
  | label name => rfl
  | instruction op args => simp [Statement.words, Statement.size, Nat.add_comm]

theorem length_flatMap_words (address : Bytes → Nat) (ss : List Statement) :
    (ss.flatMap (·.words address)).length = extent ss := by
  induction ss with
  | nil => rfl
  | cons s ss ih => rw [List.flatMap_cons, List.length_append, ih, length_words, extent]

theorem length_layout (ss : List Statement) : (layout ss).length = extent ss :=
  length_flatMap_words (address ss) ss

theorem address_le_extent (ss : List Statement) (name : Bytes) : address ss name ≤ extent ss := by
  induction ss with
  | nil => exact Nat.le_refl 0
  | cons s ss ih =>
    unfold address at ih ⊢
    rw [List.takeWhile_cons]
    split
    · exact Nat.add_le_add_left ih s.size
    · exact Nat.zero_le _

end TagMachine.Assembly
