import TagMachine.Proofs.SignedMagnitude
import TagMachine.Value

/-!
Equality of values. A path of indices leads to each part of a value, however deep arrays are nested.
Two values are equal exactly if the parts at every path are alike: both are arrays, or they hold the
same number or char. So equality has the laws that comparing single numbers has.
-/

namespace TagMachine.Value

variable {a b c u v w : Value}

/-! ## The parts of a value -/

/-- The part at a path. Each index leads to an element of an array. -/
def at? (v : Value) : List Nat → Option Value
  | [] => some v
  | i :: path =>
    match v with
    | .array elems => elems[i]?.bind (at? · path)
    | _ => none

@[simp] theorem at?_nil (v : Value) : v.at? [] = some v := rfl

@[simp] theorem at?_array (elems : List Value) (i : Nat) (path : List Nat) :
    (array elems).at? (i :: path) = elems[i]?.bind (at? · path) := rfl

theorem at?_cons_of_kind (h : v.kind ≠ .array) (i : Nat) (path : List Nat) :
    v.at? (i :: path) = none := by
  cases v with
  | array elems => exact absurd rfl h
  | _ => rfl

/-- What holds of every value without parts, and of an array if it holds of its elements, holds of
all values. -/
@[elab_as_elim]
theorem parts_induction {P : Value → Prop} (single : ∀ v, v.kind ≠ .array → P v)
    (array : ∀ elems, (∀ v ∈ elems, P v) → P (.array elems)) (v : Value) : P v := by
  refine @Value.rec P (fun elems => ∀ v ∈ elems, P v) ?unset ?int ?float ?char array ?nil ?cons v
  case unset | int | float | char =>
    intros
    exact single _ (by simp [kind])
  case nil => simp
  case cons =>
    intro v elems hv helems
    exact List.forall_mem_cons.mpr ⟨hv, helems⟩

/-! ## Parts that are alike -/

/-- Two values are arrays, or they have the same kind and the same contents. Floats compare as
numbers. -/
inductive Alike : Value → Value → Prop
  | unset : Alike .unset .unset
  | int (i : Int32) : Alike (.int i) (.int i)
  | float {x y : Binary32} : x.eq y → Alike (.float x) (.float y)
  | char (code : Int32) : Alike (.char code) (.char code)
  | array (xs ys : List Value) : Alike (.array xs) (.array ys)

theorem Alike.symm (h : Alike u v) : Alike v u := by
  cases h with
  | float h => exact .float (Binary32.eq_symm h)
  | _ => constructor

theorem Alike.trans (h : Alike u v) (h' : Alike v w) : Alike u w := by
  cases h with
  | float h =>
    cases h' with
    | float h' => exact .float (Binary32.eq_trans h h')
  | _ =>
    cases h'
    constructor

/-- The values are the same, or they are the two zeros. -/
def SameButZeroSign (u v : Value) : Prop :=
  v = u ∨ ∃ x : Binary32, x.isZero ∧ u = .float x ∧ v = .float x.neg

theorem alike_iff :
    Alike u v ↔ (∀ x, u = .float x → x.isNaN = false) ∧ u.kind = v.kind ∧
      (u.kind ≠ .array → SameButZeroSign u v) := by
  constructor
  · intro h
    cases h with
    | float h =>
      obtain ⟨hnan, hsame⟩ := Binary32.eq_iff_same.mp h
      refine ⟨fun x hx => by cases hx; exact hnan, rfl, fun _ => ?_⟩
      rcases hsame with rfl | ⟨hzero, rfl⟩
      · exact Or.inl rfl
      · exact Or.inr ⟨_, hzero, rfl, rfl⟩
    | array xs ys => exact ⟨by simp, rfl, fun h => absurd rfl h⟩
    | _ => exact ⟨by simp, rfl, fun _ => Or.inl rfl⟩
  · rintro ⟨hnan, hkind, hsame⟩
    cases u with
    | array xs =>
      cases v with
      | array ys => exact .array xs ys
      | _ => cases hkind
    | float x =>
      rcases hsame (by simp [kind]) with rfl | ⟨y, hzero, hx, rfl⟩
      · exact .float (Binary32.eq_iff_same.mpr ⟨hnan x rfl, Or.inl rfl⟩)
      · cases hx
        exact .float (Binary32.eq_iff_same.mpr ⟨hnan x rfl, Or.inr ⟨hzero, rfl⟩⟩)
    | _ =>
      rcases hsame (by simp [kind]) with rfl | ⟨_, _, hx, -⟩
      · constructor
      · cases hx

/-- Values without parts are equal exactly if they are alike. -/
theorem eq_iff_alike (h : a.kind ≠ .array) : a.eq b ↔ Alike a b := by
  constructor
  · intro heq
    cases a <;> cases b <;> simp only [eq, beq_iff_eq, Bool.false_eq_true] at heq
    case array => exact absurd rfl h
    case unset => exact .unset
    case float => exact .float heq
    all_goals
      subst heq
      constructor
  · intro halike
    cases halike with
    | array => exact absurd rfl h
    | float heq => exact heq
    | _ => simp [eq]

/-! ## Equality part by part -/

/-- Arrays are equal exactly if at every index both have an element, equal ones, or neither. -/
theorem eqAll_iff {xs ys : List Value} :
    eqAll xs ys ↔ ∀ i : Nat, Option.Rel (fun x y : Value => x.eq y) xs[i]? ys[i]? := by
  induction xs generalizing ys with
  | nil =>
    cases ys with
    | nil => simp [eqAll]
    | cons y ys =>
      simp only [eqAll, Bool.false_eq_true, false_iff]
      intro h
      cases h 0
  | cons x xs ih =>
    cases ys with
    | nil =>
      simp only [eqAll, Bool.false_eq_true, false_iff]
      intro h
      cases h 0
    | cons y ys =>
      rw [eqAll, Bool.and_eq_true, ih]
      constructor
      · rintro ⟨hhead, htail⟩ i
        cases i with
        | zero => exact .some hhead
        | succ i => exact htail i
      · intro h
        refine ⟨?_, fun i => h (i + 1)⟩
        cases h 0 with
        | some hhead => exact hhead

/-- If one element at a time is compared by its parts, so are the elements at one index. -/
theorem rel_iff_parts {x y : Option Value}
    (h : ∀ u ∈ x, ∀ v, u.eq v ↔ ∀ path, Option.Rel Alike (u.at? path) (v.at? path)) :
    Option.Rel (fun u v => u.eq v) x y ↔
      ∀ path, Option.Rel Alike (x.bind (at? · path)) (y.bind (at? · path)) := by
  cases x with
  | none =>
    cases y with
    | none => exact ⟨fun _ _ => .none, fun _ => .none⟩
    | some v =>
      constructor
      · intro hrel
        cases hrel
      · intro hparts
        cases hparts []
  | some u =>
    cases y with
    | none =>
      constructor
      · intro hrel
        cases hrel
      · intro hparts
        cases hparts []
    | some v =>
      constructor
      · intro hrel
        cases hrel with
        | some heq => exact (h u rfl v).mp heq
      · intro hparts
        exact .some ((h u rfl v).mpr hparts)

/-- Equality is decided part by part. -/
theorem eq_iff_parts : a.eq b ↔ ∀ path, Option.Rel Alike (a.at? path) (b.at? path) := by
  induction a using parts_induction generalizing b with
  | single a ha =>
    rw [eq_iff_alike ha]
    constructor
    · intro h path
      cases path with
      | nil => exact .some h
      | cons i path =>
        have hb : b.kind ≠ .array := by
          rw [← (alike_iff.mp h).2.1]
          exact ha
        rw [at?_cons_of_kind ha, at?_cons_of_kind hb]
        exact .none
    · intro h
      cases h [] with
      | some h => exact h
  | array xs ih =>
    cases b with
    | array ys =>
      -- the root is an array on both sides, so the other paths decide, and they begin with an index
      have hindex := fun i => rel_iff_parts (x := xs[i]?) (y := ys[i]?)
        fun u hu v => ih u (List.mem_of_getElem? hu)
      rw [eq, eqAll_iff]
      constructor
      · intro h path
        cases path with
        | nil => exact .some (.array xs ys)
        | cons i path => exact (hindex i).mp (h i) path
      · intro h i
        exact (hindex i).mpr fun path => h (i :: path)
    | _ =>
      simp only [eq, Bool.false_eq_true, false_iff]
      intro h
      cases h [] with
      | some h => cases h

/-! ## The laws of equality -/

theorem rel_symm {x y : Option Value} (h : Option.Rel Alike x y) : Option.Rel Alike y x := by
  cases h with
  | none => exact .none
  | some h => exact .some h.symm

theorem rel_trans {x y z : Option Value} (h : Option.Rel Alike x y) (h' : Option.Rel Alike y z) :
    Option.Rel Alike x z := by
  cases h with
  | none => exact h'
  | some h =>
    cases h' with
    | some h' => exact .some (h.trans h')

theorem eq_symm (h : a.eq b) : b.eq a := by
  rw [eq_iff_parts] at h ⊢
  exact fun path => rel_symm (h path)

theorem eq_trans (h : a.eq b) (h' : b.eq c) : a.eq c := by
  rw [eq_iff_parts] at h h' ⊢
  exact fun path => rel_trans (h path) (h' path)

/-- No float inside the value, at any depth, is "not a number". -/
def NaNFree (v : Value) : Prop := ∀ path x, v.at? path = some (.float x) → x.isNaN = false

/-- The values have the same kind, and so have their parts: the same paths lead somewhere. -/
def SameShape (a b : Value) : Prop := ∀ path, (a.at? path).map kind = (b.at? path).map kind

/-- Parts that are no arrays are the same, but for the signs of zeros. -/
def SameButZeroSigns (a b : Value) : Prop :=
  ∀ path u v, a.at? path = some u → b.at? path = some v → u.kind ≠ .array → SameButZeroSign u v

/-- What it means for the parts at one path to be alike. -/
theorem rel_alike_iff {x y : Option Value} :
    Option.Rel Alike x y ↔ (∀ z, x = some (.float z) → z.isNaN = false) ∧ x.map kind = y.map kind ∧
      ∀ u v, x = some u → y = some v → u.kind ≠ .array → SameButZeroSign u v := by
  cases x with
  | none =>
    cases y with
    | none => simp
    | some v => simp
  | some u =>
    cases y with
    | none => simp
    | some v => simp [alike_iff]

/-- Values are equal exactly if they hold the same numbers and chars in the same places, where the
two zeros are the same and "not a number" is not even the same as itself. -/
theorem eq_iff_same : a.eq b ↔ a.NaNFree ∧ SameShape a b ∧ SameButZeroSigns a b := by
  rw [eq_iff_parts]
  simp only [rel_alike_iff, forall_and]
  rfl

theorem eq_self_iff : a.eq a ↔ a.NaNFree := by
  rw [eq_iff_same]
  constructor
  · exact fun h => h.1
  · intro h
    refine ⟨h, fun _ => rfl, ?_⟩
    intro path u v hu hv _
    rw [hu] at hv
    exact Or.inl (Option.some.inj hv).symm

/-- Equality of values, with arrays nested to any depth, does not depend on the order of the two,
and it is transitive. Only a value with "not a number" inside is not equal to itself. Equal values
have the same shape and differ at most in the signs of zeros. -/
theorem equality_is_a_partial_equivalence_of_values (a b c : Value) :
    a.eq b = b.eq a ∧ (a.eq b → b.eq c → a.eq c) ∧ (a.eq a ↔ a.NaNFree) ∧
      (a.eq b ↔ a.NaNFree ∧ SameShape a b ∧ SameButZeroSigns a b) := by
  refine ⟨?_, eq_trans, eq_self_iff, eq_iff_same⟩
  rw [Bool.eq_iff_iff]
  exact ⟨eq_symm, eq_symm⟩

/-- A zero two arrays deep may have either sign, and a NaN there is not equal to itself. -/
theorem nested_zeros_are_equal_and_a_nested_nan_is_not :
    let a := array [array [float (.zero false), char 97], int 7]
    let b := array [array [float (.zero true), char 97], int 7]
    let c := array [array [float .nan]]
    (a.eq b ∧ b.eq a ∧ a.eq a) ∧ (SameShape a b ∧ SameButZeroSigns a b) ∧ ¬ c.NaNFree := by
  intro a b c
  have hab : a.eq b := by decide
  obtain ⟨hcomm, htrans, -, hsame⟩ := equality_is_a_partial_equivalence_of_values a b a
  obtain ⟨-, -, hself, -⟩ := equality_is_a_partial_equivalence_of_values c c c
  have hba : b.eq a := hcomm ▸ hab
  refine ⟨⟨hab, hba, htrans hab hba⟩, (hsame.mp hab).2, ?_⟩
  intro hfree
  exact absurd (hself.mpr hfree) (by decide)

end TagMachine.Value
