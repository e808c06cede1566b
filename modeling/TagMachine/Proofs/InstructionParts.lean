import TagMachine.Machine.Step

/-!
What the parts of an instruction do: reading program words, reading and writing slots, pushing, and
moving blocks of slots. Each part is described once, by when it succeeds and what it leaves, and the
rules for whole instructions are put together from these descriptions.
-/

namespace TagMachine.Machine

variable {m n : Machine}

/-! ## Slots -/

theorem hasSlot_iff (m : Machine) (i : Int) : m.HasSlot i ↔ 0 ≤ i ∧ i < m.capacity := Iff.rfl

theorem slot?_isSome_iff (m : Machine) (i : Int) : (m.slot? i).isSome ↔ m.HasSlot i := by
  unfold slot? HasSlot capacity
  split
  · rw [Option.isSome_iff_ne_none, ne_eq, Array.getElem?_eq_none_iff]
    omega
  · simp only [Option.isSome_none, Bool.false_eq_true, false_iff]
    omega

theorem hasSlot_of_slot? {i : Int} {v : Value} (h : m.slot? i = some v) : m.HasSlot i := by
  rw [← slot?_isSome_iff, h]
  rfl

theorem exists_slot? {i : Int} (h : m.HasSlot i) : ∃ v, m.slot? i = some v :=
  Option.isSome_iff_exists.mp ((slot?_isSome_iff m i).mpr h)

/-- A write leaves everything but the slots alone, and as many slots as there were. -/
@[simp] theorem withSlot_keeps (m : Machine) (i : Int) (v : Value) :
    (m.withSlot i v).code = m.code ∧ (m.withSlot i v).args = m.args ∧
      (m.withSlot i v).limit = m.limit ∧ (m.withSlot i v).pc = m.pc ∧
      (m.withSlot i v).sp = m.sp ∧ (m.withSlot i v).bp = m.bp ∧ (m.withSlot i v).hr = m.hr ∧
      (m.withSlot i v).steps = m.steps ∧ (m.withSlot i v).status = m.status ∧
      (m.withSlot i v).slots.size = m.slots.size := by
  unfold withSlot
  split <;> simp

theorem slot?_withSlot_self {i : Int} (h : m.HasSlot i) (v : Value) :
    (m.withSlot i v).slot? i = some v := by
  obtain ⟨h0, h1⟩ := h
  have hi : i.toNat < m.slots.size := by unfold capacity at h1; omega
  simp [slot?, withSlot, h0, hi]

theorem slot?_withSlot_ne {i j : Int} (h : j ≠ i) (v : Value) :
    (m.withSlot i v).slot? j = m.slot? j := by
  unfold slot? withSlot
  by_cases hj : 0 ≤ j
  · by_cases hi : 0 ≤ i
    · have hne : i.toNat ≠ j.toNat := by omega
      simp [hj, hi, hne]
    · simp [hj, hi]
  · simp [hj]

/-! ## Moving a block of slots -/

theorem size_copySlot (a : Array Value) (source target : Nat) :
    (copySlot a source target).size = a.size := by
  unfold copySlot
  split <;> simp

theorem getElem?_copySlot (a : Array Value) (source target i : Nat) (hs : source < a.size)
    (ht : target < a.size) :
    (copySlot a source target)[i]? = if i = target then a[source]? else a[i]? := by
  unfold copySlot
  rw [Array.getElem?_eq_getElem hs]
  simp only [Array.getElem?_setIfInBounds]
  by_cases h : target = i
  · subst h
    simp [ht]
  · simp [h, Ne.symm h]

theorem moveUp_succ (a : Array Value) (top n : Nat) :
    moveUp a top (n + 1) = copySlot (moveUp a top n) (top - n) (top - n + 2) := by
  unfold moveUp
  rw [List.range_succ, List.foldl_append]
  rfl

theorem size_moveUp (a : Array Value) (top n : Nat) : (moveUp a top n).size = a.size := by
  induction n with
  | zero => rfl
  | succ n ih => rw [moveUp_succ, size_copySlot, ih]

/-- Moving up is a simultaneous copy: what is written is not read any more. -/
theorem getElem?_moveUp (a : Array Value) (top n i : Nat) (hn : n ≤ top + 1)
    (ht : n = 0 ∨ top + 2 < a.size) :
    (moveUp a top n)[i]? = if top + 3 ≤ i + n ∧ i ≤ top + 2 then a[i - 2]? else a[i]? := by
  induction n generalizing i with
  | zero =>
    rw [if_neg (by omega)]
    rfl
  | succ n ih =>
    have ht : top + 2 < a.size := by omega
    have hsize := size_moveUp a top n
    rw [moveUp_succ, getElem?_copySlot _ _ _ _ (by omega) (by omega)]
    by_cases hi : i = top - n + 2
    · -- the slot of this round: its source lies below everything written so far
      rw [if_pos hi, if_pos (by omega), ih _ (by omega) (Or.inr ht), if_neg (by omega)]
      congr 1
      omega
    · rw [if_neg hi, ih _ (by omega) (Or.inr ht)]
      by_cases h : top + 3 ≤ i + n ∧ i ≤ top + 2
      · rw [if_pos h, if_pos (by omega)]
      · rw [if_neg h, if_neg (by omega)]

theorem moveDown_succ (a : Array Value) (top n distance : Nat) :
    moveDown a top (n + 1) distance =
      moveDown (copySlot a (top - n) (top - n - distance)) top n distance := by
  unfold moveDown
  rw [List.range_succ, List.reverse_append]
  rfl

theorem size_moveDown (a : Array Value) (top n distance : Nat) :
    (moveDown a top n distance).size = a.size := by
  induction n generalizing a with
  | zero => rfl
  | succ n ih => rw [moveDown_succ, ih, size_copySlot]

/-- Moving down is a simultaneous copy: what is written is not read any more. -/
theorem getElem?_moveDown (a : Array Value) (top n distance i : Nat)
    (hn : n + distance ≤ top + 1) (ht : n = 0 ∨ top < a.size) :
    (moveDown a top n distance)[i]? =
      if top + 1 ≤ i + n + distance ∧ i + distance ≤ top then a[i + distance]? else a[i]? := by
  induction n generalizing a i with
  | zero =>
    rw [if_neg (by omega)]
    rfl
  | succ n ih =>
    have ht : top < a.size := by omega
    have hsize := size_copySlot a (top - n) (top - n - distance)
    have hget := fun j => getElem?_copySlot a (top - n) (top - n - distance) j (by omega) (by omega)
    rw [moveDown_succ, ih _ _ (by omega) (Or.inr (by omega))]
    by_cases h : top + 1 ≤ i + n + distance ∧ i + distance ≤ top
    · -- later rounds: their sources lie above the slot of this round
      rw [if_pos h, if_pos (by omega), hget, if_neg (by omega)]
    · rw [if_neg h, hget]
      by_cases hi : i = top - n - distance
      · rw [if_pos hi, if_pos (by omega)]
        congr 1
        omega
      · rw [if_neg hi, if_neg (by omega)]

/-! ## Program words -/

/-- The program word `k` words behind `pc`. -/
def word? (m : Machine) (k : Nat) : Option Int32 :=
  if 0 ≤ m.pc + k then m.code[(m.pc + k).toNat]? else none

/-- The machine after reading `k` words. -/
def fetched (m : Machine) (k : Nat) : Machine := { m with pc := m.pc + k }

@[simp] theorem fetched_keeps (m : Machine) (k : Nat) :
    (m.fetched k).code = m.code ∧ (m.fetched k).slots = m.slots ∧ (m.fetched k).args = m.args ∧
      (m.fetched k).limit = m.limit ∧ (m.fetched k).pc = m.pc + k ∧ (m.fetched k).sp = m.sp ∧
      (m.fetched k).bp = m.bp ∧ (m.fetched k).hr = m.hr ∧ (m.fetched k).steps = m.steps ∧
      (m.fetched k).status = m.status ∧ (m.fetched k).capacity = m.capacity := by
  unfold fetched capacity
  simp

@[simp] theorem fetched_fetched (m : Machine) (j k : Nat) :
    (m.fetched j).fetched k = m.fetched (j + k) := by
  simp [fetched, Int.add_assoc]

@[simp] theorem fetched_zero (m : Machine) : m.fetched 0 = m := by simp [fetched]

@[simp] theorem word?_fetched (m : Machine) (j k : Nat) :
    (m.fetched j).word? k = m.word? (j + k) := by
  simp [word?, Int.add_assoc]

@[simp] theorem slot?_fetched (m : Machine) (k : Nat) (i : Int) :
    (m.fetched k).slot? i = m.slot? i :=
  rfl

theorem word?_lt {k : Nat} {w : Int32} (h : m.word? k = some w) :
    0 ≤ m.pc + k ∧ m.pc + k < m.code.size := by
  unfold word? at h
  split at h
  · obtain ⟨hlt, -⟩ := Array.getElem?_eq_some_iff.mp h
    omega
  · cases h

/-! ## Sequences of parts -/

section Sequence

variable {α β : Type} {x : Exec α} {f : α → Exec β} {a b' : α} {b : β} {k : Machine} {why : Trap}

theorem bind_ok_iff :
    (x >>= f).run m = .ok b n ↔ ∃ a k, x.run m = .ok a k ∧ (f a).run k = .ok b n := by
  rw [EStateM.run_bind]
  cases x.run m with
  | ok a k => simp [and_assoc]
  | error => simp

theorem bind_error_iff :
    (x >>= f).run m = .error why n ↔
      x.run m = .error why n ∨ ∃ a k, x.run m = .ok a k ∧ (f a).run k = .error why n := by
  rw [EStateM.run_bind]
  cases x.run m with
  | ok a k => simp [and_assoc]
  | error => simp

theorem pure_ok_iff : (pure a : Exec α).run m = .ok b' n ↔ b' = a ∧ n = m := by
  simp [eq_comm]

theorem get_ok_iff : (get : Exec Machine).run m = .ok k n ↔ k = m ∧ n = m := by
  simp [eq_comm]

theorem set_ok_iff {u : Unit} : (set k : Exec Unit).run m = .ok u n ↔ n = k := by
  simp [eq_comm]

theorem modify_ok_iff {g : Machine → Machine} {u : Unit} :
    (modify g : Exec Unit).run m = .ok u n ↔ n = g m := by
  simp [eq_comm]

theorem get_error_iff : (get : Exec Machine).run m = .error why n ↔ False := by
  simp

theorem run_throw (why : Trap) (m : Machine) : (throw why : Exec α).run m = .error why m := rfl

end Sequence

/-! ## Reading and writing -/

theorem fetch_run (m : Machine) :
    fetch.run m =
      match m.word? 0 with
      | some w => .ok w (m.fetched 1)
      | none => .error (.outsideProgram m.pc m.code.size) m := by
  unfold fetch word?
  simp only [EStateM.run_bind, EStateM.run_get, Int.natCast_zero, Int.add_zero]
  split
  · cases m.code[m.pc.toNat]? <;> rfl
  · rfl

theorem fetch_ok_iff {w : Int32} :
    fetch.run m = .ok w n ↔ m.word? 0 = some w ∧ n = m.fetched 1 := by
  rw [fetch_run]
  cases m.word? 0 <;> simp [eq_comm]

theorem fetch_error {why : Trap} (h : fetch.run m = .error why n) : m.word? 0 = none ∧ n = m := by
  rw [fetch_run] at h
  cases hw : m.word? 0 <;> simp_all

theorem getSlot_run (i : Int) (m : Machine) :
    (getSlot i).run m =
      match m.slot? i with
      | some v => .ok v m
      | none => .error (.readOutside i m.capacity) m := by
  unfold getSlot
  simp only [EStateM.run_bind, EStateM.run_get]
  cases m.slot? i <;> rfl

theorem getSlot_ok_iff {i : Int} {v : Value} :
    (getSlot i).run m = .ok v n ↔ m.slot? i = some v ∧ n = m := by
  rw [getSlot_run]
  cases m.slot? i <;> simp [eq_comm]

theorem getSlot_error {i : Int} {why : Trap} (h : (getSlot i).run m = .error why n) : n = m := by
  rw [getSlot_run] at h
  cases hs : m.slot? i <;> simp_all

theorem top_run (m : Machine) : top.run m = (getSlot m.sp).run m := rfl

theorem setSlot_run (i : Int) (v : Value) (m : Machine) :
    (setSlot i v).run m =
      if m.HasSlot i then .ok () (m.withSlot i v) else .error (.writeOutside i m.capacity) m := by
  unfold setSlot
  simp only [EStateM.run_bind, EStateM.run_get]
  split <;> rfl

theorem setSlot_ok_iff {i : Int} {v : Value} {u : Unit} :
    (setSlot i v).run m = .ok u n ↔ m.HasSlot i ∧ n = m.withSlot i v := by
  rw [setSlot_run]
  split <;> simp_all [eq_comm]

theorem setSlot_error {i : Int} {v : Value} {why : Trap}
    (h : (setSlot i v).run m = .error why n) : ¬ m.HasSlot i ∧ n = m := by
  rw [setSlot_run] at h
  split at h <;> simp_all

theorem intAt_ok_iff {i x : Int} :
    m.intAt i = .ok x ↔ ∃ w, m.slot? i = some (.int w) ∧ x = w.toInt := by
  unfold intAt
  cases hs : m.slot? i with
  | none => simp
  | some v => cases v <;> simp [eq_comm]

theorem getInt_ok_iff {i x : Int} {context : SlotFault → Trap} :
    (getInt i context).run m = .ok x n ↔
      (∃ w, m.slot? i = some (.int w) ∧ x = w.toInt) ∧ n = m := by
  rw [← intAt_ok_iff]
  unfold getInt
  simp only [EStateM.run_bind, EStateM.run_get]
  cases m.intAt i <;> simp [run_throw, eq_comm]

theorem getInt_error {i : Int} {context : SlotFault → Trap} {why : Trap}
    (h : (getInt i context).run m = .error why n) : n = m := by
  unfold getInt at h
  simp only [EStateM.run_bind, EStateM.run_get] at h
  cases hi : m.intAt i <;> simp_all [run_throw]

/-! ## Pushing -/

/-- The machine with one more value on its stack. -/
def pushed (m : Machine) (v : Value) : Machine := { m.withSlot (m.sp + 1) v with sp := m.sp + 1 }

/-- The machine with more values on its stack, the first one lowest. -/
def pushedAll (m : Machine) (vs : List Value) : Machine := vs.foldl pushed m

theorem pushedAll_cons (m : Machine) (v : Value) (vs : List Value) :
    m.pushedAll (v :: vs) = (m.pushed v).pushedAll vs := rfl

@[simp] theorem pushed_keeps (m : Machine) (v : Value) :
    (m.pushed v).code = m.code ∧ (m.pushed v).args = m.args ∧ (m.pushed v).limit = m.limit ∧
      (m.pushed v).pc = m.pc ∧ (m.pushed v).sp = m.sp + 1 ∧ (m.pushed v).bp = m.bp ∧
      (m.pushed v).hr = m.hr ∧ (m.pushed v).steps = m.steps ∧ (m.pushed v).status = m.status ∧
      (m.pushed v).capacity = m.capacity := by
  simp [pushed, capacity]

@[simp] theorem pushedAll_keeps (m : Machine) (vs : List Value) :
    (m.pushedAll vs).code = m.code ∧ (m.pushedAll vs).args = m.args ∧
      (m.pushedAll vs).limit = m.limit ∧ (m.pushedAll vs).pc = m.pc ∧
      (m.pushedAll vs).sp = m.sp + vs.length ∧ (m.pushedAll vs).bp = m.bp ∧
      (m.pushedAll vs).hr = m.hr ∧ (m.pushedAll vs).steps = m.steps ∧
      (m.pushedAll vs).status = m.status ∧ (m.pushedAll vs).capacity = m.capacity := by
  induction vs generalizing m with
  | nil => simp [pushedAll]
  | cons v vs ih =>
    rw [pushedAll_cons]
    simp only [ih (m.pushed v), pushed_keeps, List.length_cons, Int.natCast_add, Int.natCast_one,
      and_self, and_true, true_and]
    omega

theorem slot?_pushed_of_le {i : Int} (h : i ≤ m.sp) (v : Value) :
    (m.pushed v).slot? i = m.slot? i := by
  unfold pushed
  exact slot?_withSlot_ne (by omega) v

theorem slot?_pushedAll_of_le {i : Int} (h : i ≤ m.sp) (vs : List Value) :
    (m.pushedAll vs).slot? i = m.slot? i := by
  induction vs generalizing m with
  | nil => rfl
  | cons v vs ih =>
    rw [pushedAll_cons, ih (by simp; omega), slot?_pushed_of_le h]

theorem push_run (v : Value) (m : Machine) :
    (push v).run m =
      if m.HasSlot (m.sp + 1) then .ok () (m.pushed v)
      else .error (.overflow (m.sp + 1) m.capacity) m := by
  unfold push
  simp only [EStateM.run_bind, EStateM.run_get]
  split <;> rfl

theorem push_ok_iff {v : Value} {u : Unit} :
    (push v).run m = .ok u n ↔ m.HasSlot (m.sp + 1) ∧ n = m.pushed v := by
  rw [push_run]
  split <;> simp_all [eq_comm]

theorem push_error {v : Value} {why : Trap} (h : (push v).run m = .error why n) :
    ¬ m.HasSlot (m.sp + 1) ∧ n = m := by
  rw [push_run] at h
  split at h <;> simp_all

/-- There is room for the values on top of the stack. -/
def Fits (m : Machine) (vs : List Value) : Prop :=
  vs = [] ∨ 0 ≤ m.sp + 1 ∧ m.sp + vs.length < m.capacity

theorem fits_nil (m : Machine) : m.Fits [] := Or.inl rfl

theorem fits_cons (m : Machine) (v : Value) (vs : List Value) :
    m.Fits (v :: vs) ↔ m.HasSlot (m.sp + 1) ∧ (m.pushed v).Fits vs := by
  unfold Fits
  rw [hasSlot_iff]
  cases vs with
  | nil =>
    simp only [List.length_cons, List.length_nil, reduceCtorEq, false_or, true_or, and_true]
    omega
  | cons w vs =>
    simp only [pushed_keeps, List.length_cons, reduceCtorEq, false_or]
    omega

theorem pushAll_ok_iff {vs : List Value} {u : Unit} :
    (pushAll vs).run m = .ok u n ↔ m.Fits vs ∧ n = m.pushedAll vs := by
  induction vs generalizing m with
  | nil => simp [pushAll, pushedAll, fits_nil, eq_comm]
  | cons v vs ih =>
    simp only [pushAll, bind_ok_iff, push_ok_iff, ih, pushedAll_cons, fits_cons]
    constructor
    · rintro ⟨-, k, ⟨hroom, rfl⟩, hrest, rfl⟩
      exact ⟨⟨hroom, hrest⟩, rfl⟩
    · rintro ⟨⟨hroom, hrest⟩, rfl⟩
      exact ⟨(), m.pushed v, ⟨hroom, rfl⟩, hrest, rfl⟩

/-- A push that fails leaves the values before it on the stack. -/
theorem pushAll_error {vs : List Value} {why : Trap} (h : (pushAll vs).run m = .error why n) :
    ∃ done v rest, vs = done ++ v :: rest ∧ m.Fits done ∧ ¬ n.HasSlot (n.sp + 1) ∧
      n = m.pushedAll done := by
  induction vs generalizing m with
  | nil => simp [pushAll] at h
  | cons v vs ih =>
    simp only [pushAll, bind_error_iff, push_ok_iff] at h
    rcases h with h | ⟨-, k, ⟨hroom, rfl⟩, h⟩
    · obtain ⟨hfull, rfl⟩ := push_error h
      exact ⟨[], v, vs, rfl, fits_nil _, hfull, rfl⟩
    · obtain ⟨done, w, rest, rfl, hfits, hfull, rfl⟩ := ih h
      exact ⟨v :: done, w, rest, rfl, (fits_cons _ _ _).mpr ⟨hroom, hfits⟩, hfull, rfl⟩

theorem pushAll_overflow {vs : List Value} {why : Trap} (h : (pushAll vs).run m = .error why n) :
    why = .overflow (n.sp + 1) n.capacity := by
  induction vs generalizing m with
  | nil => simp [pushAll] at h
  | cons v vs ih =>
    simp only [pushAll, bind_error_iff] at h
    rcases h with h | ⟨-, k, -, h⟩
    · rw [push_run] at h
      split at h <;> cases h
      rfl
    · exact ih h

end TagMachine.Machine
