import TagMachine.Proofs.Runs
import TagMachine.Proofs.Utf8Text
import TagMachine.Value.Argument

/-!
What a slot can hold. Instructions copy values, compute numbers, read char constants and spread the
arguments over the stack. An array is an argument only, and LDARGS pushes what is in it, so none
ever lies in a slot.
-/

namespace TagMachine

/-- The value fits a slot: it is no array, and the code of a char is a code point. -/
def Value.Flat : Value → Prop
  | .unset | .int _ | .float _ => True
  | .char c => 0 ≤ c.toInt ∧ c.toInt ≤ 0x10FFFF
  | .array _ => False

theorem Value.flat_of_isNumeric {v : Value} (h : v.isNumeric) : v.Flat := by
  cases v with
  | int i => exact trivial
  | float x => exact trivial
  | unset | char c | array vs => cases h

theorem Value.flat_char_ofNat {k : Nat} (h : k < 0x110000) : (Value.char (Int32.ofNat k)).Flat := by
  have hk : (Int32.ofNat k).toInt = k := Int32.toInt_ofNat_of_lt (by omega)
  refine ⟨?_, ?_⟩ <;> rw [hk] <;> omega

theorem Machine.flat_charOfWord (w : Int32) : (charOfWord w).Flat := by
  have hlow : w.toUInt32.toNat % 1 <<< 16 < 1 <<< 16 := Nat.mod_lt _ (by decide)
  exact Value.flat_char_ofNat (Nat.lt_trans hlow (by decide))

/-! ## Arguments -/

/-- An argument is a number or the chars of a text. -/
theorem Value.flat_of_mem_argumentSlots {text : Bytes} {v w : Value} (h : ofArgument text = .ok v)
    (hw : w ∈ Machine.argumentSlots v) : w.Flat := by
  unfold ofArgument at h
  split at h
  · cases h
    obtain ⟨c, -, rfl⟩ := List.mem_map.mp hw
    exact flat_char_ofNat (Utf8.toNat_lt c)
  · split at h <;> split at h <;> cases h
    all_goals
      obtain rfl := List.mem_singleton.mp hw
      exact trivial

/-- Arguments that are all accepted are read one by one. -/
theorem Value.map_ofArgument {number : Nat} {texts : List Bytes} {args : List Value}
    (h : ofArgumentsFrom number texts = .ok args) : texts.map ofArgument = args.map .ok := by
  induction texts generalizing number args with
  | nil =>
    cases h
    rfl
  | cons text rest ih =>
    unfold ofArgumentsFrom at h
    split at h
    · cases h
    · next v hv =>
      split at h
      · cases h
      · next vs hvs =>
        cases h
        rw [List.map_cons, List.map_cons, hv, ih hvs]

theorem Value.ofArgument_of_mem {number : Nat} {texts : List Bytes} {vs : List Value}
    (h : ofArgumentsFrom number texts = .ok vs) {v : Value} (hv : v ∈ vs) :
    ∃ text ∈ texts, ofArgument text = .ok v := by
  have hread : .ok v ∈ texts.map ofArgument := by
    rw [map_ofArgument h]
    exact List.mem_map_of_mem hv
  obtain ⟨text, hmem, hok⟩ := List.mem_map.mp hread
  exact ⟨text, hmem, hok⟩

/-! ## Numbers -/

theorem Operator.isNumeric_of_applyInt {op : Operator} {a b : Int32} {v : Value}
    (h : op.applyInt a b = .ok v) : v.isNumeric := by
  unfold applyInt at h
  cases op with
  | div | mod =>
    dsimp only at h
    split at h <;> cases h
    rfl
  | _ =>
    cases h
    rfl

theorem Operator.isNumeric_of_applyFloat {op : Operator} {a b : Binary32} {v : Value}
    (h : op.applyFloat a b = .ok v) : v.isNumeric := by
  unfold applyFloat at h
  cases op with
  | div =>
    dsimp only at h
    split at h <;> cases h
    rfl
  | mod => cases h
  | _ =>
    cases h
    rfl

/-- An operator gives numbers only. -/
theorem Operator.isNumeric_of_apply {op : Operator} {l r v : Value} (h : op.apply l r = .ok v) :
    v.isNumeric := by
  unfold apply at h
  split at h
  · exact isNumeric_of_applyInt h
  · exact isNumeric_of_applyFloat h
  · exact isNumeric_of_applyFloat h
  · exact isNumeric_of_applyFloat h
  · split at h <;> cases h

namespace Machine

variable {m n : Machine} {v w : Value}

/-! ## Writes bring in one value -/

theorem mem_of_slot? {i : Int} (h : m.slot? i = some v) : v ∈ m.slots := by
  unfold slot? at h
  split at h
  · exact Array.mem_of_getElem? h
  · cases h

theorem mem_withSlot {i : Int} (h : w ∈ (m.withSlot i v).slots) : w ∈ m.slots ∨ w = v := by
  unfold withSlot at h
  split at h
  · exact Array.mem_or_eq_of_mem_setIfInBounds h
  · exact Or.inl h

theorem mem_pushedAll {vs : List Value} (h : w ∈ (m.pushedAll vs).slots) :
    w ∈ m.slots ∨ w ∈ vs := by
  induction vs generalizing m with
  | nil => exact Or.inl h
  | cons v vs ih =>
    rw [pushedAll_cons] at h
    rcases ih h with h | h
    · rcases mem_withSlot h with h | rfl
      · exact Or.inl h
      · exact Or.inr List.mem_cons_self
    · exact Or.inr (List.mem_cons_of_mem _ h)

theorem mem_copySlot {a : Array Value} {source target : Nat} (h : w ∈ copySlot a source target) :
    w ∈ a := by
  unfold copySlot at h
  split at h
  · next v hv =>
    rcases Array.mem_or_eq_of_mem_setIfInBounds h with h | rfl
    · exact h
    · exact Array.mem_of_getElem? hv
  · exact h

theorem mem_moveUp {a : Array Value} {top k : Nat} (h : w ∈ moveUp a top k) : w ∈ a := by
  induction k with
  | zero => exact h
  | succ k ih =>
    rw [moveUp_succ] at h
    exact ih (mem_copySlot h)

theorem mem_moveDown {a : Array Value} {top k distance : Nat} (h : w ∈ moveDown a top k distance) :
    w ∈ a := by
  induction k generalizing a with
  | zero => exact h
  | succ k ih =>
    rw [moveDown_succ] at h
    exact mem_copySlot (ih h)

/-- A frame header is made of two ints. -/
theorem mem_called {argc target : Int} (h : w ∈ (m.called argc target).slots) :
    w ∈ m.slots ∨ w.isNumeric := by
  unfold called at h
  -- the base pointer was written last, before it the return address
  rcases Array.mem_or_eq_of_mem_setIfInBounds h with h | rfl
  · rcases Array.mem_or_eq_of_mem_setIfInBounds h with h | rfl
    · exact Or.inl (mem_moveUp h)
    · exact Or.inr rfl
  · exact Or.inr rfl

/-! ## Where the value of a slot comes from -/

/-- The values that a slot can hold after an instruction. -/
inductive Arises (m : Machine) : Value → Prop
  /-- It lay in a slot before. -/
  | kept {v : Value} : v ∈ m.slots → Arises m v
  /-- It was computed, read off the program or off a register. -/
  | number {v : Value} : v.isNumeric → Arises m v
  | char (w : Int32) : Arises m (charOfWord w)
  /-- LDARGS pushed it. -/
  | argument {v : Value} : v ∈ m.args.flatMap argumentSlots → Arises m v

theorem Arises.of_slot? {i : Int} (h : m.slot? i = some v) : m.Arises v := .kept (mem_of_slot? h)

theorem Arises.int (i : Int32) : m.Arises (.int i) := .number rfl

theorem Arises.of_mem_withSlot {i : Int} (hv : m.Arises v) (h : w ∈ (m.withSlot i v).slots) :
    m.Arises w := by
  rcases mem_withSlot h with h | rfl
  · exact .kept h
  · exact hv

theorem Arises.of_mem_pushedAll {vs : List Value} (hvs : ∀ v ∈ vs, m.Arises v)
    (h : w ∈ (m.pushedAll vs).slots) : m.Arises w := by
  rcases mem_pushedAll h with h | h
  · exact .kept h
  · exact hvs w h

theorem Offers.arises {op : Opcode} (h : m.Offers op v) : m.Arises v := by
  cases h with
  | int | float | base | top => exact .number rfl
  | char => exact .char _
  | copy hv => exact .of_slot? hv

/-- An instruction that goes through leaves nothing else in the slots. -/
theorem Performs.arises {op : Opcode} {e : Effect} (h : Performs m op e n) (hw : w ∈ n.slots) :
    m.Arises w := by
  cases h with
  | push ho hroom =>
    rcases mem_withSlot hw with hw | rfl
    · exact .kept hw
    · exact ho.arises
  | binary hl hr hv => exact (Arises.number (Operator.isNumeric_of_apply hv)).of_mem_withSlot hw
  | not hv hz => exact (Arises.int _).of_mem_withSlot hw
  | swap ha hb =>
    rcases mem_withSlot hw with hw | rfl
    · exact (Arises.of_slot? hb).of_mem_withSlot hw
    · exact .of_slot? ha
  | load haddr hv => exact (Arises.of_slot? hv).of_mem_withSlot hw
  | store haddr hv hslot =>
    rcases mem_withSlot hw with hw | rfl
    · exact (Arises.of_slot? hv).of_mem_withSlot hw
    · exact .of_slot? hv
  | call =>
    rcases mem_called hw with hw | hw
    · exact .kept hw
    · exact .number hw
  | tailCall =>
    unfold tailCalled at hw
    exact .kept (mem_moveDown hw)
  | ret hk hresult => exact (Arises.of_slot? hresult).of_mem_withSlot hw
  | arguments hfits => exact .of_mem_pushedAll (fun _ hv => .argument hv) hw
  | recover | moveTop | goto | branch | print | stop => exact .kept hw

/-- Nor does one that traps. -/
theorem Leaves.arises {op : Opcode} (h : Leaves m op n) (hw : w ∈ n.slots) : m.Arises w := by
  cases h with
  | arguments hargs hfits hfull =>
    refine .of_mem_pushedAll ?_ hw
    intro v hv
    apply Arises.argument
    rw [hargs]
    exact List.mem_append_left _ hv
  | operands | condition | unhandled | corrupt => exact .kept hw

theorem isNumeric_of_mem_recordSlots {before : Option Nat} {resume : Int32}
    (h : v ∈ recordSlots before resume) : v.isNumeric := by
  simp only [recordSlots, List.mem_cons, List.not_mem_nil, or_false] at h
  rcases h with rfl | rfl | rfl
  · rfl
  · rfl
  · cases before <;> rfl

/-! ## Flat machines -/

/-- Every slot holds a flat value, and so does every slot that LDARGS fills. -/
structure Flat (m : Machine) : Prop where
  slots : ∀ v ∈ m.slots, v.Flat
  args : ∀ v ∈ m.args.flatMap argumentSlots, v.Flat

namespace Flat

theorem of_arises (hm : m.Flat) (h : m.Arises v) : v.Flat := by
  cases h with
  | kept h => exact hm.slots v h
  | number h => exact Value.flat_of_isNumeric h
  | char w => exact flat_charOfWord w
  | argument h => exact hm.args v h

/-- A machine with the same arguments is flat if all its values come from a flat one. -/
theorem of_forall_arises (hm : m.Flat) (hargs : n.args = m.args) (h : ∀ v ∈ n.slots, m.Arises v) :
    n.Flat where
  slots v hv := hm.of_arises (h v hv)
  args := by
    rw [hargs]
    exact hm.args

theorem installed_part (hm : m.Flat) {resume : Int32} {done rest : List Value}
    (hrecord : recordSlots m.hr resume = done ++ rest) : (m.pushedAll done).Flat := by
  refine hm.of_forall_arises (by simp) ?_
  intro w hw
  refine .of_mem_pushedAll ?_ hw
  intro v hv
  have hmem : v ∈ recordSlots m.hr resume := by
    rw [hrecord]
    exact List.mem_append_left rest hv
  exact .number (isNumeric_of_mem_recordSlots hmem)

end Flat

theorem flat_new (program : List Int32) (capacity maxSteps : Int) {texts : List Bytes}
    {args : List Value} (h : Value.ofArguments texts = .ok args) :
    (new program capacity maxSteps args).Flat where
  slots := by
    intro v hv
    rw [(Array.mem_replicate.mp hv).2]
    exact trivial
  args := by
    intro v hv
    obtain ⟨arg, harg, hv⟩ := List.mem_flatMap.mp hv
    obtain ⟨text, -, htext⟩ := Value.ofArgument_of_mem h harg
    exact Value.flat_of_mem_argumentSlots htext hv

/-- Nothing that a host asks of a machine puts an array on its stack. -/
theorem invariant_flat : Invariant Flat where
  counted _ h := ⟨h.slots, h.args⟩
  fetched _ h := ⟨h.slots, h.args⟩
  pushed h hrecord _ := h.installed_part hrecord
  performs h hrule := h.of_forall_arises hrule.keeps.1 fun _ hv => hrule.arises hv
  leaves h hleft := h.of_forall_arises hleft.keeps.1 fun _ hv => hleft.arises hv
  installed resume h _ _ := by
    have hall := h.installed_part (List.append_nil (recordSlots _ resume)).symm
    exact ⟨hall.slots, hall.args⟩
  load _ h := ⟨h.slots, h.args⟩

/-- No array ever reaches the stack: with any arguments that are read, and whatever a host asks for,
a slot is unset or holds an int, a float or a char whose code is a code point. -/
theorem no_slot_ever_holds_an_array (program : List Int32) (capacity maxSteps : Int)
    (texts : List Bytes) (args : List Value) (requests : List Request)
    (h : Value.ofArguments texts = .ok args) :
    ∀ v ∈ ((new program capacity maxSteps args).serveAll requests).slots, v.Flat := by
  have hflat := invariant_flat.serveAll requests (flat_new program capacity maxSteps h)
  exact hflat.slots

/-- A text with a character outside the first plane is spread over two slots. -/
theorem a_text_is_spread_over_chars :
    let texts : List Bytes := [[0x78, 0xF0, 0x9F, 0x98, 0x80], [0x37]]
    let args := [Value.array [.ofChar 'x', .ofChar '😀'], .int 7]
    let m := (new [24, 25] 8 0 args).serveAll [.step, .install 4, .run .silent 3, .load [9], .step]
    Value.ofArguments texts = .ok args ∧
      (m.slots.map Value.kind).toList =
        [.char, .char, .int, .int, .int, .int, .unset, .unset] ∧
      ∀ v ∈ m.slots, v.Flat := by
  intro texts args m
  have hletters : Utf8.any isLetter [0x78, 0xF0, 0x9F, 0x98, 0x80] ∧
      ¬ Utf8.any isLetter [0x37] := by
    decide +kernel
  have htext : Utf8.decode [0x78, 0xF0, 0x9F, 0x98, 0x80] = ['x', '😀'] := by decide +kernel
  have hnumber : Numeral.readInt32 [0x37] = .ok 7 := by rfl
  have hargs : Value.ofArguments texts = .ok args := by
    simp [texts, args, Value.ofArguments, Value.ofArgumentsFrom, Value.ofArgument, Value.ofText,
      hletters, htext, hnumber]
  refine ⟨hargs, by decide +kernel, ?_⟩
  exact no_slot_ever_holds_an_array [24, 25] 8 0 _ args _ hargs

end Machine

end TagMachine
