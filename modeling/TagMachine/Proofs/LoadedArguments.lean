import TagMachine.Proofs.DecimalFractions
import TagMachine.Proofs.FaultedSteps
import TagMachine.Proofs.FlatSlots

/-!
Arguments from the command line to the stack. What an argument stands for is said of its text alone:
the characters of a text with a letter, the nearest number for one with a point, and an integer
otherwise. LDARGS pushes just these values, in order, if all of them fit.
-/

namespace TagMachine

open Utf8

/-! ## Single arguments -/

namespace Value

/-- A text with a letter among its characters. -/
def Lettered (b : Bytes) : Prop := ∃ chars, Runes b chars ∧ ∃ c ∈ chars, isLetter c

/-- The values that an argument stands for, slot by slot. -/
inductive Spreads : Bytes → List Value → Prop
  | text {b : Bytes} {chars : List Char} : Lettered b → Runes b chars → Spreads b (chars.map ofChar)
  | float {b : Bytes} {q : ℚ} {x : Binary32} : ¬ Lettered b → 46 ∈ b →
      Decimal.Denotes (Decimal.joined b) x.isNegative q → Binary32.Nearest q x →
      Spreads b [.float x]
  | int {b : Bytes} {i : Int32} : ¬ Lettered b → 46 ∉ b → Numeral.Denotes b i.toInt →
      Spreads b [.int i]

theorem lettered_iff {b : Bytes} : Lettered b ↔ Utf8.any isLetter b := by
  unfold Utf8.any
  rw [List.any_eq_true]
  constructor
  · rintro ⟨chars, hruns, hletter⟩
    rw [← hruns.unique]
    exact hletter
  · intro hletter
    exact ⟨decode b, runes_decode b, hletter⟩

/-- The mark of an exponent is a letter. -/
theorem lower_ne_of_not_lettered {b : Bytes} (h : ¬ Lettered b) : ∀ x ∈ b, Bytes.lower x ≠ 101 := by
  intro x hx hmark
  have hx' : x = 69 ∨ x = 101 := by
    unfold Bytes.lower at hmark
    split at hmark
    · have hback := congrArg (· - 32) hmark
      exact Or.inl (by simpa using hback)
    · exact Or.inr hmark
  have hletter : isLetter (Char.ofNat x.toNat) := by rcases hx' with rfl | rfl <;> decide +kernel
  have hlt : x.toNat < 128 := by rcases hx' with rfl | rfl <;> decide
  exact h ⟨_, runes_decode b, _, (runes_decode b).mem_of_lt hx hlt, hletter⟩

/-- An argument that is accepted stands for what its text says. -/
theorem spreads_of_ofArgument {b : Bytes} {v : Value} (h : ofArgument b = .ok v) :
    Spreads b (Machine.argumentSlots v) := by
  unfold ofArgument at h
  by_cases hletter : Utf8.any isLetter b
  · rw [if_pos hletter] at h
    cases h
    exact .text (lettered_iff.mpr hletter) (runes_decode b)
  · rw [if_neg hletter] at h
    have hnone : ¬ Lettered b := fun hb => hletter (lettered_iff.mp hb)
    by_cases hpoint : b.contains 46
    · have hmem : 46 ∈ b := by simpa using hpoint
      rw [if_pos hpoint] at h
      split at h
      · next x hread =>
        cases h
        obtain ⟨q, hdenotes, hnearest⟩ :=
          Decimal.readBinary32_nearest hread hmem (lower_ne_of_not_lettered hnone)
        exact .float hnone hmem hdenotes hnearest
      · cases h
    · rw [if_neg hpoint] at h
      split at h
      · next i hread =>
        cases h
        exact .int hnone (by simpa using hpoint) (Numeral.readInt32_ok_iff.mp hread)
      · cases h

/-! ## All arguments -/

theorem spreads_of_ofArguments {texts : List Bytes} {args : List Value}
    (h : ofArguments texts = .ok args) :
    List.Forall₂ Spreads texts (args.map Machine.argumentSlots) := by
  have hread : List.Forall₂ Eq (texts.map ofArgument) (args.map .ok) := by
    rw [List.forall₂_eq_eq_eq]
    exact map_ofArgument h
  rw [List.forall₂_map_left_iff, List.forall₂_map_right_iff] at hread
  rw [List.forall₂_map_right_iff]
  exact hread.imp fun _ _ => spreads_of_ofArgument

/-- The first argument that is refused on its own ends the reading. -/
theorem ofArgumentsFrom_refused {number : Nat} {before after : List Bytes} {text : Bytes}
    {why : ArgumentError} (hbefore : ∀ t ∈ before, ∃ v, ofArgument t = .ok v)
    (htext : ofArgument text = .error why) :
    ofArgumentsFrom number (before ++ text :: after) = .error ⟨number + before.length, why⟩ := by
  induction before generalizing number with
  | nil =>
    rw [List.nil_append, ofArgumentsFrom, htext]
    rfl
  | cons first before ih =>
    obtain ⟨⟨v, hv⟩, hrest⟩ := List.forall_mem_cons.mp hbefore
    rw [List.cons_append, ofArgumentsFrom, hv]
    dsimp only
    rw [ih hrest, List.length_cons, Nat.add_right_comm, Nat.add_assoc]

theorem exists_refused_of_ofArgumentsFrom {number : Nat} {texts : List Bytes} {e : ArgumentsError}
    (h : ofArgumentsFrom number texts = .error e) :
    ∃ before text after why, texts = before ++ text :: after ∧
      (∀ t ∈ before, ∃ v, ofArgument t = .ok v) ∧ ofArgument text = .error why ∧
      e = ⟨number + before.length, why⟩ := by
  induction texts generalizing number with
  | nil => cases h
  | cons first rest ih =>
    unfold ofArgumentsFrom at h
    split at h
    · next why hfirst =>
      cases h
      exact ⟨[], first, rest, why, rfl, by simp, hfirst, rfl⟩
    · next v hfirst =>
      split at h
      · next hrest =>
        cases h
        obtain ⟨before, text, after, why, rfl, hbefore, htext, rfl⟩ := ih hrest
        refine ⟨first :: before, text, after, why, rfl, ?_, htext, ?_⟩
        · exact List.forall_mem_cons.mpr ⟨⟨v, hfirst⟩, hbefore⟩
        · rw [List.length_cons, Nat.add_right_comm, Nat.add_assoc]
      · cases h

theorem ofArguments_error_iff {texts : List Bytes} {e : ArgumentsError} :
    ofArguments texts = .error e ↔
      ∃ before text after why, texts = before ++ text :: after ∧
        (∀ t ∈ before, ∃ v, ofArgument t = .ok v) ∧ ofArgument text = .error why ∧
        e = ⟨before.length + 1, why⟩ := by
  constructor
  · intro h
    obtain ⟨before, text, after, why, htexts, hbefore, htext, he⟩ :=
      exists_refused_of_ofArgumentsFrom h
    exact ⟨before, text, after, why, htexts, hbefore, htext, by rw [he, Nat.add_comm]⟩
  · rintro ⟨before, text, after, why, rfl, hbefore, htext, rfl⟩
    rw [ofArguments, ofArgumentsFrom_refused hbefore htext, Nat.add_comm]

/-- The arguments are refused exactly if one of them is on its own. -/
theorem exists_ofArguments_error_iff {texts : List Bytes} :
    (∃ e, ofArguments texts = .error e) ↔ ∃ text ∈ texts, ∃ why, ofArgument text = .error why := by
  constructor
  · rintro ⟨e, h⟩
    obtain ⟨before, text, after, why, rfl, -, htext, -⟩ := ofArguments_error_iff.mp h
    exact ⟨text, by simp, why, htext⟩
  · rintro ⟨text, hmem, why, htext⟩
    cases h : ofArguments texts with
    | error e => exact ⟨e, rfl⟩
    | ok args =>
      have hread : ofArgument text ∈ args.map .ok := by
        rw [← map_ofArgument h]
        exact List.mem_map_of_mem hmem
      obtain ⟨v, -, hv⟩ := List.mem_map.mp hread
      cases htext.symm.trans hv.symm

/-- What a char prints is the character. -/
theorem text_ofChar (c : Char) : (ofChar c).text = encode c := by
  have hlt := toNat_lt c
  have hcode : (Int32.ofNat c.toNat).toInt = c.toNat := Int32.toInt_ofNat_of_lt (by omega)
  unfold ofChar text
  rw [hcode, encodeCode, Int.toNat_natCast, if_pos ⟨by omega, c.valid⟩, Char.ofNat_toNat]

end Value

/-! ## On the machine -/

namespace Machine

open Value

variable {m n : Machine} {c : Nat} {output : Bytes}

theorem Safe.fits_iff (hm : Safe c m) (vs : List Value) :
    m.Fits vs ↔ (vs.length : Int) ≤ m.capacity - 1 - m.sp := by
  have hge := hm.top_ge
  have hlt := hm.top_lt
  have hslots := hm.slots
  unfold Fits
  constructor
  · rintro (rfl | ⟨-, hroom⟩)
    · simp only [List.length_nil]
      omega
    · omega
  · intro hroom
    exact Or.inr ⟨by omega, by omega⟩

theorem Performs.of_ldargs {e : Effect} (h : Performs m .ldargs e n) :
    e = .quiet ∧ m.Fits (m.args.flatMap argumentSlots) ∧
      n = m.pushedAll (m.args.flatMap argumentSlots) := by
  have hrun := perform_of_performs h
  simp only [perform, bind_ok_iff, get_ok_iff, pushAll_ok_iff, pure_ok_iff] at hrun
  obtain ⟨_, _, ⟨rfl, rfl⟩, _, _, ⟨hfits, rfl⟩, rfl, rfl⟩ := hrun
  exact ⟨rfl, hfits, rfl⟩

/-- LDARGS goes through exactly if the arguments fit, and then they are on top of the stack. -/
theorem step_ldargs_iff (hc : m.CarriesOut .ldargs) :
    m.step = (.ran output, n) ↔
      m.Fits (m.args.flatMap argumentSlots) ∧ output = [] ∧
        n = ((m.fetched 1).pushedAll (m.args.flatMap argumentSlots)).counted .running := by
  obtain ⟨hready, hop⟩ := hc
  rw [step_ran_iff]
  constructor
  · rintro ⟨-, op, k, hop', hrule, rfl⟩
    obtain rfl : op = .ldargs := by simpa [hop] using hop'.symm
    obtain ⟨hquiet, hfits, rfl⟩ := hrule.of_ldargs
    cases hquiet
    exact ⟨hfits, rfl, rfl⟩
  · rintro ⟨hfits, rfl, rfl⟩
    exact ⟨hready, .ldargs, _, hop, .arguments hfits, rfl⟩

/-- What LDARGS leaves. -/
theorem loaded_of_ldargs (hc : m.CarriesOut .ldargs) (h : m.step = (.ran output, n)) :
    n.sp = m.sp + (m.args.flatMap argumentSlots).length ∧
      n.live = m.live ++ m.args.flatMap argumentSlots ∧ ∀ i ≤ m.sp, n.slot? i = m.slot? i := by
  obtain ⟨hfits, -, rfl⟩ := (step_ldargs_iff hc).mp h
  refine ⟨by simp, ?_, ?_⟩
  · have hlive := live_pushedAll (m := m.fetched 1) hfits
    exact hlive
  · intro i hi
    rw [slot?_counted, slot?_pushedAll_of_le (m := m.fetched 1) hi, slot?_fetched]

/-- PRINTC writes the char on top of the stack. -/
theorem CarriesOut.printc {code : Int32} (hc : m.CarriesOut .printc)
    (htop : m.slot? m.sp = some (.char code)) : m.step.1 = .ran (Value.char code).text := by
  have hran :=
    step_ran_iff.mpr ⟨hc.1, .printc, _, hc.2, .print (.char (m := m.fetched 1) htop), rfl⟩
  rw [hran]

/-- What PRINTC writes of the characters of a text, one after the other, is their bytes. -/
theorem printed_chars {chars : List Char} {ms : List Machine}
    (h : List.Forall₂ (fun m v => m.CarriesOut .printc ∧ m.slot? m.sp = some v) ms
      (chars.map ofChar)) :
    ms.map (fun m => m.step.1) = (chars.map encode).map .ran := by
  rw [List.forall₂_map_right_iff] at h
  induction h with
  | nil => rfl
  | @cons m c ms chars hm _ ih =>
    obtain ⟨hc, htop⟩ := hm
    have hprinted := hc.printc htop
    rw [List.map_cons, List.map_cons, List.map_cons, ih, hprinted, ← text_ofChar]
    rfl

/-- Arguments arrive as they were written. LDARGS pushes the values that the texts stand for, one
after the other, exactly if there is room for all of them, and leaves what lies below alone. What
PRINTC writes of the slots of a valid text is that text again. Arguments are refused exactly if one
of them is on its own, and the first such one is reported. -/
theorem arguments_arrive_as_written (texts : List Bytes) :
    (∀ args, ofArguments texts = .ok args →
      ∃ slots, List.Forall₂ Spreads texts slots ∧
        ∀ program capacity maxSteps requests,
          let m := (new program capacity maxSteps args).serveAll requests
          m.CarriesOut .ldargs →
            ((∃ output n, m.step = (.ran output, n)) ↔
              (slots.flatten.length : Int) ≤ m.capacity - 1 - m.sp) ∧
            ∀ output n, m.step = (.ran output, n) →
              n.sp = m.sp + slots.flatten.length ∧ n.live = m.live ++ slots.flatten ∧
                ∀ i ≤ m.sp, n.slot? i = m.slot? i) ∧
    (∀ text slots, Spreads text slots → Lettered text → isValid text → ∀ ms : List Machine,
      List.Forall₂ (fun m v => m.CarriesOut .printc ∧ m.slot? m.sp = some v) ms slots →
        ∃ outputs : List Bytes, ms.map (fun m => m.step.1) = outputs.map .ran ∧
          outputs.flatten = text) ∧
    ((∃ e, ofArguments texts = .error e) ↔ ∃ text ∈ texts, ∃ why, ofArgument text = .error why) ∧
    ∀ e, ofArguments texts = .error e ↔
      ∃ before text after why, texts = before ++ text :: after ∧
        (∀ t ∈ before, ∃ v, ofArgument t = .ok v) ∧ ofArgument text = .error why ∧
        e = ⟨before.length + 1, why⟩ := by
  refine ⟨?_, ?_, exists_ofArguments_error_iff, fun e => ofArguments_error_iff⟩
  · intro args hargs
    refine ⟨_, spreads_of_ofArguments hargs, ?_⟩
    intro program capacity maxSteps requests m hc
    have hm : Safe (capacityFor capacity) m :=
      (invariant_safe _).serveAll requests (safe_new program capacity maxSteps args)
    have hkept : m.args = args := ((invariant_setup args _).serveAll requests ⟨rfl, rfl⟩).1
    rw [← List.flatMap_def, ← hkept]
    refine ⟨?_, fun output n h => loaded_of_ldargs hc h⟩
    rw [← hm.fits_iff]
    constructor
    · rintro ⟨output, n, h⟩
      exact ((step_ldargs_iff hc).mp h).1
    · intro hfits
      exact ⟨_, _, (step_ldargs_iff hc).mpr ⟨hfits, rfl, rfl⟩⟩
  · intro text slots hspreads hletter hvalid ms hms
    cases hspreads with
    | text _ hruns =>
      exact ⟨_, printed_chars hms, by rw [← List.flatMap_def]; exact hruns.encodeAll_eq hvalid⟩
    | float hnone => exact absurd hletter hnone
    | int hnone => exact absurd hletter hnone

/-- A fraction with an underscore, a text, a text with a byte that is no part of one, and an integer
take six slots. -/
theorem mixed_arguments_take_six_slots :
    let texts : List Bytes := [[45, 49, 95, 50, 46, 53], [0x61, 0xC3, 0xA9], [0x62, 0xFF], [43, 55]]
    let args := [Value.float ⟨0xC1480000⟩, .array [.ofChar 'a', .ofChar 'é'],
      .array [.ofChar 'b', .ofChar replacement], .int 7]
    let m := (new [24] 8 0 args).serveAll []
    ofArguments texts = .ok args ∧ m.CarriesOut .ldargs ∧ m.step.1 = .ran [] ∧
      ∃ slots, List.Forall₂ Spreads texts slots ∧ slots.flatten.length = 6 ∧
        m.step.2.live = m.live ++ slots.flatten := by
  intro texts args m
  have hletters : ¬ Utf8.any isLetter [45, 49, 95, 50, 46, 53] ∧
      Utf8.any isLetter [0x61, 0xC3, 0xA9] ∧ Utf8.any isLetter [0x62, 0xFF] ∧
        ¬ Utf8.any isLetter [43, 55] := by decide +kernel
  have hfloat : Decimal.readBinary32 [45, 49, 95, 50, 46, 53] = .ok ⟨0xC1480000⟩ := by
    decide +kernel
  have htext : decode [0x61, 0xC3, 0xA9] = ['a', 'é'] := by decide +kernel
  have hbroken : decode [0x62, 0xFF] = ['b', replacement] := by decide +kernel
  have hint : Numeral.readInt32 [43, 55] = .ok 7 := by decide +kernel
  have hargs : ofArguments texts = .ok args := by
    simp [texts, args, ofArguments, ofArgumentsFrom, ofArgument, ofText, hletters, hfloat, htext,
      hbroken, hint]
  have hc : m.CarriesOut .ldargs := ⟨by decide +kernel, by decide +kernel⟩
  have hran : m.step.1 = .ran [] := by decide +kernel
  have hstep : m.step = (.ran [], m.step.2) := by rw [← hran]
  have htop : m.step.2.sp = m.sp + 6 := by decide +kernel
  obtain ⟨slots, hspreads, hloads⟩ := (arguments_arrive_as_written texts).1 args hargs
  obtain ⟨-, hafter⟩ := hloads [24] 8 0 [] hc
  have hloaded : m.step.2.sp = m.sp + slots.flatten.length ∧
      m.step.2.live = m.live ++ slots.flatten ∧ ∀ i ≤ m.sp, m.step.2.slot? i = m.slot? i :=
    hafter [] m.step.2 hstep
  have hsix : slots.flatten.length = 6 := by
    have := hloaded.1
    omega
  exact ⟨hargs, hc, hran, slots, hspreads, hsix, hloaded.2.1⟩

end Machine

end TagMachine
