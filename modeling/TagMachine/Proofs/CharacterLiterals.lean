import TagMachine.Proofs.QuotedText
import TagMachine.Proofs.Reassembly
import TagMachine.Proofs.StepRules

/-!
Character literals from the source to the output. Every character can be written as the operand of
CSTC, in quotes, and the program word is its code. The machine pushes a char with the low sixteen
bits of that word, so what is pushed and printed is the character that was written exactly if its
code has no more bits.
-/

namespace TagMachine

/-! ## Assembling a literal -/

namespace Assembly

open Token

/-- CSTC with a character in quotes assembles to the code of the character. -/
theorem assemble_literal (c : Char) {sep : Bytes} (hsep : IsSeparator sep) :
    assemble (Opcode.cstc.name ++ sep ++ Quoted.write (Utf8.encode c)) =
      .ok [Opcode.cstc.word, Int32.ofNat c.toNat] := by
  obtain ⟨hstring, hvalue⟩ := Quoted.isString_write (Utf8.encode c)
  have hliteral : Utf8.decode (stringValue (Quoted.write (Utf8.encode c))) = [c] := by
    have hfirst := Utf8.first?_encode c []
    rw [List.append_nil] at hfirst
    rw [hvalue, decode_eq_singleton_iff, hfirst]
  exact assemble_of_operand rfl hsep (stands_string hstring) (.char rfl hliteral)

end Assembly

/-! ## Codes of sixteen bits -/

theorem Utf8.encode_inj {c d : Char} (h : encode c = encode d) : c = d := by
  have hc := scalar?_encode c []
  rw [h, scalar?_encode d []] at hc
  simpa [eq_comm] using hc

/-- A code of sixteen bits prints as one such character: its own, or the replacement character. -/
theorem Utf8.exists_encodeCode (n : Nat) (h : n < 2 ^ 16) :
    ∃ d : Char, d.toNat < 2 ^ 16 ∧ encodeCode n = encode d ∧ (n.isValidChar → d.toNat = n) := by
  by_cases hvalid : n.isValidChar
  · refine ⟨Char.ofNat n, ?_, ?_, fun _ => toNat_ofNat hvalid⟩
    · rw [toNat_ofNat hvalid]
      exact h
    · rw [encodeCode, Int.toNat_natCast, if_pos ⟨Int.natCast_nonneg n, hvalid⟩]
  · refine ⟨replacement, by decide, ?_, fun hv => absurd hv hvalid⟩
    rw [encodeCode, Int.toNat_natCast, if_neg fun hv => hvalid hv.2]

/-- The low sixteen bits of a code print as its character exactly if it has no more. -/
theorem Utf8.encodeCode_low_iff (c : Char) :
    encodeCode ((c.toNat % 2 ^ 16 : Nat) : Int) = encode c ↔ c.toNat < 2 ^ 16 := by
  obtain ⟨d, hlt, hencode, hvalid⟩ :=
    exists_encodeCode (c.toNat % 2 ^ 16) (Nat.mod_lt _ (by decide))
  rw [hencode]
  constructor
  · intro h
    rw [encode_inj h] at hlt
    exact hlt
  · intro h
    rw [Nat.mod_eq_of_lt h] at hvalid
    have hd : d = c := by rw [← Char.ofNat_toNat d, hvalid c.valid, Char.ofNat_toNat]
    rw [hd]

namespace Machine

theorem toInt_low (n : Nat) : (Int32.ofNat (n % 2 ^ 16)).toInt = (n % 2 ^ 16 : Nat) :=
  Int32.toInt_ofNat_of_lt (Nat.lt_trans (Nat.mod_lt n (by decide)) (by decide))

/-- The char of a program word that holds the code of a character. -/
theorem charOfWord_ofNat (c : Char) :
    charOfWord (Int32.ofNat c.toNat) = .char (Int32.ofNat (c.toNat % 2 ^ 16)) := by
  have hlt := Utf8.toNat_lt c
  have hword : (Int32.ofNat c.toNat).toUInt32.toNat = c.toNat := Nat.mod_eq_of_lt (by omega)
  rw [charOfWord, hword]
  rfl

theorem low_eq_iff (c : Char) :
    Value.char (Int32.ofNat (c.toNat % 2 ^ 16)) = .char (Int32.ofNat c.toNat) ↔
      c.toNat < 2 ^ 16 := by
  have hlt := Utf8.toNat_lt c
  rw [Value.char.injEq, ← Int32.toInt_inj, toInt_low, Int32.toInt_ofNat_of_lt (by omega)]
  omega

/-! ## Running it -/

/-- The program holds these words from `pc` on. -/
def Holds (m : Machine) (words : List Int32) : Prop :=
  ∀ k w, words[k]? = some w → m.word? k = some w

theorem holds_new (words rest : List Int32) (capacity maxSteps : Int) (args : List Value) :
    (new (words ++ rest) capacity maxSteps args).Holds words := by
  intro k w hw
  obtain ⟨hlt, -⟩ := List.getElem?_eq_some_iff.mp hw
  have hcode : (words ++ rest)[k]? = some w := by rw [List.getElem?_append_left hlt, hw]
  simpa [word?, new] using hcode

theorem step_cstc {m : Machine} {w : Int32} (hready : m.ready)
    (hwords : m.Holds [Opcode.cstc.word, w]) (hroom : m.HasSlot (m.sp + 1)) :
    m.step = (.ran [], ((m.fetched 2).pushed (charOfWord w)).counted .running) := by
  have hop : m.opcode? = some .cstc := by
    rw [opcode?, hwords 0 _ rfl]
    rfl
  have hoffers : (m.fetched 1).Offers .cstc (charOfWord w) := .char (by
    rw [word?_fetched]
    exact hwords 1 w rfl)
  have hrule := Performs.push hoffers hroom
  rw [fetched_fetched] at hrule
  exact step_ran_iff.mpr ⟨hready, .cstc, _, hop, hrule, rfl⟩

theorem step_printc {m : Machine} {code : Int32} (hready : m.ready)
    (hop : m.word? 0 = some Opcode.printc.word) (htop : m.slot? m.sp = some (.char code)) :
    m.step = (.ran (Value.char code).text, (m.fetched 1).counted .running) := by
  have hopcode : m.opcode? = some .printc := by
    rw [opcode?, hop]
    rfl
  exact step_ran_iff.mpr ⟨hready, .printc, _, hopcode, .print (.char htop), rfl⟩

/-- CSTC with any character in quotes assembles. Where the instruction is carried out it pushes one
char, and a PRINTC behind it prints that char; this is the character that was written exactly if its
code has at most sixteen bits. -/
theorem a_character_literal_is_its_character_exactly_below_sixteen_bits (c : Char) (sep : Bytes)
    (hsep : IsSeparator sep) :
    ∃ words,
      Assembly.assemble (Opcode.cstc.name ++ sep ++ Quoted.write (Utf8.encode c)) = .ok words ∧
      ∀ m : Machine, m.ready → m.Holds words → m.HasSlot (m.sp + 1) →
        ∃ v n, m.step = (.ran [], n) ∧ n = ((m.fetched words.length).pushed v).counted .running ∧
          (v = .char (Int32.ofNat c.toNat) ↔ c.toNat < 2 ^ 16) ∧
          (n.ready → n.word? 0 = some Opcode.printc.word →
            ∃ output, n.step = (.ran output, (n.fetched 1).counted .running) ∧
              (output = Utf8.encode c ↔ c.toNat < 2 ^ 16)) := by
  refine ⟨_, Assembly.assemble_literal c hsep, ?_⟩
  intro m hready hwords hroom
  have hstep := step_cstc hready hwords hroom
  rw [charOfWord_ofNat] at hstep
  refine ⟨_, _, hstep, rfl, low_eq_iff c, ?_⟩
  intro hnext hop
  have htop : ((m.fetched 2).pushed (.char (Int32.ofNat (c.toNat % 2 ^ 16)))).slot? (m.sp + 1) =
      some (.char (Int32.ofNat (c.toNat % 2 ^ 16))) :=
    slot?_withSlot_self (m := m.fetched 2) hroom _
  refine ⟨_, step_printc hnext hop htop, ?_⟩
  rw [Value.text, toInt_low]
  exact Utf8.encodeCode_low_iff c

/-- U+200B does not show, so in quotes it is an escape; it is pushed and printed as itself. -/
theorem an_escaped_character_is_pushed_and_printed :
    let c : Char := '\u200B'
    let words := [Opcode.cstc.word, 0x200B]
    let m := new (words ++ [Opcode.printc.word]) 8 0 []
    IsSeparator [9] ∧ Quoted.write (Utf8.encode c) = Bytes.ofString "\"\\u200b\"" ∧
      Assembly.assemble (Opcode.cstc.name ++ [9] ++ Quoted.write (Utf8.encode c)) = .ok words ∧
      m.ready ∧ m.Holds words ∧ m.HasSlot (m.sp + 1) ∧
      ∃ n k, m.step = (.ran [], n) ∧ n.slot? n.sp = some (.char 0x200B) ∧
        n.step = (.ran (Utf8.encode c), k) := by
  intro c words m
  have hsep : IsSeparator [9] := ⟨['\t'], by simp, by simp; decide, by decide +kernel⟩
  have hwrite : Quoted.write (Utf8.encode c) = Bytes.ofString "\"\\u200b\"" := by decide +kernel
  have hready : m.ready := by decide
  have hholds : m.Holds words := holds_new words _ 8 0 []
  have hroom : m.HasSlot (m.sp + 1) := by decide
  obtain ⟨words', hassemble, hrun⟩ :=
    a_character_literal_is_its_character_exactly_below_sixteen_bits c [9] hsep
  obtain rfl : words = words' :=
    Except.ok.inj ((Assembly.assemble_literal c hsep).symm.trans hassemble)
  obtain ⟨v, n, hstep, rfl, hpushed, hprinted⟩ := hrun m hready hholds hroom
  obtain rfl := hpushed.mpr (by decide)
  obtain ⟨output, hnext, hshown⟩ := hprinted (by decide) (by decide)
  obtain rfl := hshown.mpr (by decide)
  exact ⟨hsep, hwrite, hassemble, hready, hholds, hroom, _, _, hstep, rfl, hnext⟩

/-- U+1F600 has seventeen bits. Its literal assembles to its code, but the machine pushes and prints
U+F600. -/
theorem a_wide_character_is_pushed_and_printed_as_another :
    let c : Char := '😀'
    let words := [Opcode.cstc.word, 0x1F600]
    let m := new (words ++ [Opcode.printc.word]) 8 0 []
    Assembly.assemble (Opcode.cstc.name ++ [32] ++ Quoted.write (Utf8.encode c)) = .ok words ∧
      m.ready ∧ m.Holds words ∧ m.HasSlot (m.sp + 1) ∧
      (∃ n k, m.step = (.ran [], n) ∧ n.slot? n.sp = some (.char 0xF600) ∧
        n.step = (.ran (Utf8.encode '\uF600'), k)) ∧
      Value.char 0xF600 ≠ .char (Int32.ofNat c.toNat) ∧ Utf8.encode '\uF600' ≠ Utf8.encode c := by
  intro c words m
  have hready : m.ready := by decide
  have hholds : m.Holds words := holds_new words _ 8 0 []
  have hroom : m.HasSlot (m.sp + 1) := by decide
  have hpush := step_cstc hready hholds hroom
  have htop : (((m.fetched 2).pushed (charOfWord 0x1F600)).counted .running).slot? 0 =
      some (.char 0xF600) := rfl
  have hprint := step_printc (by decide) (by decide) htop
  have htext : (Value.char 0xF600).text = Utf8.encode '\uF600' := by decide +kernel
  rw [htext] at hprint
  have hassemble := Assembly.assemble_literal c isSeparator_space
  refine ⟨hassemble, hready, hholds, hroom, ⟨_, _, hpush, rfl, hprint⟩, ?_, by decide⟩
  simp [c]

end Machine

end TagMachine
