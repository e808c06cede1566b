import TagMachine.Proofs.CallFrame
import TagMachine.Proofs.SourceParts
import TagMachine.Proofs.Sweep

/-!
Where instructions start. The assembler, the listing and the machine all take an instruction to be
its opcode and the operands that go with it: the assembler emits as many words, the listing starts
an entry at every opcode it emitted, and a step that does not jump goes on right behind the
operands.
-/

namespace TagMachine

namespace Assembly

/-! ## Sources and listings -/

/-- The opcodes of parts that stand at `start`, with their addresses. -/
def opcodesFrom (start : Nat) : List Part → List (Nat × Opcode)
  | [] => []
  | .instruction op operands :: ps =>
    (start, op) :: opcodesFrom (start + (Part.instruction op operands).size) ps
  | p :: ps => opcodesFrom (start + p.size) ps

theorem opcodesFrom_cons {p : Part} (h : ∀ op operands, p ≠ .instruction op operands) (start : Nat)
    (ps : List Part) : opcodesFrom start (p :: ps) = opcodesFrom (start + p.size) ps := by
  cases p with
  | instruction op operands => exact absurd rfl (h op operands)
  | raw | label | refused => rfl

theorem opcodesFrom_append (start : Nat) (ps qs : List Part) :
    opcodesFrom start (ps ++ qs) = opcodesFrom start ps ++ opcodesFrom (start + span ps) qs := by
  induction ps generalizing start with
  | nil => simp [opcodesFrom, span]
  | cons p ps ih =>
    rw [List.cons_append, span, ← Nat.add_assoc]
    cases p with
    | instruction op operands => rw [opcodesFrom, opcodesFrom, ih, List.cons_append]
    | raw | label | refused =>
      rw [opcodesFrom_cons (by simp), opcodesFrom_cons (by simp), ih]

/-- Where no number stands for a word, words start with an opcode. -/
theorem exists_mem_opcodesFrom {ps : List Part} (h : ∀ p ∈ ps, p.isRaw = false) (start : Nat) :
    span ps = 0 ∨ ∃ op, (start, op) ∈ opcodesFrom start ps := by
  induction ps with
  | nil => exact Or.inl rfl
  | cons p ps ih =>
    obtain ⟨hp, hps⟩ := List.forall_mem_cons.mp h
    cases p with
    | raw w => simp [Part.isRaw] at hp
    | instruction op operands => exact Or.inr ⟨op, List.mem_cons_self⟩
    | label | refused =>
      -- neither takes a word, so the next part stands at the same address
      rw [span, opcodesFrom_cons (by simp), Part.size, Nat.zero_add, Nat.add_zero]
      exact ih hps

/-- The sweep over the words of parts starts an entry at every opcode and nowhere else. -/
theorem entriesFrom_parts {ps : List Part} (hsized : Sized ps) (hraw : ∀ p ∈ ps, p.isRaw = false)
    (table : LabelTable) (start : Nat) :
    (Listing.entriesFrom start ((ps.flatMap Part.items).filterMap (·.fixed? table))).map
        (fun e => (e.1, e.2.head?)) =
      (opcodesFrom start ps).map (fun o => (o.1, some o.2.word)) := by
  induction ps generalizing start with
  | nil => simp [Listing.entriesFrom, opcodesFrom]
  | cons p ps ih =>
    obtain ⟨hp, hps⟩ := List.forall_mem_cons.mp hsized
    obtain ⟨hr, hrs⟩ := List.forall_mem_cons.mp hraw
    rw [List.flatMap_cons, List.filterMap_append]
    cases p with
    | raw w => simp [Part.isRaw] at hr
    | label name pos =>
      -- no words, and so no entry
      rw [opcodesFrom_cons (by simp)]
      exact ih hps hrs start
    | refused =>
      rw [opcodesFrom_cons (by simp)]
      exact ih hps hrs start
    | instruction op operands =>
      have hlength : (operands.filterMap (·.fixed? table)).length = op.arity := by
        have hsize := hp.1
        rw [Part.items, size, Part.size] at hsize
        rw [length_fixed]
        exact Nat.add_left_cancel hsize
      have hwords : (Part.instruction op operands).items.filterMap (·.fixed? table) =
          op.word :: operands.filterMap (·.fixed? table) := rfl
      rw [hwords, List.cons_append, Listing.entriesFrom_instruction start op hlength, opcodesFrom,
        List.map_cons, List.map_cons, ih hps hrs, Part.size, Nat.add_assoc]
      rfl

/-- The words that a part of a source emits. -/
def emitted (source : Bytes) (p : Part) : List Int32 :=
  p.items.filterMap (·.fixed? (labels (read source).items))

theorem fix_parts {source : Bytes} {ps : List Part}
    (h : (read source).items = ps.flatMap Part.items) :
    fix (read source).items = ps.flatMap (emitted source) := by
  unfold fix emitted
  dsimp only
  nth_rewrite 2 [h]
  rw [List.filterMap_flatMap]

/-- What a source has in common with the listing of its words. -/
structure Boundaries (source : Bytes) (parts : List Part) : Prop where
  /-- The source is made up of the parts, and its words are theirs. -/
  splits : Splits (Token.ofText source).dropLast parts
  words : fix (read source).items = parts.flatMap (emitted source)
  /-- An instruction emits its opcode and a word for each operand, a number one word, a label
  none. -/
  sizes : ∀ p ∈ parts, (emitted source p).length = p.size
  /-- A label has the total size of the parts in front of its first definition. -/
  labels : ∀ name a, (labels (read source).items).lookup name = some a ↔
    ∃ front pos rest, parts = front ++ .label name pos :: rest ∧
      (∀ p ∈ front, p.label? ≠ some name) ∧ a = span front
  /-- The entries of the listing cover the words. -/
  covered : (Listing.entries (fix (read source).items)).flatMap (fun e => Listing.taken e.2) =
    fix (read source).items
  /-- Where no word is written as a number, an entry starts at every opcode and nowhere else. -/
  entries : (∀ p ∈ parts, p.isRaw = false) →
    (Listing.entries (fix (read source).items)).map (fun e => (e.1, e.2.head?)) =
      (opcodesFrom 0 parts).map (fun o => (o.1, some o.2.word))
  /-- A label then stands at an entry or at the end. -/
  targets : (∀ p ∈ parts, p.isRaw = false) →
    ∀ name a, (Assembly.labels (read source).items).lookup name = some a →
      a ∈ (Listing.entries (fix (read source).items)).map Prod.fst ∨
        a = (fix (read source).items).length

/-- Parts with the items of the source are its boundaries. -/
theorem boundaries_of_splits {source : Bytes} {parts : List Part}
    (hsplits : Splits (Token.ofText source).dropLast parts)
    (hread : (read source).items = parts.flatMap Part.items) : Boundaries source parts := by
  have hsized : Sized parts := hsplits.sized
  have hlabels : ∀ name a, (labels (read source).items).lookup name = some a ↔
      ∃ front pos rest, parts = front ++ .label name pos :: rest ∧
        (∀ p ∈ front, p.label? ≠ some name) ∧ a = span front := by
    rw [hread]
    exact lookup_labels_parts hsized
  have hentries : (∀ p ∈ parts, p.isRaw = false) →
      (Listing.entries (fix (read source).items)).map (fun e => (e.1, e.2.head?)) =
        (opcodesFrom 0 parts).map (fun o => (o.1, some o.2.word)) := by
    intro hraw
    rw [hread]
    exact entriesFrom_parts hsized hraw _ 0
  refine ⟨hsplits, fix_parts hread, ?_, hlabels, ?_, hentries, ?_⟩
  · intro p hp
    rw [emitted, length_fixed, (hsized p hp).1]
  · exact Listing.flatMap_taken_entriesFrom 0 _
  · intro hraw name a hlookup
    obtain ⟨front, pos, rest, rfl, -, rfl⟩ := (hlabels name a).mp hlookup
    have hrest : ∀ p ∈ Part.label name pos :: rest, p.isRaw = false :=
      fun p hp => hraw p (List.mem_append_right front hp)
    -- behind the label there are no more words, or the next one is an opcode
    rcases exists_mem_opcodesFrom hrest (span front) with hspan | ⟨op, hop⟩
    · right
      rw [fix, length_fixed, hread, size_parts hsized, span_append, hspan, Nat.add_zero]
    · left
      have haddress : (span front, some op.word) ∈
          (Listing.entries (fix (read source).items)).map (fun e => (e.1, e.2.head?)) := by
        rw [hentries hraw, opcodesFrom_append, Nat.zero_add]
        exact List.mem_map.mpr ⟨_, List.mem_append_right _ hop, rfl⟩
      obtain ⟨e, he, heq⟩ := List.mem_map.mp haddress
      exact List.mem_map.mpr ⟨e, he, congrArg Prod.fst heq⟩

theorem exists_boundaries (source : Bytes) : ∃ parts, Boundaries source parts := by
  obtain ⟨parts, hsplits, hitems⟩ :=
    splits_of_statements ((Token.ofText source).getLast?.elim .start (·.pos))
      fun t (h : t ∈ (Token.ofText source).dropLast) => lexed_of_mem_dropLast h
  exact ⟨parts, boundaries_of_splits hsplits hitems⟩

end Assembly

namespace Machine

variable {m n : Machine}

/-! ## Steps -/

/-- The next instruction transfers control: it jumps, calls, returns, or divides by zero, which goes
to a handler or fails. -/
inductive Transfers (m : Machine) : Prop
  | goto : m.opcode? = some .goto → Transfers m
  | branch {op : Opcode} {wanted : Bool} {v : Value} : m.opcode? = some op → Branches op wanted →
      m.slot? m.sp = some v → v.isZero? = some wanted → Transfers m
  | call : m.opcode? = some .call → Transfers m
  | tailCall : m.opcode? = some .tcall → Transfers m
  | ret : m.opcode? = some .ret → Transfers m
  | recover : m.DividesByZero → Transfers m

/-- An instruction that does not transfer control goes on behind its operands. -/
theorem Performs.pc {op : Opcode} {e : Effect} (hop : m.opcode? = some op)
    (h : Performs (m.fetched 1) op e n) (hstays : ¬ m.Transfers) :
    n.pc = m.pc + 1 + op.arity := by
  cases h with
  | push ho hroom => simp [Int.add_assoc]
  | @binary op => cases op <;> simp [Operator.opcode, Opcode.arity]
  | recover hl hr hs => exact absurd (.recover ⟨hop, ⟨_, hl⟩, hr⟩) hstays
  | @branch op wanted zero v target hb hv hz ht =>
    have hne : zero ≠ wanted := by
      rintro rfl
      exact hstays (.branch hop hb hv hz)
    simp only [if_neg hne, fetched_keeps]
    cases hb <;> rfl
  | goto => exact absurd (.goto hop) hstays
  | call => exact absurd (.call hop) hstays
  | tailCall => exact absurd (.tailCall hop) hstays
  | ret => exact absurd (.ret hop) hstays
  | print hs => cases hs <;> simp [Opcode.arity]
  | moveTop => simp [Opcode.arity, Int.add_assoc]
  | not | swap | load | store | arguments | stop => simp [Opcode.arity]

/-- A step that carries out an instruction and does not fail follows its rule. -/
theorem exists_performs_of_step {op : Opcode} {r : StepResult} (hready : m.ready)
    (hop : m.opcode? = some op) (h : m.step = (r, n)) (hr : ∀ e, r ≠ .failed e) :
    ∃ e k status, Performs (m.fetched 1) op e k ∧ n = k.counted status := by
  rw [step_of_ready hready] at h
  cases hrun : instruction.run m with
  | error why k =>
    rw [hrun] at h
    cases h
    exact absurd rfl (hr _)
  | ok e k =>
    obtain ⟨op', hop', hrule⟩ := instruction_ok_iff.mp hrun
    obtain rfl : op' = op := Option.some.inj (hop'.symm.trans hop)
    rw [hrun] at h
    cases e with
    | went output =>
      cases h
      exact ⟨_, k, k.status, hrule, rfl⟩
    | halt =>
      cases h
      exact ⟨_, k, .stopped, hrule, rfl⟩

/-- CALL puts the address behind its operands into the frame it opens. -/
theorem return_address_of_call {e : Effect} (h : Performs (m.fetched 1) .call e n) :
    ∃ argc : Int32, m.word? 1 = some argc ∧
      n.slot? (m.sp - argc.toInt + 1) = some (.int (Int32.ofInt (m.pc + 3))) ∧
      m.pc + 3 ≤ m.code.size := by
  obtain ⟨argc, target, hargc, htarget, hn, hfirst, hroom, rfl⟩ := h.of_call
  have hslot := slot?_called (m := (m.fetched 1).fetched 2) target.toInt (m.sp - argc.toInt + 1)
    hn hfirst hroom
  simp only [fetched_fetched, fetched_keeps, if_true] at hslot
  have hlast := word?_lt htarget
  simp only [fetched_keeps] at hlast
  rw [word?_fetched] at hargc
  exact ⟨argc, hargc, by rw [fetched_fetched, hslot]; rfl, by omega⟩

end Machine

/-- Every source, right or wrong, is made up of parts with the words that their instructions have,
the listing of its words starts its entries at the instructions, and a step that goes through moves
past the words of its instruction unless it transfers control; a call stores the address behind its
own words, which is exact in a program of fewer than 2^31 words. -/
theorem sources_listings_and_steps_agree_on_instructions :
    (∀ source : Bytes, ∃ parts, Assembly.Boundaries source parts) ∧
    ∀ (m n : Machine) (op : Opcode) (r : StepResult), m.ready → m.opcode? = some op →
      m.step = (r, n) → (∀ e, r ≠ .failed e) →
      (¬ m.Transfers → n.pc = m.pc + 1 + op.arity) ∧
      (op = .call → ∃ argc : Int32, m.word? 1 = some argc ∧
        n.slot? (m.sp - argc.toInt + 1) = some (.int (Int32.ofInt (m.pc + 3))) ∧
        (m.code.size < 2 ^ 31 → (Int32.ofInt (m.pc + 3)).toInt = m.pc + 3)) := by
  refine ⟨Assembly.exists_boundaries, ?_⟩
  intro m n op r hready hop hstep hr
  obtain ⟨e, k, status, hrule, rfl⟩ := Machine.exists_performs_of_step hready hop hstep hr
  refine ⟨fun hstays => ?_, ?_⟩
  · rw [← hrule.pc hop hstays]
    exact (Machine.counted_keeps k status).2.2.2.2.1
  · rintro rfl
    obtain ⟨argc, hargc, hslot, hend⟩ := Machine.return_address_of_call hrule
    obtain ⟨w, hw, -⟩ := Option.bind_eq_some_iff.mp hop
    have hstart := (Machine.word?_lt hw).1
    refine ⟨argc, hargc, hslot, fun hsize => ?_⟩
    exact Int32.toInt_ofInt_of_le (by omega) (by omega)

/-- The boundaries of a source in which an operand is missing. -/
theorem Assembly.boundaries_of_missing_operand :
    Boundaries "GOTO x CSTI x: ADD"
      [.instruction .goto [.reference [120] ⟨1, 6, 5⟩], .instruction .csti [.word 0],
        .label [120] ⟨1, 13, 12⟩, .instruction .add []] := by
  let name (lexeme : Bytes) (offset : Nat) : Token :=
    ⟨.name, lexeme, lexeme, ⟨1, offset + 1, offset⟩⟩
  have htokens : (Token.ofText "GOTO x CSTI x: ADD").dropLast =
      [name Opcode.goto.name 0, name [120] 5] ++ ([name Opcode.csti.name 7] ++
        ([name [120] 12, ⟨.colon, [58], [58], ⟨1, 14, 13⟩⟩] ++
          ([name Opcode.add.name 15] ++ []))) := by
    decide +kernel
  have hmnemonic : ∀ op : Opcode, IsMnemonic op.name op := by
    intro op
    cases op <;> rfl
  have hfree : ∀ op : Opcode, ¬ IsMnemonic [120] op := by
    intro op hop
    unfold IsMnemonic at hop
    cases op <;> exact absurd hop (by decide +kernel)
  refine boundaries_of_splits ?_ (by decide +kernel)
  rw [htokens]
  refine .cons (.instruction rfl ?_ (hmnemonic .goto) (.taken (.label rfl hfree) rfl .nil)) ?_
  · rintro ⟨c, rest, heq, hc⟩
    cases heq
    cases hc
  -- a name is no number, so it stays for the label
  refine .cons (.instruction rfl ?_ (hmnemonic .csti) (.missing ?_ .nil)) ?_
  · rintro ⟨c, rest, heq, hc⟩
    cases heq
    cases hc
  · rintro t ⟨⟩ htakes
    cases htakes with
    | number hkind => cases hkind
  refine .cons (.label rfl rfl) (.cons (.instruction rfl ?_ (hmnemonic .add) .nil) .nil)
  rintro ⟨c, rest, heq, -⟩
  cases heq

/-- An instruction without its operand is a part of two words all the same, a push goes on behind
its operand, and the call behind it returns to the address behind its own. -/
theorem a_call_of_nothing_returns_behind_its_operands :
    let m := Machine.new [Opcode.csti.word, 7, Opcode.call.word, 0, 5, Opcode.stop.word] 8 0 []
    let n := m.step.2
    (m.ready ∧ ¬ m.Transfers ∧ n.pc = m.pc + 2) ∧
      (n.ready ∧ n.step.2.slot? 1 = some (.int 5)) ∧
      (∃ parts, Assembly.Boundaries "GOTO x CSTI x: ADD" parts) ∧
      Assembly.Boundaries "GOTO x CSTI x: ADD"
        [.instruction .goto [.reference [120] ⟨1, 6, 5⟩], .instruction .csti [.word 0],
          .label [120] ⟨1, 13, 12⟩, .instruction .add []] := by
  obtain ⟨hsources, hsteps⟩ := sources_listings_and_steps_agree_on_instructions
  intro m n
  have hstays : ¬ m.Transfers := by
    intro h
    cases h with
    | goto hop | call hop | tailCall hop | ret hop => cases hop
    | branch hop hb =>
      cases hop
      cases hb
    | recover hzero => cases hzero.1
  obtain ⟨hpc, -⟩ := hsteps m n .csti _ (by decide) (by decide) rfl (by rintro e ⟨⟩)
  obtain ⟨-, hcall⟩ := hsteps n n.step.2 .call _ (by decide) (by decide) rfl (by rintro e ⟨⟩)
  obtain ⟨argc, hargc, hslot, -⟩ := hcall rfl
  obtain rfl : argc = 0 := (Option.some.inj hargc).symm
  exact ⟨⟨by decide, hstays, hpc hstays⟩, ⟨by decide, hslot⟩, hsources _,
    Assembly.boundaries_of_missing_operand⟩

end TagMachine
