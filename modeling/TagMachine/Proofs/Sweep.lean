import TagMachine.Display.Listing

/-!
The sweep of a listing. It goes from entry to entry, each of which takes a word and as many operands
as that word has, so the entries cover the program, and over whole instructions it starts an entry
at every opcode.
-/

namespace TagMachine

theorem Opcode.ofWord?_word (op : Opcode) : Opcode.ofWord? op.word = some op := by
  cases op <;> rfl

namespace Listing

/-- The words that an entry takes. -/
def taken : List Int32 → List Int32
  | [] => []
  | w :: ws => w :: ws.take (arity w)

theorem arity_word (op : Opcode) : arity op.word = op.arity := by
  rw [arity, Opcode.ofWord?_word]

/-- An entry starts at its address in the program. -/
theorem mem_entriesFrom {start : Nat} {code : List Int32} {e : Nat × List Int32}
    (h : e ∈ entriesFrom start code) :
    start ≤ e.1 ∧ e.1 < start + code.length ∧ e.2 = code.drop (e.1 - start) := by
  fun_induction entriesFrom start code with
  | case1 => simp at h
  | case2 start w ws ih =>
    rcases List.mem_cons.mp h with rfl | h
    · simp
    · obtain ⟨hstart, hend, hdrop⟩ := ih h
      rw [List.length_drop] at hend
      refine ⟨by omega, by rw [List.length_cons]; omega, ?_⟩
      rw [hdrop, List.drop_drop]
      have hoffset : e.1 - start = arity w + (e.1 - (start + 1 + arity w)) + 1 := by omega
      rw [hoffset, List.drop_succ_cons]

theorem drop_of_mem_entries {code : List Int32} {e : Nat × List Int32} (h : e ∈ entries code) :
    e.2 = code.drop e.1 := (mem_entriesFrom h).2.2

/-- The entries cover the program, each word once. -/
theorem flatMap_taken_entriesFrom (start : Nat) (code : List Int32) :
    (entriesFrom start code).flatMap (fun e => taken e.2) = code := by
  fun_induction entriesFrom start code with
  | case1 => rfl
  | case2 start w ws ih =>
    rw [List.flatMap_cons, ih, taken, List.cons_append, List.take_append_drop]

/-- The sweep passes over a whole instruction. -/
theorem entriesFrom_instruction (start : Nat) (op : Opcode) {args : List Int32}
    (h : args.length = op.arity) (rest : List Int32) :
    entriesFrom start (op.word :: (args ++ rest)) =
      (start, op.word :: (args ++ rest)) :: entriesFrom (start + 1 + op.arity) rest := by
  rw [entriesFrom, arity_word, List.drop_left' h]

end Listing

end TagMachine
