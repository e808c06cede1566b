import TagMachine.Proofs.CborItems

/-!
Reading looks at nothing behind what it takes. Whatever is read off a text is read off every text
that starts with the same piece, so no item is the start of another one. And what is read keeps to
the limits: no array has more elements than may be read, and no text is longer than the piece it was
in.
-/

namespace TagMachine.Cbor

/-! ## Items within limits -/

/-- No array in the item has more elements than may be read, and no text more than `room` bytes. -/
inductive Fits (room : Nat) : Item → Prop
  | unsigned (n : Nat) : Fits room (.unsigned n)
  | negative (n : Nat) : Fits room (.negative n)
  | bytes (b : Bytes) : Fits room (.bytes b)
  | text {chunks : List Bytes} (hroom : chunks.flatten.length ≤ room) : Fits room (.text chunks)
  | array {items : List Item} (hcount : items.length ≤ maxCount)
      (hitems : ∀ i ∈ items, Fits room i) :
      Fits room (.array items)
  | map {entries : List (Item × Item)} (hkeys : ∀ e ∈ entries, Fits room e.1)
      (hvalues : ∀ e ∈ entries, Fits room e.2) : Fits room (.map entries)
  | tag (n : Nat) {content : Item} (hcontent : Fits room content) : Fits room (.tag n content)
  | simple (n : Nat) : Fits room (.simple n)
  | float (payload : Bytes) : Fits room (.float payload)

theorem Fits.mono {m n : Nat} {i : Item} (h : Fits m i) (hle : m ≤ n) : Fits n i := by
  induction h with
  | unsigned k => exact .unsigned k
  | negative k => exact .negative k
  | bytes b => exact .bytes b
  | text hroom => exact .text (by omega)
  | array hcount _ ih => exact .array hcount ih
  | map _ _ hkeys hvalues => exact .map hkeys hvalues
  | tag k _ ih => exact .tag k ih
  | simple k => exact .simple k
  | float payload => exact .float payload

/-- An item and a piece of text that it can come from. -/
def FitsIn (piece : Bytes) (i : Item) : Prop := piece ≠ [] ∧ Fits piece.length i

/-! ## Readers -/

/-- What the reader takes off a text is a piece that stands in this relation to what is read, and
what follows the piece does not matter. -/
def Takes {α : Type} (P : Bytes → α → Prop) (read : Bytes → Option (α × Bytes)) : Prop :=
  ∀ b x rest, read b = some (x, rest) →
    ∃ piece, b = piece ++ rest ∧ P piece x ∧ ∀ more, read (piece ++ more) = some (x, more)

namespace Takes

variable {α β : Type} {P : Bytes → α → Prop} {Q : Bytes → β → Prop}

theorem pure {x : α} (h : P [] x) : Takes P fun b => some (x, b) := by
  intro b y rest hread
  cases hread
  exact ⟨[], rfl, h, fun more => rfl⟩

theorem nothing : Takes P fun _ => none := by
  intro b x rest hread
  cases hread

theorem bind {read : Bytes → Option (α × Bytes)} {next : α → Bytes → Option (β × Bytes)}
    {R : α → Bytes → β → Prop} (hread : Takes P read) (hnext : ∀ x, Takes (R x) (next x))
    (h : ∀ p x q y, P p x → R x q y → Q (p ++ q) y) :
    Takes Q fun b => (read b).bind fun (x, rest) => next x rest := by
  intro b y rest hboth
  obtain ⟨⟨x, tail⟩, hfirst, hsecond⟩ := Option.bind_eq_some_iff.mp hboth
  obtain ⟨p, rfl, hp, hpmore⟩ := hread b x tail hfirst
  obtain ⟨q, rfl, hq, hqmore⟩ := hnext x tail y rest hsecond
  refine ⟨p ++ q, by simp, h p x q y hp hq, ?_⟩
  intro more
  simp [hpmore, hqmore]

theorem map {read : Bytes → Option (α × Bytes)} (hread : Takes P read) (f : α → β)
    (h : ∀ p x, P p x → Q p (f x)) :
    Takes Q fun b => (read b).map fun (x, rest) => (f x, rest) := by
  intro b y rest hboth
  obtain ⟨⟨x, tail⟩, hfirst, hsecond⟩ := Option.map_eq_some_iff.mp hboth
  cases hsecond
  obtain ⟨p, rfl, hp, hmore⟩ := hread b x rest hfirst
  refine ⟨p, rfl, h p x hp, ?_⟩
  intro more
  simp [hmore]

end Takes

/-! ## Heads and strings -/

theorem takes_take? (n : Nat) : Takes (fun piece x => x = piece) (take? n) := by
  intro b x rest hread
  unfold take? at hread
  split at hread
  · next hle =>
    cases hread
    refine ⟨b.take n, by simp, rfl, ?_⟩
    intro more
    have hlength : (b.take n).length = n := List.length_take_of_le hle
    have htake := take?_append (b.take n) more
    rwa [hlength] at htake
  · cases hread

theorem takes_head? : Takes (fun piece _ => piece ≠ []) head? := by
  intro b x rest hread
  cases b with
  | nil => cases hread
  | cons a tail =>
    simp only [head?] at hread
    split at hread
    · next hshort =>
      cases hread
      exact ⟨[a], rfl, by simp, fun more => by simp [head?, hshort]⟩
    · next hlong =>
      split at hread
      · next hwide =>
        -- the number stands in the bytes that follow
        cases htake : take? (1 <<< (a.toNat % 32 - 24)) tail with
        | none => simp [htake] at hread
        | some p =>
          obtain ⟨number, after⟩ := p
          rw [htake] at hread
          cases hread
          obtain ⟨piece, rfl, rfl, hmore⟩ := takes_take? _ _ _ _ htake
          refine ⟨a :: number, rfl, by simp, ?_⟩
          intro more
          simp [head?, hlong, hwide, hmore]
      · next hwide =>
        split at hread
        · next hopen =>
          cases hread
          exact ⟨[a], rfl, by simp, fun more => by simp [head?, hopen]⟩
        · cases hread

theorem readChunks_break (major fuel : Nat) (b : Bytes) :
    readChunks major fuel (0xFF :: b) = some ([], b) := by
  cases fuel <;> rfl

/-- A chunk in front of others. -/
theorem readChunks_chunk {major info n : Nat} {b after rest chunk : Bytes}
    (hbreak : b.head? ≠ some 0xFF) (hhead : head? b = some (⟨major, info, .definite n⟩, after))
    (htake : take? n after = some (chunk, rest)) (fuel : Nat) :
    readChunks major (fuel + 1) b =
      (readChunks major fuel rest).map fun (chunks, rest) => (chunk :: chunks, rest) := by
  cases b with
  | nil => cases hhead
  | cons x b =>
    have hx : x ≠ 0xFF := by simpa using hbreak
    rw [readChunks.eq_def]
    simp [hx, hhead, htake]

theorem readChunks_cases {major fuel : Nat} {b rest : Bytes} {chunks : List Bytes}
    (h : readChunks major fuel b = some (chunks, rest)) :
    (b = 0xFF :: rest ∧ chunks = []) ∨
      ∃ less info n after chunk tail others, fuel = less + 1 ∧ b.head? ≠ some 0xFF ∧
        head? b = some (⟨major, info, .definite n⟩, after) ∧ take? n after = some (chunk, tail) ∧
        readChunks major less tail = some (others, rest) ∧ chunks = chunk :: others := by
  cases b with
  | nil => simp [readChunks] at h
  | cons x b =>
    by_cases hx : x = 0xFF
    · subst hx
      rw [readChunks_break] at h
      cases h
      exact Or.inl ⟨rfl, rfl⟩
    · right
      unfold readChunks at h
      simp only [hx, if_false] at h
      split at h
      · next less m info n after hhead =>
        by_cases hm : m = major
        · subst hm
          rw [if_pos rfl] at h
          cases htake : take? n after with
          | none => simp [htake] at h
          | some p =>
            obtain ⟨chunk, tail⟩ := p
            simp only [htake, Option.map_eq_some_iff, Prod.mk.injEq] at h
            obtain ⟨⟨others, last⟩, hothers, rfl, rfl⟩ := h
            exact ⟨less, info, n, after, chunk, tail, others, rfl, by simpa using hx, hhead, htake,
              hothers, rfl⟩
        · rw [if_neg hm] at h
          cases h
      · cases h

/-- Chunks are read as far as the break, with any fuel that lasts so far. -/
theorem readChunks_takes {major fuel : Nat} {b rest : Bytes} {chunks : List Bytes}
    (h : readChunks major fuel b = some (chunks, rest)) :
    ∃ piece, b = piece ++ rest ∧ chunks.flatten.length < piece.length ∧
      ∀ more enough, piece.length ≤ enough + 1 →
        readChunks major enough (piece ++ more) = some (chunks, more) := by
  induction fuel generalizing b chunks with
  | zero =>
    rcases readChunks_cases h with ⟨rfl, rfl⟩ | ⟨less, _, _, _, _, _, _, hfuel, _⟩
    · exact ⟨[0xFF], rfl, by simp, fun more enough _ => readChunks_break major enough more⟩
    · cases hfuel
  | succ fuel ih =>
    rcases readChunks_cases h with ⟨rfl, rfl⟩ | ⟨less, info, n, after, chunk, tail, others, hfuel,
      hbreak, hhead, htake, hothers, rfl⟩
    · exact ⟨[0xFF], rfl, by simp, fun more enough _ => readChunks_break major enough more⟩
    · cases hfuel
      obtain ⟨start, rfl, hne, hheadMore⟩ := takes_head? _ _ _ hhead
      obtain ⟨body, rfl, rfl, htakeMore⟩ := takes_take? _ _ _ _ htake
      obtain ⟨last, rfl, hlength, hmore⟩ := ih hothers
      have hstart : 0 < start.length := List.length_pos_iff.mpr hne
      refine ⟨start ++ (chunk ++ last), by simp, ?_, ?_⟩
      · simp only [List.flatten_cons, List.length_append]
        omega
      · intro more enough henough
        simp only [List.length_append] at henough
        -- a chunk has a head, so each one takes fuel for at least one byte
        obtain ⟨less, rfl⟩ : ∃ less, enough = less + 1 := ⟨enough - 1, by omega⟩
        have hsplit : start ++ (chunk ++ last) ++ more =
            start ++ (chunk ++ (last ++ more)) := by simp
        have hfirst : (start ++ (chunk ++ (last ++ more))).head? ≠ some 0xFF := by
          cases start with
          | nil => exact absurd rfl hne
          | cons x start => simpa using hbreak
        rw [hsplit, readChunks_chunk hfirst (hheadMore _) (htakeMore _), hmore more less (by omega)]
        rfl

theorem takes_readString (major : Nat) (length : Length) :
    Takes (fun piece chunks => chunks.flatten.length ≤ piece.length) (readString major length) := by
  cases length with
  | definite n =>
    apply (takes_take? n).map (fun chunk => [chunk])
    rintro piece chunk rfl
    simp
  | indefinite =>
    intro b chunks rest h
    obtain ⟨piece, rfl, hlength, hmore⟩ := readChunks_takes h
    refine ⟨piece, rfl, by omega, ?_⟩
    intro more
    exact hmore more _ (by simp; omega)

/-! ## Items in a row -/

/-- Items that come from one piece of text, behind those of `acc`. -/
def FitBehind (acc : List Item) (piece : Bytes) (items : List Item) (count : Nat → Prop) : Prop :=
  ∃ new, items = acc.reverse ++ new ∧ count new.length ∧ ∀ i ∈ new, Fits piece.length i

theorem FitsIn.cons {acc items : List Item} {i : Item} {p q : Bytes} {count count' : Nat → Prop}
    (hi : FitsIn p i) (h : FitBehind (i :: acc) q items count)
    (hcount : ∀ n, count n → count' (n + 1)) :
    FitBehind acc (p ++ q) items count' := by
  obtain ⟨new, rfl, hnew, hfits⟩ := h
  refine ⟨i :: new, by simp, hcount _ hnew, ?_⟩
  intro j hj
  rcases List.mem_cons.mp hj with rfl | hj
  · exact hi.2.mono (by simp)
  · exact (hfits j hj).mono (by simp)

theorem takes_readMany {read : Reader} (hread : Takes FitsIn read) (n : Nat) (acc : List Item) :
    Takes (fun piece items => FitBehind acc piece items (· = n)) (readMany read n acc) := by
  induction n generalizing acc with
  | zero => exact Takes.pure ⟨[], by simp, rfl, by simp⟩
  | succ n ih =>
    have hstep : readMany read (n + 1) acc =
        fun b => (read b).bind fun r => readMany read n (r.1 :: acc) r.2 := by
      funext b
      rw [readMany]
      cases read b <;> rfl
    rw [hstep]
    apply hread.bind (fun i => ih (i :: acc))
    intro p i q items hi hitems
    exact hi.cons hitems (by rintro m rfl; rfl)

theorem readToBreak_break (read : Reader) (most : Nat) (acc : List Item) (b : Bytes) :
    readToBreak read most acc (0xFF :: b) = some (acc.reverse, b) := by
  cases most <;> rfl

theorem readToBreak_item {read : Reader} {b rest : Bytes} {i : Item} (hbreak : b.head? ≠ some 0xFF)
    (hne : b ≠ []) (hread : read b = some (i, rest)) (most : Nat) (acc : List Item) :
    readToBreak read (most + 1) acc b = readToBreak read most (i :: acc) rest := by
  cases b with
  | nil => exact absurd rfl hne
  | cons x b =>
    have hx : x ≠ 0xFF := by simpa using hbreak
    rw [readToBreak.eq_def]
    simp [hx, hread]

theorem readToBreak_cases {read : Reader} {most : Nat} {acc items : List Item} {b rest : Bytes}
    (h : readToBreak read most acc b = some (items, rest)) :
    (b = 0xFF :: rest ∧ items = acc.reverse) ∨
      ∃ less i tail, most = less + 1 ∧ b.head? ≠ some 0xFF ∧ read b = some (i, tail) ∧
        readToBreak read less (i :: acc) tail = some (items, rest) := by
  cases b with
  | nil => simp [readToBreak] at h
  | cons x b =>
    by_cases hx : x = 0xFF
    · subst hx
      rw [readToBreak_break] at h
      cases h
      exact Or.inl ⟨rfl, rfl⟩
    · right
      cases most with
      | zero => simp [readToBreak, hx] at h
      | succ less =>
        cases hread : read (x :: b) with
        | none => simp [readToBreak, hx, hread] at h
        | some p =>
          obtain ⟨i, tail⟩ := p
          have hbreak : (x :: b).head? ≠ some 0xFF := by simpa using hx
          rw [readToBreak_item hbreak (by simp) hread] at h
          exact ⟨less, i, tail, rfl, hbreak, rfl, h⟩

theorem takes_readToBreak {read : Reader} (hread : Takes FitsIn read) (most : Nat)
    (acc : List Item) :
    Takes (fun piece items => FitBehind acc piece items (· ≤ most))
      (readToBreak read most acc) := by
  have hbreak : ∀ most acc, FitBehind acc [0xFF] acc.reverse (· ≤ most) :=
    fun most acc => ⟨[], by simp, by simp, by simp⟩
  induction most generalizing acc with
  | zero =>
    intro b items rest h
    rcases readToBreak_cases h with ⟨rfl, rfl⟩ | ⟨less, i, tail, hmost, -⟩
    · exact ⟨[0xFF], rfl, hbreak 0 acc, readToBreak_break read 0 acc⟩
    · cases hmost
  | succ most ih =>
    intro b items rest h
    rcases readToBreak_cases h with ⟨rfl, rfl⟩ | ⟨less, i, tail, hmost, hfirst, hi, hitems⟩
    · exact ⟨[0xFF], rfl, hbreak (most + 1) acc, readToBreak_break read (most + 1) acc⟩
    · cases hmost
      obtain ⟨p, rfl, hp, hpmore⟩ := hread _ i tail hi
      obtain ⟨q, rfl, hq, hqmore⟩ := ih (i :: acc) tail items rest hitems
      refine ⟨p ++ q, by simp, hp.cons hq (fun n hn => by omega), ?_⟩
      intro more
      -- the first byte is one of the item, so no break comes before it
      have hsame : (p ++ (q ++ more)).head? ≠ some 0xFF := by
        cases p with
        | nil => exact absurd rfl hp.1
        | cons x p => simpa using hfirst
      rw [List.append_assoc, readToBreak_item hsame (by simp [hp.1]) (hpmore _)]
      exact hqmore more

/-- The elements of an array, or the keys and values of a map. -/
theorem takes_readItems {read : Reader} (hread : Takes FitsIn read) (per : Nat) (length : Length) :
    Takes (fun piece items => items.length ≤ maxCount * per + (per - 1) ∧
      ∀ i ∈ items, Fits piece.length i) (readItems per length read) := by
  intro b items rest h
  cases length with
  | definite n =>
    simp only [readItems] at h
    split at h
    · next hn =>
      obtain ⟨piece, rfl, ⟨new, hnew, hcount, hfits⟩, hmore⟩ := takes_readMany hread _ _ _ _ _ h
      obtain rfl : items = new := by simpa using hnew
      have hle : n * per ≤ maxCount * per := Nat.mul_le_mul_right per hn
      refine ⟨piece, rfl, ⟨by omega, hfits⟩, ?_⟩
      intro more
      simp only [readItems, if_pos hn]
      exact hmore more
    · cases h
  | indefinite =>
    obtain ⟨piece, rfl, ⟨new, hnew, hcount, hfits⟩, hmore⟩ := takes_readToBreak hread _ _ _ _ _ h
    obtain rfl : items = new := by simpa using hnew
    exact ⟨piece, rfl, ⟨hcount, hfits⟩, hmore⟩

theorem mem_of_pairs? {items : List Item} {entries : List (Item × Item)}
    (h : pairs? items = some entries) : ∀ e ∈ entries, e.1 ∈ items ∧ e.2 ∈ items := by
  fun_induction pairs? items generalizing entries with
  | case1 =>
    cases h
    simp
  | case2 => cases h
  | case3 k v rest ih =>
    obtain ⟨others, hothers, rfl⟩ := Option.map_eq_some_iff.mp h
    intro e he
    rcases List.mem_cons.mp he with rfl | he
    · simp
    · have := ih hothers e he
      simp [this]

/-! ## Whole items -/

/-- What can be said of the items inside another one, if any may be there. -/
def TakesInner (inner : Option Reader) : Prop := ∀ read, inner = some read → Takes FitsIn read

/-- A text, an array or a map is read off what follows its head. -/
theorem takes_text (length : Length) :
    Takes (fun piece i => Fits piece.length i)
      fun b => (readString 3 length b).map fun (chunks, rest) => (.text chunks, rest) := by
  apply (takes_readString 3 length).map Item.text
  intro piece chunks h
  exact .text h

theorem takes_array {read : Reader} (hread : Takes FitsIn read) (length : Length) :
    Takes (fun piece i => Fits piece.length i)
      fun b => (readItems 1 length read b).bind fun (items, rest) => some (.array items, rest) := by
  apply (takes_readItems hread 1 length).bind (R := fun items q i => q = [] ∧ i = .array items)
    (fun items => Takes.pure ⟨rfl, rfl⟩)
  rintro p items q i ⟨hcount, hitems⟩ ⟨rfl, rfl⟩
  rw [List.append_nil]
  exact .array (by simpa using hcount) hitems

theorem takes_map {read : Reader} (hread : Takes FitsIn read) (length : Length) :
    Takes (fun piece i => Fits piece.length i)
      fun b => (readItems 2 length read b).bind fun (items, rest) =>
        (pairs? items).bind fun entries => some (.map entries, rest) := by
  have hpaired : ∀ items, Takes
      (fun q (i : Item) => q = [] ∧ ∃ entries, pairs? items = some entries ∧ i = .map entries)
      fun rest => (pairs? items).bind fun entries => some (Item.map entries, rest) := by
    intro items
    cases hpairs : pairs? items with
    | none => exact Takes.nothing
    | some entries => exact Takes.pure ⟨rfl, entries, rfl, rfl⟩
  apply (takes_readItems hread 2 length).bind hpaired
  rintro p items q i ⟨-, hitems⟩ ⟨rfl, entries, hpairs, rfl⟩
  have hmem := mem_of_pairs? hpairs
  rw [List.append_nil]
  exact .map (fun e he => hitems _ (hmem e he).1) (fun e he => hitems _ (hmem e he).2)

theorem takes_readUntagged {inner : Option Reader} (hinner : TakesInner inner) :
    Takes FitsIn (readUntagged inner) := by
  intro b i rest h
  cases hhead : head? b with
  | none => simp [readUntagged, hhead] at h
  | some p =>
    obtain ⟨⟨major, info, length⟩, tail⟩ := p
    obtain ⟨start, rfl, hne, hmore⟩ := takes_head? _ _ _ hhead
    -- the head decides how the rest is read
    have finish : ∀ next : Reader, Takes (fun piece i => Fits piece.length i) next →
        (∀ t, readUntagged inner (start ++ t) = next t) →
        ∃ piece, start ++ tail = piece ++ rest ∧ FitsIn piece i ∧
          ∀ more, readUntagged inner (piece ++ more) = some (i, more) := by
      intro next hnext heq
      rw [heq] at h
      obtain ⟨part, rfl, hfits, hpart⟩ := hnext tail i rest h
      refine ⟨start ++ part, by simp, ⟨by simp [hne], hfits.mono (by simp)⟩, ?_⟩
      intro more
      rw [List.append_assoc, heq, hpart]
    have hread := h
    simp only [readUntagged, hhead] at hread
    split at hread
    · next n =>
      exact finish _ (Takes.pure (.unsigned n)) fun t => by simp only [readUntagged, hmore]
    · next n =>
      exact finish _ (Takes.pure (.negative n)) fun t => by simp only [readUntagged, hmore]
    · refine finish _ ((takes_readString 2 length).map (fun chunks => .bytes chunks.flatten) ?_)
        fun t => by simp only [readUntagged, hmore]
      intro piece chunks _
      exact .bytes _
    · exact finish _ (takes_text length) fun t => by simp only [readUntagged, hmore]
    · obtain ⟨read, hin, -⟩ := Option.bind_eq_some_iff.mp hread
      refine finish _ (takes_array (hinner read hin) length) fun t => ?_
      simp only [readUntagged, hmore, hin, Option.bind_eq_bind, Option.bind_some]
    · obtain ⟨read, hin, -⟩ := Option.bind_eq_some_iff.mp hread
      refine finish _ (takes_map (hinner read hin) length) fun t => ?_
      simp only [readUntagged, hmore, hin, Option.bind_eq_bind, Option.bind_some]
    · next n =>
      -- a simple value or a floating-point number is all in the head
      split at hread
      · next hinfo =>
        exact finish _ (Takes.pure (.simple n)) fun t => by
          simp only [readUntagged, hmore, hinfo, if_true]
      · next hlong =>
        split at hread
        · next hinfo =>
          split at hread
          · next hn =>
            exact finish _ (Takes.pure (.simple n)) fun t => by
              simp only [readUntagged, hmore, hinfo, hn, if_true]
              rfl
          · cases hread
        · next hinfo =>
          exact finish _ (Takes.pure (.float (toBigEndian (1 <<< (info - 24)) n))) fun t => by
            simp only [readUntagged, hmore, hlong, hinfo, if_false]
    · cases hread

theorem startsWithTag_append {piece : Bytes} (h : piece ≠ []) (b : Bytes) :
    startsWithTag (piece ++ b) = startsWithTag piece := by
  cases piece with
  | nil => exact absurd rfl h
  | cons x piece => rfl

/-- The first byte tells which of two readers is used. -/
theorem Takes.ite {read other : Reader} (hread : Takes FitsIn read) (hother : Takes FitsIn other) :
    Takes FitsIn fun b => if startsWithTag b then read b else other b := by
  intro b i rest h
  dsimp only at h
  by_cases htag : startsWithTag b
  · rw [if_pos htag] at h
    obtain ⟨piece, rfl, hpiece, hmore⟩ := hread b i rest h
    refine ⟨piece, rfl, hpiece, fun more => ?_⟩
    rw [startsWithTag_append hpiece.1] at htag
    simp [startsWithTag_append hpiece.1, htag, hmore]
  · rw [if_neg htag] at h
    obtain ⟨piece, rfl, hpiece, hmore⟩ := hother b i rest h
    refine ⟨piece, rfl, hpiece, fun more => ?_⟩
    rw [startsWithTag_append hpiece.1] at htag
    simp [startsWithTag_append hpiece.1, htag, hmore]

theorem takes_inner {inner : Option Reader} (hinner : TakesInner inner) :
    Takes FitsIn fun b => inner.bind fun read => read b := by
  cases inner with
  | none => exact Takes.nothing
  | some read => exact hinner read rfl

/-- An item under a tag. -/
def readTagged (inner : Option Reader) (b : Bytes) : Option (Item × Bytes) :=
  (head? b).bind fun (h, rest) =>
    match h.length with
    | .definite n =>
      (if startsWithTag rest then inner.bind fun read => read rest else readUntagged inner rest).map
        fun (content, rest) => (.tag n content, rest)
    | .indefinite => none

theorem readWith_eq (inner : Option Reader) :
    readWith inner =
      fun b => if startsWithTag b then readTagged inner b else readUntagged inner b := by
  funext b
  unfold readWith readTagged
  split
  · rcases head? b with _ | ⟨⟨major, info, n | _⟩, rest⟩
    · rfl
    · simp only [Option.bind_eq_bind, Option.bind_some, Option.map_eq_bind]
      by_cases htag : startsWithTag rest
      · rw [if_pos htag, if_pos htag, Option.bind_assoc]
        rfl
      · rw [if_neg htag, if_neg htag]
        rfl
    · rfl
  · rfl

theorem takes_readTagged {inner : Option Reader} (hinner : TakesInner inner) :
    Takes FitsIn (readTagged inner) := by
  have hcontent := (takes_inner hinner).ite (takes_readUntagged hinner)
  have hnext : ∀ h : Head, Takes FitsIn fun rest =>
      match h.length with
      | .definite n =>
        (if startsWithTag rest then inner.bind fun read => read rest
          else readUntagged inner rest).map
          fun (content, rest) => (.tag n content, rest)
      | .indefinite => none := by
    intro h
    cases h.length with
    | definite n => exact hcontent.map (Item.tag n) fun p i hi => ⟨hi.1, .tag n hi.2⟩
    | indefinite => exact Takes.nothing
  apply takes_head?.bind hnext
  intro p h q i hp hi
  exact ⟨by simp [hp], hi.2.mono (by simp)⟩

theorem takes_readWith {inner : Option Reader} (hinner : TakesInner inner) :
    Takes FitsIn (readWith inner) := by
  rw [readWith_eq]
  exact (takes_readTagged hinner).ite (takes_readUntagged hinner)

/-- Reading an item takes a piece off the text that it fits in, and looks at nothing behind it. -/
theorem takes_read (levels : Nat) : Takes FitsIn (read levels) := by
  induction levels with
  | zero =>
    apply takes_readWith
    intro read hread
    cases hread
  | succ levels ih =>
    apply takes_readWith
    intro read hread
    cases hread
    exact ih

/-! ## Whole texts -/

theorem parse?_eq_some_iff {b : Bytes} {i : Item} :
    parse? b = some i ↔ read maxNesting b = some (i, []) := by
  unfold parse?
  split
  · next hread => simp [hread]
  · next hno =>
    constructor
    · intro h
      cases h
    · intro h
      exact absurd h (hno i)

/-- A text that is one item spells it. -/
theorem spells_of_parse? {b : Bytes} {i : Item} (h : parse? b = some i) :
    Spells maxNesting b i ∧ Fits b.length i := by
  obtain ⟨piece, hb, hfits, hmore⟩ := takes_read maxNesting b i [] (parse?_eq_some_iff.mp h)
  obtain rfl : b = piece := by simpa using hb
  exact ⟨hmore, hfits.2⟩

/-- No text that is one item starts another one. -/
theorem parse?_append_of_spells {b more : Bytes} {i : Item} (h : Spells maxNesting b i)
    (hmore : more ≠ []) : parse? (b ++ more) = none := by
  have hread := h more
  cases more with
  | nil => exact absurd rfl hmore
  | cons x more => simp [parse?, hread]

end TagMachine.Cbor
