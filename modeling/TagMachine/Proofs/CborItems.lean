import Mathlib.Algebra.Ring.Int.Defs
import Mathlib.Algebra.Ring.Nat
import TagMachine.Cbor.Item
import TagMachine.Proofs.Utf8Text

/-!
Reading a data item undoes writing it. A piece of text spells an item if reading takes exactly that
piece off whatever text it starts; texts and integers spell themselves, and the items of an array or
a map are read one after the other, up to the number that may be read.
-/

namespace TagMachine.Cbor

/-! ## Heads -/

theorem take?_append (b rest : Bytes) : take? b.length (b ++ rest) = some (b, rest) := by
  simp [take?]

theorem length_toBigEndian (width n : Nat) : (toBigEndian width n).length = width := by
  induction width generalizing n with
  | zero => rfl
  | succ width ih => simp [toBigEndian, ih]

theorem bigEndian_toBigEndian {width n : Nat} (h : n < 256 ^ width) :
    bigEndian (toBigEndian width n) = n := by
  induction width generalizing n with
  | zero =>
    simp only [Nat.pow_zero] at h
    simp only [toBigEndian, bigEndian, List.foldl_nil]
    omega
  | succ width ih =>
    have hrest : n / 256 < 256 ^ width := by
      rw [Nat.pow_succ] at h
      omega
    have hbyte : (n % 256).toUInt8.toNat = n % 256 := Bytes.toNat_toUInt8 (by omega)
    have := ih hrest
    unfold bigEndian at this ⊢
    rw [toBigEndian, List.foldl_append, this, List.foldl_cons, List.foldl_nil, hbyte]
    omega

theorem head?_long {major k n : Nat} (hm : major < 8) (hk : k < 4) (hn : n < 256 ^ (1 <<< k))
    (rest : Bytes) :
    head? ((major * 32 + (24 + k)).toUInt8 :: toBigEndian (1 <<< k) n ++ rest) =
      some (⟨major, 24 + k, .definite n⟩, rest) := by
  have hbyte : (major * 32 + (24 + k)).toUInt8.toNat = major * 32 + (24 + k) :=
    Bytes.toNat_toUInt8 (by omega)
  have htake := take?_append (toBigEndian (1 <<< k) n) rest
  rw [length_toBigEndian] at htake
  have hmajor : (major * 32 + (24 + k)) / 32 = major := by omega
  have hinfo : (major * 32 + (24 + k)) % 32 = 24 + k := by omega
  unfold head?
  simp only [List.cons_append, hbyte, hmajor, hinfo]
  rw [if_neg (by omega), if_pos (by omega), Nat.add_sub_cancel_left, htake]
  simp only [bigEndian_toBigEndian hn]

/-- A head that was written is read back, whatever its size. -/
theorem head?_head {major n : Nat} (hm : major < 8) (hn : n < 2 ^ 64) (rest : Bytes) :
    ∃ info, head? (head major n ++ rest) = some (⟨major, info, .definite n⟩, rest) := by
  unfold head
  simp only [Nat.reduceShiftLeft]
  split
  · next h =>
    have hbyte : (major * 32 + n).toUInt8.toNat = major * 32 + n := Bytes.toNat_toUInt8 (by omega)
    refine ⟨n, ?_⟩
    have hmajor : (major * 32 + n) / 32 = major := by omega
    have hinfo : (major * 32 + n) % 32 = n := by omega
    unfold head?
    simp only [List.cons_append, List.nil_append, hbyte, hmajor, hinfo]
    rw [if_pos h]
  split
  · exact ⟨_, head?_long hm (k := 0) (by decide) (by simpa using by omega) rest⟩
  split
  · exact ⟨_, head?_long hm (k := 1) (by decide) (by simpa using by omega) rest⟩
  split
  · exact ⟨_, head?_long hm (k := 2) (by decide) (by simpa using by omega) rest⟩
  · exact ⟨_, head?_long hm (k := 3) (by decide) (by simpa using by omega) rest⟩

theorem head_eq_cons (major n : Nat) :
    ∃ k tail, k < 32 ∧ head major n = (major * 32 + k).toUInt8 :: tail := by
  unfold head
  split
  · next h => exact ⟨n, [], by omega, rfl⟩
  split
  · exact ⟨24, _, by decide, rfl⟩
  split
  · exact ⟨25, _, by decide, rfl⟩
  split
  · exact ⟨26, _, by decide, rfl⟩
  · exact ⟨27, _, by decide, rfl⟩

theorem startsWithTag_head {major n : Nat} (hm : major < 8) (h6 : major ≠ 6) (rest : Bytes) :
    startsWithTag (head major n ++ rest) = false := by
  obtain ⟨k, tail, hk, hhead⟩ := head_eq_cons major n
  have hbyte : (major * 32 + k).toUInt8.toNat / 32 ≠ 6 := by
    rw [Bytes.toNat_toUInt8 (by omega)]
    omega
  rw [hhead]
  simpa [startsWithTag] using hbyte

/-! ## Items -/

/-- Reading with `levels` of nesting left takes this piece off a text and gives this item. -/
def Spells (levels : Nat) (b : Bytes) (item : Item) : Prop :=
  ∀ rest, read levels (b ++ rest) = some (item, rest)

/-- What reads the items inside another one. -/
def inner : (levels : Nat) → Option Reader
  | 0 => none
  | levels + 1 => some (read levels)

theorem read_eq (levels : Nat) : read levels = readWith (inner levels) := by
  cases levels <;> rfl

theorem read_head {major n : Nat} (hm : major < 8) (h6 : major ≠ 6) (levels : Nat) (rest : Bytes) :
    read levels (head major n ++ rest) = readUntagged (inner levels) (head major n ++ rest) := by
  rw [read_eq, readWith, startsWithTag_head hm h6]
  rfl

/-- The item of an integer. -/
def intItem : Int → Item
  | .ofNat n => .unsigned n
  | .negSucc n => .negative n

theorem spells_writeInt {n : Int} (hlo : -2 ^ 64 ≤ n) (hhi : n < 2 ^ 64) (levels : Nat) :
    Spells levels (writeInt n) (intItem n) := by
  intro rest
  cases n with
  | ofNat n =>
    have hn : n < 2 ^ 64 := by
      rw [Int.ofNat_eq_natCast] at hhi
      omega
    obtain ⟨info, hhead⟩ := head?_head (show 0 < 8 by decide) hn rest
    rw [writeInt, read_head (by decide) (by decide), readUntagged, hhead]
    rfl
  | negSucc n =>
    have hn : n < 2 ^ 64 := by omega
    obtain ⟨info, hhead⟩ := head?_head (show 1 < 8 by decide) hn rest
    rw [writeInt, read_head (by decide) (by decide), readUntagged, hhead]
    rfl

theorem spells_writeText {b : Bytes} (h : b.length < 2 ^ 64) (levels : Nat) :
    Spells levels (writeText b) (.text [b]) := by
  intro rest
  obtain ⟨info, hhead⟩ := head?_head (show 3 < 8 by decide) h (b ++ rest)
  rw [writeText, List.append_assoc, read_head (by decide) (by decide), readUntagged, hhead]
  simp [readString, take?_append]

/-! ## Items in a row -/

/-- Pieces that spell items are read one after the other. -/
theorem readMany_spelled {levels : Nat} (pieces : List (Bytes × Item))
    (h : ∀ p ∈ pieces, Spells levels p.1 p.2) (k : Nat) (acc : List Item) (rest : Bytes) :
    readMany (read levels) (pieces.length + k) acc ((pieces.map Prod.fst).flatten ++ rest) =
      readMany (read levels) k ((pieces.map Prod.snd).reverse ++ acc) rest := by
  induction pieces generalizing acc with
  | nil => simp
  | cons p pieces ih =>
    obtain ⟨hp, hpieces⟩ := List.forall_mem_cons.mp h
    -- the rest of the pieces is what follows the first one
    have hcount : (p :: pieces).length + k = (pieces.length + k) + 1 := by
      rw [List.length_cons]
      omega
    rw [hcount, List.map_cons, List.flatten_cons, List.append_assoc, readMany, hp]
    dsimp only
    rw [ih hpieces]
    simp

theorem readMany_all {levels : Nat} (pieces : List (Bytes × Item))
    (h : ∀ p ∈ pieces, Spells levels p.1 p.2) (rest : Bytes) :
    readMany (read levels) pieces.length [] ((pieces.map Prod.fst).flatten ++ rest) =
      some (pieces.map Prod.snd, rest) := by
  have hall := readMany_spelled pieces h 0 [] rest
  rw [Nat.add_zero] at hall
  rw [hall, readMany]
  simp

theorem spells_array {levels : Nat} (pieces : List (Bytes × Item))
    (h : ∀ p ∈ pieces, Spells levels p.1 p.2) (hcount : pieces.length ≤ maxCount) :
    Spells (levels + 1) (head 4 pieces.length ++ (pieces.map Prod.fst).flatten)
      (.array (pieces.map Prod.snd)) := by
  intro rest
  have hlt : pieces.length < 2 ^ 64 := by
    unfold maxCount at hcount
    omega
  obtain ⟨info, hhead⟩ := head?_head (show 4 < 8 by decide) hlt
    ((pieces.map Prod.fst).flatten ++ rest)
  rw [List.append_assoc, read_head (by decide) (by decide), readUntagged, hhead]
  simp only [inner, Option.bind_eq_bind, Option.bind_some, readItems, if_pos hcount, Nat.mul_one,
    readMany_all pieces h rest]

/-- An array with too many elements is not read. -/
theorem read_array_of_maxCount_lt {n : Nat} (hcount : maxCount < n) (hn : n < 2 ^ 64) (levels : Nat)
    (rest : Bytes) : read levels (head 4 n ++ rest) = none := by
  obtain ⟨info, hhead⟩ := head?_head (show 4 < 8 by decide) hn rest
  rw [read_head (by decide) (by decide), readUntagged, hhead]
  cases levels with
  | zero => rfl
  | succ levels =>
    simp only [inner, Option.bind_eq_bind, Option.bind_some, readItems,
      if_neg (Nat.not_le.mpr hcount), Option.bind_none]

/-- A map is read as its keys and values in turn. -/
theorem read_map {n : Nat} (hcount : n ≤ maxCount) (levels : Nat) (rest : Bytes) :
    read (levels + 1) (head 5 n ++ rest) =
      (readMany (read levels) (n * 2) [] rest).bind fun (items, rest) =>
        (pairs? items).bind fun entries => some (.map entries, rest) := by
  have hn : n < 2 ^ 64 := by
    unfold maxCount at hcount
    omega
  obtain ⟨info, hhead⟩ := head?_head (show 5 < 8 by decide) hn rest
  rw [read_head (by decide) (by decide), readUntagged, hhead]
  simp only [inner, Option.bind_eq_bind, Option.bind_some, readItems, if_pos hcount]

end TagMachine.Cbor
