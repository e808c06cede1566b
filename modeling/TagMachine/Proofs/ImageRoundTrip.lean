import TagMachine.Program.Image
import TagMachine.Proofs.CborItems

/-!
Images are read back as they were written. A program of at most 131072 words with a source in valid
UTF-8 survives the round trip exactly; any other is written just as well, but its image is refused.
-/

namespace TagMachine.Image

open Cbor (Item Spells)

/-! ## An image in pieces -/

/-- A text and the item it is read as. -/
def textPiece (b : Bytes) : Bytes × Item := (Cbor.writeText b, .text [b])

/-- An integer and the item it is read as. -/
def intPiece (n : Int) : Bytes × Item := (Cbor.writeInt n, Cbor.intItem n)

/-- The program words and the item they are read as. -/
def wordsPiece (words : Program) : Bytes × Item :=
  let pieces := words.map fun w => intPiece w.toInt
  (Cbor.head 4 pieces.length ++ (pieces.map Prod.fst).flatten, .array (pieces.map Prod.snd))

/-- What stands in front of the program words. -/
def front : List (Bytes × Item) := [textPiece "magic", textPiece expectedMagic, textPiece "words"]

/-- What follows the program words. -/
def back (source : Bytes) : List (Bytes × Item) :=
  (if source.isEmpty then [] else [textPiece "source", textPiece source]) ++
    [textPiece "version", intPiece expectedVersion]

/-- The number of map entries. -/
def entryCount (source : Bytes) : Nat := if source.isEmpty then 3 else 4

theorem encode_eq_pieces (words : Program) (source : Bytes) :
    encode words source =
      Cbor.head 5 (entryCount source) ++ ((front.map Prod.fst).flatten ++
        ((wordsPiece words).1 ++ ((back source).map Prod.fst).flatten)) := by
  have hwords : ((words.map fun w => intPiece w.toInt).map Prod.fst).flatten =
      words.flatMap fun w => Cbor.writeInt w.toInt := by
    rw [List.map_map, List.flatMap_def]
    rfl
  unfold encode entryCount Bytes.cat front back wordsPiece
  dsimp only
  rw [hwords]
  cases source.isEmpty <;> simp [textPiece, intPiece]

theorem length_pieces (source : Bytes) : front.length + ((back source).length + 1) =
    entryCount source * 2 := by
  unfold entryCount back front
  cases source.isEmpty <;> rfl

theorem spells_textPiece {b : Bytes} (h : b.length < 2 ^ 64) (levels : Nat) :
    Spells levels (textPiece b).1 (textPiece b).2 := Cbor.spells_writeText h levels

theorem spells_intPiece (w : Int32) (levels : Nat) :
    Spells levels (intPiece w.toInt).1 (intPiece w.toInt).2 := by
  have hlo := w.le_toInt
  have hhi := w.toInt_lt
  exact Cbor.spells_writeInt (by omega) (by omega) levels

theorem spells_wordsPiece {words : Program} (h : words.length ≤ Cbor.maxCount) (levels : Nat) :
    Spells (levels + 1) (wordsPiece words).1 (wordsPiece words).2 := by
  have hpieces : ∀ p ∈ words.map (fun w : Int32 => intPiece w.toInt), Spells levels p.1 p.2 := by
    intro p hp
    obtain ⟨w, -, rfl⟩ := List.mem_map.mp hp
    exact spells_intPiece w levels
  have harray := Cbor.spells_array _ hpieces (by simpa using h)
  unfold wordsPiece
  exact harray

theorem spells_front (levels : Nat) : ∀ p ∈ front, Spells levels p.1 p.2 := by
  intro p hp
  simp only [front, List.mem_cons, List.not_mem_nil, or_false] at hp
  rcases hp with rfl | rfl | rfl
  · exact spells_textPiece (by decide +kernel) levels
  · exact spells_textPiece (by decide +kernel) levels
  · exact spells_textPiece (by decide +kernel) levels

theorem spells_back {source : Bytes} (h : source.length < 2 ^ 64) (levels : Nat) :
    ∀ p ∈ back source, Spells levels p.1 p.2 := by
  have hversion : Spells levels (intPiece expectedVersion).1 (intPiece expectedVersion).2 :=
    spells_intPiece 1 levels
  intro p hp
  unfold back at hp
  rcases List.mem_append.mp hp with hp | hp
  · split at hp
    · cases hp
    · simp only [List.mem_cons, List.not_mem_nil, or_false] at hp
      rcases hp with rfl | rfl
      · exact spells_textPiece (by decide +kernel) levels
      · exact spells_textPiece h levels
  · simp only [List.mem_cons, List.not_mem_nil, or_false] at hp
    rcases hp with rfl | rfl
    · exact spells_textPiece (by decide +kernel) levels
    · exact hversion

/-! ## Reading the map -/

/-- The map entries of an image. -/
def entries (words : Program) (source : Bytes) : List (Item × Item) :=
  [(.text ["magic"], .text [expectedMagic]), (.text ["words"], (wordsPiece words).2)] ++
    ((if source.isEmpty then [] else [(.text ["source"], .text [source])]) ++
      [(.text ["version"], Cbor.intItem expectedVersion)])

theorem pairs?_pieces (words : Program) (source : Bytes) :
    Cbor.pairs? ((front ++ wordsPiece words :: back source).map Prod.snd) =
      some (entries words source) := by
  unfold front back entries
  cases source.isEmpty <;> rfl

theorem entryCount_le (source : Bytes) : entryCount source ≤ Cbor.maxCount := by
  unfold entryCount
  split <;> decide

/-- The image of a program that is not too long is a map, whatever follows it. -/
theorem spells_encode {words : Program} {source : Bytes} (hwords : words.length ≤ Cbor.maxCount)
    (hsource : source.length < 2 ^ 64) :
    Spells Cbor.maxNesting (encode words source) (.map (entries words source)) := by
  intro rest
  -- the map takes one of the 32 levels and the array of words another
  have hspelled : ∀ p ∈ front ++ wordsPiece words :: back source, Spells 31 p.1 p.2 := by
    simp only [List.forall_mem_append, List.forall_mem_cons]
    exact ⟨spells_front 31, spells_wordsPiece hwords 30, spells_back hsource 31⟩
  have hall := Cbor.readMany_all _ hspelled rest
  have hlength : (front ++ wordsPiece words :: back source).length = entryCount source * 2 := by
    rw [List.length_append, List.length_cons, length_pieces]
  have htext : encode words source ++ rest = Cbor.head 5 (entryCount source) ++
      (((front ++ wordsPiece words :: back source).map Prod.fst).flatten ++ rest) := by
    rw [encode_eq_pieces]
    simp
  rw [hlength] at hall
  unfold Cbor.maxNesting
  rw [htext, Cbor.read_map (entryCount_le source), hall]
  simp only [Option.bind_some, pairs?_pieces]

theorem parse?_encode {words : Program} {source : Bytes} (hwords : words.length ≤ Cbor.maxCount)
    (hsource : source.length < 2 ^ 64) :
    Cbor.parse? (encode words source) = some (.map (entries words source)) := by
  have hread := spells_encode hwords hsource []
  rw [List.append_nil] at hread
  unfold Cbor.parse?
  rw [hread]

/-- The words of a program that is too long are not read, so neither is its image. -/
theorem read_encode_of_maxCount_lt {words : Program} (source : Bytes)
    (hwords : Cbor.maxCount < words.length) (hlt : words.length < 2 ^ 64) (rest : Bytes) :
    Cbor.read Cbor.maxNesting (encode words source ++ rest) = none := by
  have hfront := Cbor.readMany_spelled front (spells_front 31) ((back source).length + 1) []
    ((wordsPiece words).1 ++ (((back source).map Prod.fst).flatten ++ rest))
  rw [length_pieces] at hfront
  -- reading gets as far as the head of the array, which holds the count
  have harray :
      Cbor.read 31 ((wordsPiece words).1 ++ (((back source).map Prod.fst).flatten ++ rest)) =
        none := by
    unfold wordsPiece
    dsimp only
    rw [List.append_assoc, List.length_map]
    exact Cbor.read_array_of_maxCount_lt hwords hlt 31 _
  unfold Cbor.maxNesting
  rw [encode_eq_pieces, List.append_assoc, List.append_assoc, List.append_assoc,
    Cbor.read_map (entryCount_le source), hfront, Cbor.readMany, harray]
  rfl

theorem parse?_encode_of_maxCount_lt {words : Program} (source : Bytes)
    (hwords : Cbor.maxCount < words.length) (hlt : words.length < 2 ^ 64) :
    Cbor.parse? (encode words source) = none := by
  have hread := read_encode_of_maxCount_lt source hwords hlt []
  rw [List.append_nil] at hread
  unfold Cbor.parse?
  rw [hread]

/-! ## Reading the fields -/

theorem readInt?_intItem (w : Int32) : readInt? 32 (Cbor.intItem w.toInt) = some w.toInt := by
  have hlo := w.le_toInt
  have hhi := w.toInt_lt
  have hinteger : integer? (Cbor.intItem w.toInt) = some w.toInt := by
    cases w.toInt with
    | ofNat n => rfl
    | negSucc n =>
      simp only [Cbor.intItem, integer?, Option.some.injEq]
      omega
  have hplain : untag? (Cbor.intItem w.toInt) = some (Cbor.intItem w.toInt) ∧
      isNothing (Cbor.intItem w.toInt) = false := by
    cases w.toInt <;> exact ⟨rfl, rfl⟩
  have hlimit : Numeral.signedLimit 32 = 2 ^ 31 := by decide
  unfold readInt?
  simp only [Option.bind_eq_bind, hplain, Option.bind_some, hinteger, Bool.false_eq_true, if_false,
    hlimit]
  rw [if_pos (by omega)]

theorem readWords?_wordsPiece (words : Program) : readWords? (wordsPiece words).2 = some words := by
  have hwords : ((words.map fun w => intPiece w.toInt).map Prod.snd).mapM
      (fun i => (readInt? 32 i).map Int32.ofInt) = some words := by
    induction words with
    | nil => rfl
    | cons w words ih =>
      have hw : (readInt? 32 (intPiece w.toInt).2).map Int32.ofInt = some w := by
        rw [intPiece, readInt?_intItem, Option.map_some, Int32.ofInt_toInt]
      rw [List.map_cons, List.map_cons, List.mapM_cons, hw, ih]
      rfl
  exact hwords

theorem readText?_text (b : Bytes) :
    readText? (.text [b]) = if Utf8.isValid b then some b else none := by
  simp [readText?, untag?, isNothing, validText?]

theorem readEntries?_field {seen : List Field} {f : Field} {k : Item}
    (h : key? seen k = some (.field f)) (img : Image) (v : Item) (rest : List (Item × Item)) :
    readEntries? seen img ((k, v) :: rest) =
      (withField? img f v).bind fun img => readEntries? (f :: seen) img rest := by
  rw [readEntries?, h]
  dsimp only
  cases withField? img f v <;> rfl

theorem ofItem?_entries (words : Program) (source : Bytes) :
    ofItem? (.map (entries words source)) =
      if Utf8.isValid source then some ⟨expectedMagic, expectedVersion, words, source⟩
      else none := by
  have hmagic : key? [] (.text ["magic"]) = some (.field .magic) := by decide +kernel
  have hwords : key? [.magic] (.text ["words"]) = some (.field .words) := by decide +kernel
  have hsource : key? [.words, .magic] (.text ["source"]) = some (.field .source) := by
    decide +kernel
  have hversion : key? [.words, .magic] (.text ["version"]) = some (.field .version) := by
    decide +kernel
  have hlast : key? [.source, .words, .magic] (.text ["version"]) = some (.field .version) := by
    decide +kernel
  have hmark : readText? (.text [expectedMagic]) = some expectedMagic := by decide +kernel
  have hone : readInt? 64 (Cbor.intItem expectedVersion) = some expectedVersion := by decide +kernel
  have hfields : ofItem? (.map (entries words source)) =
      readEntries? [] blank (entries words source) := rfl
  rw [hfields]
  unfold entries
  simp only [List.cons_append, List.nil_append]
  -- each key is looked up among the fields not seen yet
  rw [readEntries?_field hmagic, withField?, hmark, Option.map_some, Option.bind_some,
    readEntries?_field hwords, withField?, readWords?_wordsPiece, Option.map_some, Option.bind_some]
  -- the source has an entry of its own exactly if there is one
  by_cases hempty : source = []
  · subst hempty
    simp only [List.isEmpty_nil, if_true, List.nil_append]
    have hvalid : Utf8.isValid [] := Utf8.isValid_encodeAll []
    rw [readEntries?_field hversion, withField?, hone, if_pos hvalid]
    rfl
  · rw [if_neg (by simpa using hempty), List.cons_append, readEntries?_field hsource, withField?,
      readText?_text]
    by_cases hvalid : Utf8.isValid source
    · rw [if_pos hvalid, if_pos hvalid, Option.map_some, Option.bind_some, List.nil_append,
        readEntries?_field hlast, withField?, hone]
      rfl
    · rw [if_neg hvalid, if_neg hvalid]
      rfl

/-! ## The round trip -/

/-- An image that is written is read back, unless its source is no text or its program too long. -/
theorem decode_encode {words : Program} {source : Bytes} (hwords : words.length < 2 ^ 64)
    (hsource : source.length < 2 ^ 64) :
    decode (encode words source) =
      if Utf8.isValid source ∧ words.length ≤ Cbor.maxCount then
        .ok ⟨expectedMagic, expectedVersion, words, source⟩
      else .error .notAnImage := by
  unfold decode
  by_cases hfits : words.length ≤ Cbor.maxCount
  · rw [parse?_encode hfits hsource, Option.bind_some, ofItem?_entries]
    by_cases hvalid : Utf8.isValid source
    · simp [hvalid, hfits]
    · simp [hvalid]
  · rw [parse?_encode_of_maxCount_lt source (Nat.not_le.mp hfits) hwords]
    simp [hfits]

/-- A program and its source come back from their image, the source also where it is empty and has
no entry, exactly if the source is valid text and the program has at most 131072 words. Lengths are
written in 64 bits. -/
theorem an_image_comes_back_exactly_if_its_source_is_text_and_its_words_fit (words : Program)
    (source : Bytes) (hwords : words.length < 2 ^ 64) (hsource : source.length < 2 ^ 64) :
    ((∃ img, decode (encode words source) = .ok img) ↔
      source.toByteArray.IsValidUTF8 ∧ words.length ≤ 131072) ∧
    (∀ img, decode (encode words source) = .ok img → img = ⟨"TVMI", 1, words, source⟩) ∧
    (words.length ≤ 131072 → ∃ entries, Cbor.parse? (encode words source) = some (.map entries) ∧
      (.text ["source"] ∈ entries.map Prod.fst ↔ source ≠ [])) := by
  have hdecode := decode_encode hwords hsource
  refine ⟨?_, ?_, ?_⟩
  · rw [← Utf8.isValid_iff, hdecode]
    constructor
    · rintro ⟨img, himg⟩
      split at himg
      · next h => exact h
      · cases himg
    · intro h
      exact ⟨_, if_pos h⟩
  · intro img himg
    rw [hdecode] at himg
    split at himg
    · cases himg
      rfl
    · cases himg
  · intro hfits
    refine ⟨_, parse?_encode hfits hsource, ?_⟩
    have hkeys : ("source" : Bytes) ≠ "magic" ∧ ("source" : Bytes) ≠ "words" ∧
        ("source" : Bytes) ≠ "version" := by decide +kernel
    unfold entries
    cases source with
    | nil => simp [hkeys]
    | cons a source => simp

theorem words_of_every_size_come_back_with_their_source :
    decode (encode [23, -25, 256, 2147483647, -2147483648] "23 // é") =
      .ok ⟨"TVMI", 1, [23, -25, 256, 2147483647, -2147483648], "23 // é"⟩ := by
  have htrip := an_image_comes_back_exactly_if_its_source_is_text_and_its_words_fit
    [23, -25, 256, 2147483647, -2147483648] "23 // é" (by decide) (by decide +kernel)
  have hvalid : Utf8.isValid "23 // é" := by decide +kernel
  obtain ⟨img, himg⟩ := htrip.1.mpr ⟨Utf8.isValid_iff.mp hvalid, by decide⟩
  rw [himg, htrip.2.1 img himg]

end TagMachine.Image
