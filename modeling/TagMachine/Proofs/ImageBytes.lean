import Mathlib.Data.List.Basic
import TagMachine.Proofs.CborReading
import TagMachine.Proofs.ImageRoundTrip

/-!
Which bytes are an image. No part of a written image and nothing that goes on behind one is an
image. Images may be written in many ways that are not the canonical one, but whatever is read from
them can be written again, and the image that is written then holds just the same.
-/

namespace TagMachine.Image

open Cbor (Item Fits Spells)

/-! ## Damaged images -/

theorem decode_of_parse?_eq_none {d : Bytes} (h : Cbor.parse? d = none) :
    decode d = .error .notAnImage := by
  simp [decode, h]

/-- A part of an image in front of the rest of it is no item. -/
theorem parse?_of_append_eq_encode {words : Program} {source d rest : Bytes}
    (hwords : words.length < 2 ^ 64) (hsource : source.length < 2 ^ 64)
    (hd : d ++ rest = encode words source) (hrest : rest ≠ []) : Cbor.parse? d = none := by
  cases hparse : Cbor.parse? d with
  | none => rfl
  | some i =>
    -- the part would be read off the whole image, which leaves the rest of it
    have hread := (Cbor.spells_of_parse? hparse).1 rest
    rw [hd] at hread
    by_cases hfits : words.length ≤ Cbor.maxCount
    · have hwhole := spells_encode hfits hsource []
      rw [List.append_nil, hread] at hwhole
      simp only [Option.some.injEq, Prod.mk.injEq] at hwhole
      exact absurd hwhole.2 hrest
    · have hnone := read_encode_of_maxCount_lt source (Nat.not_le.mp hfits) hwords []
      rw [List.append_nil, hread] at hnone
      cases hnone

theorem parse?_encode_append {words : Program} {source more : Bytes}
    (hwords : words.length < 2 ^ 64) (hsource : source.length < 2 ^ 64) (hmore : more ≠ []) :
    Cbor.parse? (encode words source ++ more) = none := by
  by_cases hfits : words.length ≤ Cbor.maxCount
  · exact Cbor.parse?_append_of_spells (spells_encode hfits hsource) hmore
  · have hnone := read_encode_of_maxCount_lt source (Nat.not_le.mp hfits) hwords more
    simp [Cbor.parse?, hnone]

/-- An image that is cut off anywhere, or goes on behind its end, is refused as no image at all.
Lengths are written in 64 bits. -/
theorem a_damaged_image_is_no_image (words : Program) (source : Bytes)
    (hwords : words.length < 2 ^ 64) (hsource : source.length < 2 ^ 64) :
    (∀ n < (encode words source).length,
      decode ((encode words source).take n) = .error .notAnImage) ∧
    ∀ more ≠ [], decode (encode words source ++ more) = .error .notAnImage := by
  constructor
  · intro n hn
    apply decode_of_parse?_eq_none
    apply parse?_of_append_eq_encode hwords hsource (List.take_append_drop n _)
    intro hnil
    rw [List.drop_eq_nil_iff] at hnil
    omega
  · intro more hmore
    apply decode_of_parse?_eq_none
    exact parse?_encode_append hwords hsource hmore

theorem an_image_without_its_last_byte_is_no_image :
    decode ((encode [25, -1] "STOP").take 42) = .error .notAnImage ∧
      decode (encode [25, -1] "STOP" ++ [0]) = .error .notAnImage := by
  have hdamaged := a_damaged_image_is_no_image [25, -1] "STOP" (by decide) (by decide +kernel)
  exact ⟨hdamaged.1 42 (by decide +kernel), hdamaged.2 [0] (by decide)⟩

/-! ## What can be read -/

theorem fits_untag? {room : Nat} {i j : Item} (h : untag? i = some j) (hi : Fits room i) :
    Fits room j := by
  fun_induction untag? i with
  | case1 n content hfits hbig =>
    cases h
    exact hi
  | case2 n content hfits hbig ih =>
    cases hi with
    | tag _ hcontent => exact ih h hcontent
  | case3 => cases h
  | case4 =>
    cases h
    exact hi

theorem isValid_append {a b : Bytes} (ha : Utf8.isValid a) (hb : Utf8.isValid b) :
    Utf8.isValid (a ++ b) := by
  obtain ⟨cs, rfl⟩ := Utf8.exists_encodeAll_of_isValid ha
  obtain ⟨ds, rfl⟩ := Utf8.exists_encodeAll_of_isValid hb
  have hboth : Utf8.encodeAll cs ++ Utf8.encodeAll ds = Utf8.encodeAll (cs ++ ds) := by
    simp [Utf8.encodeAll]
  rw [hboth]
  exact Utf8.isValid_encodeAll _

theorem isValid_flatten {chunks : List Bytes} (h : ∀ chunk ∈ chunks, Utf8.isValid chunk) :
    Utf8.isValid chunks.flatten := by
  induction chunks with
  | nil => exact Utf8.isValid_encodeAll []
  | cons chunk chunks ih =>
    obtain ⟨hchunk, hchunks⟩ := List.forall_mem_cons.mp h
    exact isValid_append hchunk (ih hchunks)

/-- A text that is read is valid as a whole, also where it comes in chunks. -/
theorem readText?_valid {room : Nat} {i : Item} {b : Bytes} (hi : Fits room i)
    (h : readText? i = some b) : Utf8.isValid b ∧ b.length ≤ room := by
  unfold readText? at h
  obtain ⟨j, huntag, hread⟩ := Option.bind_eq_some_iff.mp h
  have hj := fits_untag? huntag hi
  split at hread
  · cases hread
    exact ⟨Utf8.isValid_encodeAll [], Nat.zero_le _⟩
  · cases hj with
    | text hroom =>
      simp only [validText?] at hread
      split at hread
      · next hall =>
        cases hread
        exact ⟨isValid_flatten (List.all_eq_true.mp hall), hroom⟩
      · cases hread
    | _ => cases hread

theorem length_of_mapM {α β : Type} {f : α → Option β} {xs : List α} {ys : List β}
    (h : xs.mapM f = some ys) : ys.length = xs.length := by
  induction xs generalizing ys with
  | nil =>
    cases h
    rfl
  | cons x xs ih =>
    rw [List.mapM_cons] at h
    obtain ⟨y, -, hrest⟩ := Option.bind_eq_some_iff.mp h
    obtain ⟨zs, hzs, hys⟩ := Option.bind_eq_some_iff.mp hrest
    cases hys
    simp [ih hzs]

theorem readWords?_length {room : Nat} {i : Item} {words : Program} (hi : Fits room i)
    (h : readWords? i = some words) : words.length ≤ Cbor.maxCount := by
  unfold readWords? at h
  obtain ⟨j, huntag, hread⟩ := Option.bind_eq_some_iff.mp h
  have hj := fits_untag? huntag hi
  split at hread
  · cases hread
    exact Nat.zero_le _
  · cases hj with
    | array hcount _ =>
      have hlength := length_of_mapM hread
      omega
    | _ => cases hread

/-! ## Images that can be written again -/

/-- The image can be written so that it is read again. -/
structure Writable (room : Nat) (img : Image) : Prop where
  words : img.words.length ≤ Cbor.maxCount
  source : Utf8.isValid img.source
  length : img.source.length ≤ room

theorem writable_blank (room : Nat) : Writable room blank :=
  ⟨Nat.zero_le _, Utf8.isValid_encodeAll [], Nat.zero_le _⟩

/-- Reading a field keeps an image that can be written. -/
theorem Writable.withField? {room : Nat} {img img' : Image} {f : Field} {i : Item}
    (h : Writable room img) (hi : Fits room i) (hread : img.withField? f i = some img') :
    Writable room img' := by
  cases f with
  | magic =>
    obtain ⟨b, -, rfl⟩ := Option.map_eq_some_iff.mp hread
    exact ⟨h.words, h.source, h.length⟩
  | version =>
    obtain ⟨n, -, rfl⟩ := Option.map_eq_some_iff.mp hread
    exact ⟨h.words, h.source, h.length⟩
  | words =>
    obtain ⟨words, hwords, rfl⟩ := Option.map_eq_some_iff.mp hread
    exact ⟨readWords?_length hi hwords, h.source, h.length⟩
  | source =>
    obtain ⟨b, hb, rfl⟩ := Option.map_eq_some_iff.mp hread
    obtain ⟨hvalid, hlength⟩ := readText?_valid hi hb
    exact ⟨h.words, hvalid, hlength⟩

/-- Whatever keys there are and in whatever order, entries keep it. -/
theorem Writable.readEntries? {room : Nat} {seen : List Field} {img img' : Image}
    {entries : List (Item × Item)} (h : Writable room img) (hvalues : ∀ e ∈ entries, Fits room e.2)
    (hread : readEntries? seen img entries = some img') : Writable room img' := by
  fun_induction Image.readEntries? seen img entries with
  | case1 =>
    cases hread
    exact h
  | case2 => cases hread
  | case3 seen img k v rest hkey ih => exact ih h (List.forall_mem_cons.mp hvalues).2 hread
  | case4 seen img k v rest f hkey next hfield ih =>
    obtain ⟨hv, hrest⟩ := List.forall_mem_cons.mp hvalues
    exact ih (h.withField? hv hfield) hrest hread
  | case5 => cases hread

theorem writable_of_ofItem? {room : Nat} {i : Item} {img : Image} (hi : Fits room i)
    (h : ofItem? i = some img) : Writable room img := by
  unfold ofItem? at h
  obtain ⟨j, huntag, hread⟩ := Option.bind_eq_some_iff.mp h
  have hj := fits_untag? huntag hi
  split at hread
  · cases hread
    exact writable_blank room
  · cases hj with
    | map _ hvalues => exact (writable_blank room).readEntries? hvalues hread
    | _ => cases hread

theorem exists_item_of_decode {d : Bytes} {img : Image} (h : decode d = .ok img) :
    ∃ i, Cbor.parse? d = some i ∧ ofItem? i = some img ∧ img.magic = expectedMagic ∧
      img.version = expectedVersion := by
  unfold decode at h
  split at h
  · cases h
  · next read hread =>
    split at h
    · cases h
    · next hmagic =>
      split at h
      · cases h
      · next hversion =>
        cases h
        obtain ⟨i, hparse, hitem⟩ := Option.bind_eq_some_iff.mp hread
        exact ⟨i, hparse, hitem, not_not.mp hmagic, not_not.mp hversion⟩

/-- Every image that is accepted, however it is written, can be written again: the canonical image
of its words and source holds the same, and writing what is read from that gives the same bytes once
more. -/
theorem an_accepted_image_holds_the_same_when_written_again (d : Bytes) (img : Image)
    (hd : d.length < 2 ^ 64) (h : decode d = .ok img) :
    decode (encode img.words img.source) = .ok img ∧
      ∀ again, decode (encode img.words img.source) = .ok again →
        encode again.words again.source = encode img.words img.source := by
  obtain ⟨i, hparse, hitem, hmagic, hversion⟩ := exists_item_of_decode h
  have hwritable := writable_of_ofItem? (Cbor.spells_of_parse? hparse).2 hitem
  have hwords : img.words.length < 2 ^ 64 := by
    have := hwritable.words
    unfold Cbor.maxCount at this
    omega
  have hsource : img.source.length < 2 ^ 64 := Nat.lt_of_le_of_lt hwritable.length hd
  have hagain : decode (encode img.words img.source) = .ok img := by
    rw [decode_encode hwords hsource, if_pos ⟨hwritable.source, hwritable.words⟩, ← hmagic,
      ← hversion]
  refine ⟨hagain, ?_⟩
  intro again h
  rw [hagain] at h
  cases h
  rfl

/-- A map and a text of indefinite length, a tag, a key in capitals, one that is a number and one
that comes twice; a number in too many bytes, a big number, null and a simple value. -/
def unusual : Bytes :=
  [0xBF, 0x65, 77, 65, 71, 73, 67, 0xD9, 0xD9, 0xF7, 0x7F, 0x62, 84, 86, 0x62, 77, 73, 0xFF, 0x00,
    0xF6, 0x65, 119, 111, 114, 100, 115, 0x9F, 0x18, 5, 0xC2, 0x41, 7, 0xF6, 0xF8, 32, 0x38, 0,
    0xFF, 0x67, 118, 101, 114, 115, 105, 111, 110, 0x01, 0x65, 119, 111, 114, 100, 115, 0x80, 0xFF]

theorem an_unusual_image_holds_the_same_when_written_again :
    let img : Image := ⟨"TVMI", 1, [5, 7, 0, 32, -1], []⟩
    unusual.length < 2 ^ 64 ∧ decode unusual = .ok img ∧ encode img.words img.source ≠ unusual ∧
      decode (encode img.words img.source) = .ok img := by
  intro img
  have hlength : unusual.length < 2 ^ 64 := by decide
  have hread : decode unusual = .ok img := by decide +kernel
  have hagain := an_accepted_image_holds_the_same_when_written_again unusual img hlength hread
  exact ⟨hlength, hread, by decide +kernel, hagain.1⟩

end TagMachine.Image
