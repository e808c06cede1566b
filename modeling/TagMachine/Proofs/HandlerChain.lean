import TagMachine.Proofs.InstructionParts

/-!
The chain of handler records. A record links to one below it, so the search moves down the stack
and ends at a record that takes the division, at the end of the chain, or at a slot that is no part
of a record.
-/

namespace TagMachine.Machine

variable {m n : Machine}

/-! ## What the search reads -/

theorem intAt_congr (h : n.slots = m.slots) (i : Int) : n.intAt i = m.intAt i := by
  unfold intAt slot? capacity
  rw [h]

theorem previous_congr (h : n.slots = m.slots) (r : Nat) : n.previous r = m.previous r := by
  unfold previous
  rw [intAt_congr h]

theorem searchFrom_congr (h : n.slots = m.slots) (r : Nat) : n.searchFrom r = m.searchFrom r := by
  induction r using Nat.strongRecOn with
  | ind r ih =>
    have hresume : n.resumeAt r = m.resumeAt r := by
      unfold resumeAt
      rw [intAt_congr h, previous_congr h]
    unfold searchFrom
    rw [intAt_congr h, previous_congr h, hresume]
    cases m.intAt r with
    | error why => rfl
    | ok tag =>
      dsimp only
      cases m.previous r with
      | error why => rfl
      | ok before =>
        cases before with
        | none => rfl
        | some b =>
          -- a link leads below its record, which is where the induction is
          dsimp only
          rw [ih b b.isLt]

/-- The search looks at the slots and the handler register only. -/
theorem search_congr (h : n.slots = m.slots) (hr : n.hr = m.hr) : n.search = m.search := by
  unfold search
  rw [hr]
  cases m.hr with
  | none => rfl
  | some r => exact searchFrom_congr h r

/-! ## Where the search ends -/

/-- The record at `h` has a link that can be followed, and it leads to `before`. -/
def LinksTo (m : Machine) (h : Nat) (before : Option Nat) : Prop :=
  before = none ∧ m.intAt (h + 2) = .ok noHandler ∨
    ∃ b, before = some b ∧ b < h ∧ m.intAt (h + 2) = .ok b

theorem LinksTo.lt {h b : Nat} (hl : m.LinksTo h (some b)) : b < h := by
  rcases hl with ⟨hnone, -⟩ | ⟨c, hc, hlt, -⟩
  · cases hnone
  · cases hc
    exact hlt

theorem previous_ok {h : Nat} {before : Option (Fin h)} (hp : m.previous h = .ok before) :
    m.LinksTo h (before.map Fin.val) := by
  unfold previous at hp
  split at hp
  · cases hp
  · next p hint =>
    split at hp
    · next hend =>
      cases hp
      exact Or.inl ⟨rfl, by rw [hint, hend]⟩
    · split at hp
      · next hlow =>
        cases hp
        refine Or.inr ⟨p.toNat, rfl, hlow.2, ?_⟩
        rw [hint, Int.toNat_of_nonneg hlow.1]
      · cases hp

theorem previous_of_linksTo {h : Nat} {before : Option Nat} (hlink : m.LinksTo h before) :
    ∃ b, m.previous h = .ok b ∧ b.map Fin.val = before := by
  unfold previous
  rcases hlink with ⟨rfl, hend⟩ | ⟨b, rfl, hlt, hb⟩
  · exact ⟨none, by simp [hend], rfl⟩
  · have hne : (b : Int) ≠ noHandler := by
      unfold noHandler
      omega
    exact ⟨some ⟨b, hlt⟩, by simp [hb, hne, hlt], rfl⟩

/-- A link that cannot be followed is no int, or it leads nowhere below its record. -/
theorem previous_error {h : Nat} {why : Trap} (hp : m.previous h = .error why) :
    (∃ fault, m.intAt (h + 2) = .error fault ∧ why = .handlerRecord h fault) ∨
      ∃ p, why = .handlerLink h p := by
  unfold previous at hp
  split at hp
  · next fault hint =>
    cases hp
    exact Or.inl ⟨fault, hint, rfl⟩
  · split at hp
    · cases hp
    · split at hp
      · cases hp
      · cases hp
        exact Or.inr ⟨_, rfl⟩

/-- The record that takes a division is a record of the chain, and the link in it is the one that
is followed. -/
theorem searchFrom_found {h r : Nat} {resume : Int} {before : Option Nat}
    (hs : m.searchFrom h = .found r resume before) :
    r ≤ h ∧ m.intAt r = .ok divisionTag ∧ m.intAt (r + 1) = .ok resume ∧ m.LinksTo r before := by
  induction h using Nat.strongRecOn with
  | ind h ih =>
    unfold searchFrom at hs
    split at hs
    · cases hs
    · next tag htag =>
      split at hs
      · next hdiv =>
        unfold resumeAt at hs
        split at hs
        · cases hs
        · next hresume =>
          split at hs
          · cases hs
          · next hlink =>
            cases hs
            exact ⟨Nat.le_refl _, by rw [htag, hdiv], hresume, previous_ok hlink⟩
      · -- another kind of record: the search goes on below it
        split at hs
        · cases hs
        · cases hs
        · next b hlink =>
          obtain ⟨hle, hrest⟩ := ih b b.isLt hs
          exact ⟨Nat.le_trans hle (Nat.le_of_lt b.isLt), hrest⟩

theorem search_found {r : Nat} {resume : Int} {before : Option Nat}
    (hs : m.search = .found r resume before) :
    ∃ h, m.hr = some h ∧ r ≤ h ∧ m.LinksTo r before := by
  unfold search at hs
  split at hs
  · next h hr =>
    obtain ⟨hle, -, -, hlink⟩ := searchFrom_found hs
    exact ⟨h, hr, hle, hlink⟩
  · cases hs

/-- The records that the search comes to: the newest one, and behind a record of another kind the
one that it links to. -/
inductive Walked (m : Machine) : Nat → Prop
  | newest {h : Nat} : m.hr = some h → Walked m h
  | next {h b : Nat} {tag : Int} : Walked m h → m.intAt h = .ok tag → tag ≠ divisionTag →
      m.LinksTo h (some b) → Walked m b

theorem Walked.congr {r : Nat} (hw : n.Walked r) (hslots : n.slots = m.slots) (hhr : n.hr = m.hr) :
    m.Walked r := by
  induction hw with
  | newest hr => exact .newest (hhr ▸ hr)
  | next _ htag hother hlink ih =>
    unfold LinksTo at hlink
    rw [intAt_congr hslots] at htag hlink
    exact .next ih htag hother hlink

/-- No record that the search comes to lies above the newest one. -/
theorem Walked.le_newest {r : Nat} (hw : m.Walked r) : ∃ h, m.hr = some h ∧ r ≤ h := by
  induction hw with
  | newest hr => exact ⟨_, hr, Nat.le_refl _⟩
  | next _ _ _ hlink ih =>
    obtain ⟨h, hr, hle⟩ := ih
    have hlt := hlink.lt
    exact ⟨h, hr, by omega⟩

theorem walked_of_searchFrom_corrupt {h r : Nat} {why : Trap} (hw : m.Walked h)
    (hs : m.searchFrom h = .corrupt r why) : m.Walked r := by
  induction h using Nat.strongRecOn with
  | ind h ih =>
    unfold searchFrom at hs
    split at hs
    · cases hs
      exact hw
    · next tag htag =>
      split at hs
      · unfold resumeAt at hs
        split at hs
        · cases hs
          exact hw
        · split at hs <;> cases hs
          exact hw
      · next hother =>
        split at hs
        · cases hs
          exact hw
        · cases hs
        · next b hlink => exact ih b b.isLt (.next hw htag hother (previous_ok hlink)) hs

/-- The search stops at a record that it came to. -/
theorem walked_of_corrupt {r : Nat} {why : Trap} (hs : m.search = .corrupt r why) : m.Walked r := by
  unfold search at hs
  split at hs
  · next h hr => exact walked_of_searchFrom_corrupt (.newest hr) hs
  · cases hs

theorem search_corrupt {r : Nat} {why : Trap} (hs : m.search = .corrupt r why) :
    ∃ h, m.hr = some h ∧ r ≤ h :=
  (walked_of_corrupt hs).le_newest

theorem resumeAt_of_linksTo {h : Nat} {resume : Int} {before : Option Nat}
    (hresume : m.intAt (h + 1) = .ok resume) (hlink : m.LinksTo h before) :
    m.resumeAt h = .found h resume before := by
  obtain ⟨b, hprevious, rfl⟩ := previous_of_linksTo hlink
  unfold resumeAt
  simp only [hresume, hprevious]

/-- A record with the tag of a division takes it. -/
theorem searchFrom_of_record {h : Nat} {resume : Int} {before : Option Nat}
    (htag : m.intAt h = .ok divisionTag) (hresume : m.intAt (h + 1) = .ok resume)
    (hlink : m.LinksTo h before) : m.searchFrom h = .found h resume before := by
  unfold searchFrom
  simp only [htag, if_true]
  exact resumeAt_of_linksTo hresume hlink

end TagMachine.Machine
