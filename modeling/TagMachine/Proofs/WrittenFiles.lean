import TagMachine.FileTree

/-!
What is written to a file is read from it. Writing puts a file where none or another one stood, so
every directory stays one and the path leads to the same place as before.
-/

namespace TagMachine.FileTree

/-! ## Names -/

theorem lookup_filter_ne {name p : Bytes} (h : p ≠ name) (t : FileTree) :
    List.lookup p (t.filter (·.1 != name)) = List.lookup p t := by
  induction t with
  | nil => rfl
  | cons e t ih =>
    by_cases he : e.1 = name
    · have hp : (p == e.1) = false := by simpa [he] using h
      rw [List.filter_cons_of_neg (by simpa using he), ih, List.lookup_cons, hp]
    · rw [List.filter_cons_of_pos (by simpa using he), List.lookup_cons, List.lookup_cons, ih]

theorem lookup_put_self (t : FileTree) (name : Bytes) (n : FileNode) :
    List.lookup name (t.put name n) = some n := by
  rw [put, List.lookup_cons, beq_self_eq_true]

theorem lookup_put_of_ne {name p : Bytes} (h : p ≠ name) (t : FileTree) (n : FileNode) :
    List.lookup p (t.put name n) = List.lookup p t := by
  have hp : (p == name) = false := by simpa using h
  rw [put, List.lookup_cons, hp]
  exact lookup_filter_ne h t

/-! ## Directories -/

/-- A directory stands at the parts of a path. -/
def IsDirectory (t : FileTree) (parts : List Bytes) : Prop :=
  ∃ s, t.node? parts = some (.directory s)

theorem isDirectory_nil (t : FileTree) : t.IsDirectory [] := by
  refine ⟨t, ?_⟩
  unfold node?
  rfl

theorem node?_singleton (t : FileTree) (p : Bytes) : t.node? [p] = List.lookup p t := by
  unfold node?
  cases List.lookup p t <;> rfl

theorem node?_cons {t s : FileTree} {p : Bytes} (h : List.lookup p t = some (.directory s))
    (rest : List Bytes) : t.node? (p :: rest) = s.node? rest := by
  cases rest with
  | nil =>
    rw [node?_singleton, h]
    unfold node?
    rfl
  | cons q rest =>
    rw [node?.eq_def]
    simp only [h]

theorem isDirectory_cons_iff {t : FileTree} {p : Bytes} {rest : List Bytes} :
    t.IsDirectory (p :: rest) ↔
      ∃ s : FileTree, List.lookup p t = some (.directory s) ∧ s.IsDirectory rest := by
  constructor
  · rintro ⟨d, hd⟩
    cases hlookup : List.lookup p t with
    | none => simp [node?, hlookup] at hd
    | some n =>
      cases n with
      | file data => cases rest <;> simp [node?, hlookup] at hd
      | directory s =>
        rw [node?_cons hlookup] at hd
        exact ⟨s, rfl, d, hd⟩
  · rintro ⟨s, hlookup, d, hd⟩
    exact ⟨d, (node?_cons hlookup rest).trans hd⟩

/-! ## Insertion -/

theorem insert_cons (t : FileTree) (n : FileNode) (p q : Bytes) (rest : List Bytes) :
    t.insert n (p :: q :: rest) =
      t.put p (.directory (insert (match List.lookup p t with
        | some (.directory s) => s
        | _ => []) n (q :: rest))) := by
  rfl

/-- What was inserted stands in its place. -/
theorem node?_insert (t : FileTree) (n : FileNode) {parts : List Bytes} (h : parts ≠ []) :
    (t.insert n parts).node? parts = some n := by
  induction parts generalizing t with
  | nil => exact absurd rfl h
  | cons p rest ih =>
    cases rest with
    | nil => rw [insert, node?_singleton, lookup_put_self]
    | cons q rest =>
      rw [insert_cons, node?_cons (lookup_put_self t p _)]
      exact ih _ (by simp)

/-- Inserting something where no directory stands leaves all directories. -/
theorem isDirectory_insert {t : FileTree} {n : FileNode} {parts others : List Bytes}
    (hnot : ¬ t.IsDirectory parts) (h : t.IsDirectory others) :
    (t.insert n parts).IsDirectory others := by
  induction parts generalizing t others with
  | nil => exact absurd t.isDirectory_nil hnot
  | cons p rest ih =>
    cases others with
    | nil => exact isDirectory_nil _
    | cons q others =>
      obtain ⟨s, hlookup, hs⟩ := isDirectory_cons_iff.mp h
      by_cases hq : q = p
      · -- the directory on the way to the new place takes the rest of the way
        subst hq
        cases rest with
        | nil => exact absurd (isDirectory_cons_iff.mpr ⟨s, hlookup, s.isDirectory_nil⟩) hnot
        | cons r rest =>
          have hinner : ¬ s.IsDirectory (r :: rest) := by
            intro hdir
            exact hnot (isDirectory_cons_iff.mpr ⟨s, hlookup, hdir⟩)
          rw [insert_cons, hlookup]
          exact isDirectory_cons_iff.mpr ⟨_, lookup_put_self .., ih hinner hs⟩
      · have hkeep : ∀ m, List.lookup q (t.put p m) = some (.directory s) := by
          intro m
          rw [lookup_put_of_ne hq, hlookup]
        cases rest with
        | nil => exact isDirectory_cons_iff.mpr ⟨s, hkeep n, hs⟩
        | cons r rest =>
          rw [insert_cons]
          exact isDirectory_cons_iff.mpr ⟨s, hkeep _, hs⟩

/-! ## Paths -/

/-- A path leads where it led before, if no directory was lost. -/
theorem follow_of_isDirectory {t u : FileTree}
    (h : ∀ parts, t.IsDirectory parts → u.IsDirectory parts) {place : Place} {parts : List Bytes}
    {goal : Place} (hfollow : t.follow place parts = .ok goal) :
    u.follow place parts = .ok goal := by
  fun_induction follow t place parts with
  | case1 place => rwa [follow]
  | case2 p rest hp ih =>
    rw [follow, if_pos hp]
    exact ih hfollow
  | case3 => cases hfollow
  | case4 here rest ih =>
    unfold follow
    rw [if_pos rfl]
    exact ih hfollow
  | case5 here rest hdot ih =>
    unfold follow
    rw [if_neg hdot, if_pos rfl]
    exact ih hfollow
  | case6 => cases hfollow
  | case7 here p hdot hdots hlong s rest hnode ih =>
    obtain ⟨d, hd⟩ := h _ ⟨s, hnode⟩
    unfold follow
    rw [if_neg hdot, if_neg hdots, if_neg hlong, hd]
    exact ih hfollow
  | case8 here p hdot hdots hlong hnode =>
    -- the last part may be anything
    unfold follow
    rw [if_neg hdot, if_neg hdots, if_neg hlong, ← hfollow]
    cases u.node? (here ++ [p]) with
    | none => rfl
    | some n => cases n <;> rfl
  | case9 => cases hfollow
  | case10 => cases hfollow

theorem resolve_of_isDirectory {t u : FileTree}
    (h : ∀ parts, t.IsDirectory parts → u.IsDirectory parts) {path : Bytes} {goal : Place}
    (hresolve : t.resolve path = .ok goal) : u.resolve path = .ok goal := by
  unfold resolve at hresolve ⊢
  cases hentry : entry path with
  | error e =>
    rw [hentry] at hresolve
    cases hresolve
  | ok start =>
    rw [hentry] at hresolve
    exact follow_of_isDirectory h hresolve

/-! ## Reading and writing -/

/-- A file is written at a place inside the tree where no directory stands. -/
theorem write_ok_iff {t u : FileTree} {path data : Bytes} :
    t.write path data = .ok u ↔
      ∃ parts, Path.endsInSlash path = false ∧ t.resolve path = .ok (.inside parts) ∧
        ¬ t.IsDirectory parts ∧ u = t.insert (.file data) parts := by
  unfold write
  cases hslash : Path.endsInSlash path with
  | true =>
    rw [if_pos rfl]
    cases t.resolveParent path <;> simp
  | false =>
    rw [if_neg Bool.false_ne_true]
    cases t.resolve path with
    | error e => simp
    | ok place =>
      cases place with
      | above => simp
      | inside parts =>
        dsimp only
        split
        · next s hs => simp [IsDirectory, hs]
        · next hnode =>
          have hnot : ¬ t.IsDirectory parts := by
            rintro ⟨s, hs⟩
            exact hnode s hs
          simp [hnot, eq_comm]

/-- What was written is read. -/
theorem read_of_write {t u : FileTree} {path data : Bytes} (h : t.write path data = .ok u) :
    u.read path = .ok data := by
  obtain ⟨parts, hslash, hresolve, hnot, rfl⟩ := write_ok_iff.mp h
  have hne : parts ≠ [] := by
    rintro rfl
    exact hnot t.isDirectory_nil
  -- the path is followed anew, in the tree with the file
  have hplace :=
    resolve_of_isDirectory (fun _ => isDirectory_insert (n := .file data) hnot) hresolve
  unfold read find
  rw [hplace]
  simp only [nodeAt?, node?_insert t (.file data) hne, hslash, Bool.false_eq_true, if_false]

/-- Something can be written to the path. -/
def Writable (t : FileTree) (path : Bytes) : Prop := ∃ data u, t.write path data = .ok u

/-- Where something can be written, everything can. -/
theorem Writable.write {t : FileTree} {path : Bytes} (h : t.Writable path) (data : Bytes) :
    ∃ u, t.write path data = .ok u := by
  obtain ⟨old, u, hu⟩ := h
  obtain ⟨parts, hslash, hresolve, hnot, -⟩ := write_ok_iff.mp hu
  exact ⟨_, write_ok_iff.mpr ⟨parts, hslash, hresolve, hnot, rfl⟩⟩

end TagMachine.FileTree
