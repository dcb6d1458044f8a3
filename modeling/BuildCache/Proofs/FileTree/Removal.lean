import BuildCache.Proofs.FileTree.Change

/-!
# Removing what a file tree holds

A removal adds nothing. A directory that was emptied has nothing below it.
-/

namespace BuildCache.FileTree

open BuildCache.Path

/-- Contents and directories may be gone, and nothing came. -/
structure Shrinks (t t' : FileTree) : Prop where
  contentAt : ∀ k, t'.contentAt k = t.contentAt k ∨ t'.contentAt k = none
  isDirectoryAt : ∀ k, t'.isDirectoryAt k = true → t.isDirectoryAt k = true

theorem Shrinks.refl (t : FileTree) : Shrinks t t := ⟨fun _ => .inl rfl, fun _ => id⟩

theorem Shrinks.trans {t t' t'' : FileTree} (h : Shrinks t t') (h' : Shrinks t' t'') :
    Shrinks t t'' where
  contentAt k := by
    rcases h'.contentAt k with hk | hk
    · rw [hk]
      exact h.contentAt k
    · exact .inr hk
  isDirectoryAt k hk := h.isDirectoryAt k (h'.isDirectoryAt k hk)

theorem Shrinks.contentAt_eq_none {t t' : FileTree} (h : Shrinks t t') {k : Location}
    (hk : t.contentAt k = none) : t'.contentAt k = none := by
  rcases h.contentAt k with hc | hc
  · exact hc.trans hk
  · exact hc

theorem Shrinks.entry?_eq_none {t t' : FileTree} (h : Shrinks t t') {k : Location}
    (hk : t.entry? k = none) : t'.entry? k = none := by
  rw [entry?_eq_none_iff] at hk ⊢
  refine ⟨?_, h.contentAt_eq_none hk.2⟩
  rw [← Bool.not_eq_true]
  intro hdir
  rw [h.isDirectoryAt k hdir] at hk
  simp at hk

theorem Puts.shrinks {t t' : FileTree} {l : Location} (h : Puts t t' l none) : Shrinks t t' where
  contentAt k := by
    rw [h.contentAt]
    split
    · exact .inr rfl
    · exact .inl rfl
  isDirectoryAt k hk := (h.isDirectoryAt k).symm.trans hk

theorem location_of_target {t : FileTree} {p : Path} {n : Name} {l : Location}
    (h : t.target p = .ok (some n, l)) : n :: l = p.location := by
  obtain ⟨-, -, hplain, front, hsegments, hwalk⟩ := walk_of_target h
  rw [Path.location, hsegments, follow_append, ← eq_follow_of_walk hwalk]
  simp [follow, hplain.ne_dot, hplain.ne_dotDot]

private theorem not_isSuffixOf_tail (n : Name) (l : Location) : (n :: l).isSuffixOf l = false := by
  rw [Bool.eq_false_iff, Ne, List.isSuffixOf_iff_suffix]
  intro h
  have hlength := h.length_le
  rw [List.length_cons] at hlength
  omega

private theorem dropEntry_spec {t : FileTree} {l : Location} (hl : t.isDirectoryAt l = true)
    (n : Name) (k : Location) :
    (t.dropEntry n l).contentAt k =
        (if (n :: l).isSuffixOf k then none else t.contentAt k) ∧
      (t.dropEntry n l).isDirectoryAt k = (!(n :: l).isSuffixOf k && t.isDirectoryAt k) := by
  have hl' : (t.prune (n :: l)).isDirectoryAt l = true := by
    rw [isDirectoryAt_prune, not_isSuffixOf_tail, hl]
    rfl
  have hstamp := alike_stampDirectory hl'
  rw [dropEntry, hstamp.contentAt, hstamp.isDirectoryAt, contentAt_prune, isDirectoryAt_prune]
  exact ⟨rfl, rfl⟩

private theorem shrinks_dropEntry {t : FileTree} {l : Location} (hl : t.isDirectoryAt l = true)
    (n : Name) : Shrinks t (t.dropEntry n l) where
  contentAt k := by
    rw [(dropEntry_spec hl n k).1]
    split
    · exact .inr rfl
    · exact .inl rfl
  isDirectoryAt k hk := by
    rw [(dropEntry_spec hl n k).2, Bool.and_eq_true] at hk
    exact hk.2

private theorem isDirectoryAt_dropEntry {t : FileTree} {l : Location}
    (hl : t.isDirectoryAt l = true) (n : Name) : (t.dropEntry n l).isDirectoryAt l = true := by
  rw [(dropEntry_spec hl n l).2, not_isSuffixOf_tail, hl]
  rfl

private theorem foldl_dropEntry {l : Location} (names : List Name) {t : FileTree}
    (hl : t.isDirectoryAt l = true) :
    Shrinks t (names.foldl (fun t n => t.dropEntry n l) t) ∧
      ∀ n ∈ names, ∀ k, n :: l <:+ k →
        entry? (names.foldl (fun t n => t.dropEntry n l) t) k = none := by
  induction names generalizing t with
  | nil => exact ⟨.refl t, by simp⟩
  | cons m names ih =>
    obtain ⟨hshrinks, hnone⟩ := ih (isDirectoryAt_dropEntry hl m)
    refine ⟨(shrinks_dropEntry hl m).trans hshrinks, fun n hn k hk => ?_⟩
    rcases List.mem_cons.mp hn with rfl | hn
    · refine hshrinks.entry?_eq_none (entry?_eq_none_iff.mpr ?_)
      have hk := List.isSuffixOf_iff_suffix.mpr hk
      rw [(dropEntry_spec hl n k).1, (dropEntry_spec hl n k).2, hk]
      exact ⟨rfl, rfl⟩
    · exact hnone n hn k hk

theorem shrinks_emptyDirectory {t : FileTree} {l : Location} (hl : t.isDirectoryAt l = true) :
    Shrinks t (t.emptyDirectory l) :=
  (foldl_dropEntry (t.childrenAt l) hl).1

theorem isDirectoryAt_emptyDirectory_self {t : FileTree} {l : Location}
    (hl : t.isDirectoryAt l = true) : (t.emptyDirectory l).isDirectoryAt l = true := by
  rw [emptyDirectory]
  generalize t.childrenAt l = names
  induction names generalizing t with
  | nil => exact hl
  | cons n names ih => exact ih (isDirectoryAt_dropEntry hl n)

theorem isDirectoryAt_emptyDirectory {t : FileTree} {l k : Location}
    (hl : t.isDirectoryAt l = true) (hk : ¬l <:+ k) (h : t.isDirectoryAt k = true) :
    (t.emptyDirectory l).isDirectoryAt k = true := by
  rw [emptyDirectory]
  generalize t.childrenAt l = names
  induction names generalizing t with
  | nil => exact h
  | cons n names ih =>
    have hn : (n :: l).isSuffixOf k = false := by
      rw [Bool.eq_false_iff, Ne, List.isSuffixOf_iff_suffix]
      exact fun hsuffix => hk ((List.suffix_cons n l).trans hsuffix)
    refine ih (isDirectoryAt_dropEntry hl n) ?_
    rw [(dropEntry_spec hl n k).2, hn, h]
    rfl

theorem mem_keys_of_isSome {t : FileTree} {n : Name} {l : Location}
    (h : (t.entry? (n :: l)).isSome = true) : n :: l ∈ t.entries.keys := by
  obtain ⟨k, hk, hcmp⟩ := OrderedMap.contains_iff.mp (show t.entries.contains (n :: l) = true from h)
  rwa [← Std.LawfulEqCmp.compare_eq_iff_eq.mp hcmp] at hk

theorem mem_childrenAt {t : FileTree} {n : Name} {l : Location}
    (h : (t.entry? (n :: l)).isSome = true) : n ∈ t.childrenAt l :=
  List.mem_filterMap.mpr ⟨n :: l, mem_keys_of_isSome h, by simp⟩

theorem entry?_isSome_of_mem_childrenAt {t : FileTree} {n : Name} {l : Location}
    (h : n ∈ t.childrenAt l) : (t.entry? (n :: l)).isSome = true := by
  obtain ⟨k, hk, hn⟩ := List.mem_filterMap.mp h
  cases k with
  | nil => simp at hn
  | cons m k =>
    simp only [Option.ite_none_right_eq_some, Option.some.injEq] at hn
    obtain ⟨rfl, rfl⟩ := hn
    exact OrderedMap.contains_of_mem_keys hk

private theorem entry?_isSome_of_suffix {t : FileTree} {l k : Location} (hk : l <:+ k)
    (h : (t.entry? k).isSome = true) : (t.entry? l).isSome = true := by
  obtain ⟨names, rfl⟩ := hk
  by_cases hnames : names = []
  · simpa [hnames] using h
  · exact entry?_isSome_of_isDirectoryAt (isDirectoryAt_of_below names hnames h)

theorem entry?_emptyDirectory {t : FileTree} {l k : Location} {n : Name}
    (hl : t.isDirectoryAt l = true) (hk : n :: l <:+ k) :
    entry? (t.emptyDirectory l) k = none := by
  obtain ⟨hshrinks, hnone⟩ := foldl_dropEntry (t.childrenAt l) hl
  by_cases hn : n ∈ t.childrenAt l
  · exact hnone n hn k hk
  · refine hshrinks.entry?_eq_none ?_
    rw [← Option.not_isSome_iff_eq_none]
    exact fun hsome => hn (mem_childrenAt (entry?_isSome_of_suffix hk hsome))

theorem eq_of_removeDirectory {t t' : FileTree} {p : Path} (h : t.removeDirectory p = .ok t') :
    ∃ n l, t.target p = .ok (some n, l) ∧ t' = t.dropEntry n l := by
  rw [removeDirectory] at h
  cases ht : t.target p with
  | error e => simp [ht, bind, Except.bind] at h
  | ok x =>
    obtain ⟨n?, l⟩ := x
    cases n? with
    | none => simp [ht, bind, Except.bind] at h
    | some n =>
      simp only [ht, bind, Except.bind] at h
      split at h
      · contradiction
      · contradiction
      · split at h
        · cases h
          exact ⟨n, l, rfl, rfl⟩
        · contradiction

private theorem shrinks_removeDirectory {t t' : FileTree} {p : Path}
    (h : t.removeDirectory p = .ok t') : Shrinks t t' := by
  obtain ⟨n, l, htarget, rfl⟩ := eq_of_removeDirectory h
  exact shrinks_dropEntry (isDirectoryAt_of_target htarget) n

theorem removeTree_ok {t t' : FileTree} {p : Path} (h : t.removeTree p = (.ok (), t')) :
    Shrinks t t' ∧ ∀ n k, n :: p.location <:+ k → t'.entry? k = none := by
  rw [removeTree] at h
  split at h
  · simp at h
  · next l hlocate =>
    obtain rfl := location_of_locate hlocate
    split at h
    · simp at h
    · next hdir =>
      have hdir : t.isDirectoryAt p.location = true := by simpa using hdir
      have hshrinks := shrinks_emptyDirectory hdir
      have hbelow (n : Name) (k : Location) (hk : n :: p.location <:+ k) :=
        entry?_emptyDirectory hdir hk
      simp only at h
      split at h
      · next hremove =>
        cases h
        have hremoved := shrinks_removeDirectory hremove
        exact ⟨hshrinks.trans hremoved, fun n k hk => hremoved.entry?_eq_none (hbelow n k hk)⟩
      · cases h
        exact ⟨hshrinks, hbelow⟩
      · simp at h

/-- Removing a tree takes only away, and where it changes anything nothing is left below. -/
theorem shrinks_removeTree (t : FileTree) (p : Path) :
    Shrinks t (t.removeTree p).2 ∧
      ((t.removeTree p).2 = t ∨
        ∀ n, FileTree.entry? (t.removeTree p).2 (n :: p.location) = none) := by
  rw [removeTree]
  split
  · exact ⟨.refl t, .inl rfl⟩
  · next l hlocate =>
    obtain rfl := location_of_locate hlocate
    split
    · exact ⟨.refl t, .inl rfl⟩
    · next hdir =>
      have hdir : t.isDirectoryAt p.location = true := by simpa using hdir
      have hshrinks := shrinks_emptyDirectory hdir
      have hbelow (n : Name) :
          FileTree.entry? (t.emptyDirectory p.location) (n :: p.location) = none :=
        entry?_emptyDirectory hdir (List.suffix_refl _)
      simp only
      split
      · next hremove =>
        have hremoved := shrinks_removeDirectory hremove
        exact ⟨hshrinks.trans hremoved, .inr fun n => hremoved.entry?_eq_none (hbelow n)⟩
      · exact ⟨hshrinks, .inr hbelow⟩
      · exact ⟨hshrinks, .inr hbelow⟩

theorem removeTree_of_not_directory {t : FileTree} {p : Path}
    (h : t.isDirectoryAt p.location = false) : (t.removeTree p).2 = t := by
  rw [removeTree]
  split
  · rfl
  · next hlocate => rw [location_of_locate hlocate, h]; rfl

theorem isDirectoryAt_removeTree {t : FileTree} {p : Path} {k : Location} (hk : ¬p.location <:+ k)
    (h : t.isDirectoryAt k = true) : (t.removeTree p).2.isDirectoryAt k = true := by
  rw [removeTree]
  split
  · exact h
  · next l hlocate =>
    obtain rfl := location_of_locate hlocate
    split
    · exact h
    · next hdir =>
      have hdir : t.isDirectoryAt p.location = true := by simpa using hdir
      have hemptied := isDirectoryAt_emptyDirectory hdir hk h
      simp only
      split
      · next hremove =>
        obtain ⟨n, l, htarget, rfl⟩ := eq_of_removeDirectory hremove
        rw [(dropEntry_spec (isDirectoryAt_of_target htarget) n k).2, location_of_target htarget,
          hemptied, Bool.and_true, Bool.not_eq_true', Bool.eq_false_iff, Ne,
          List.isSuffixOf_iff_suffix]
        exact hk
      · exact hemptied
      · exact hemptied

theorem removeTree_notFound {t t' : FileTree} {p : Path}
    (h : t.removeTree p = (.error .notFound, t')) : t' = t ∧ t.locate p = .error .notFound := by
  rw [removeTree] at h
  split at h
  · next hlocate =>
    simp only [Prod.mk.injEq, Except.error.injEq] at h
    obtain ⟨rfl, rfl⟩ := h
    exact ⟨rfl, hlocate⟩
  · split at h
    · simp at h
    · simp only at h
      split at h
      · simp at h
      · simp at h
      · next hne _ =>
        simp only [Prod.mk.injEq, Except.error.injEq] at h
        exact (hne h.1).elim

end BuildCache.FileTree
