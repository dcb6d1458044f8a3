import BuildCache.Proofs.FileTree.Lookup
import BuildCache.Proofs.OrderedMap
import BuildCache.Store.Replace

/-!
# Changes of a file tree

Each change is known by the contents and the directories it leaves; times play no part in lookups.
A file that is replaced has the new content or the old one, and nothing else of the tree is lost.
-/

namespace BuildCache.FileTree

open BuildCache.Path

/-- Both trees have the same directories and the same contents. -/
structure Alike (t t' : FileTree) : Prop where
  contentAt : ∀ k, t'.contentAt k = t.contentAt k
  isDirectoryAt : ∀ k, t'.isDirectoryAt k = t.isDirectoryAt k

/-- One location has a content, or none, and all else is as it was. -/
structure Puts (t t' : FileTree) (l : Location) (content : Option Bytes) : Prop where
  contentAt : ∀ k, t'.contentAt k = if k = l then content else t.contentAt k
  isDirectoryAt : ∀ k, t'.isDirectoryAt k = t.isDirectoryAt k

/-- Directories with plain names were added, and nothing else changed. -/
structure AddsDirectories (t t' : FileTree) : Prop where
  contentAt : ∀ k, t'.contentAt k = t.contentAt k
  isDirectoryAt : ∀ k, t.isDirectoryAt k = true → t'.isDirectoryAt k = true
  plain : ∀ n k, t'.isDirectoryAt (n :: k) = true → t.isDirectoryAt (n :: k) = true ∨ Plain n

theorem Alike.addsDirectories {t t' : FileTree} (h : Alike t t') : AddsDirectories t t' :=
  ⟨h.contentAt, fun k hk => (h.isDirectoryAt k).trans hk,
    fun n k hk => .inl ((h.isDirectoryAt (n :: k)).symm.trans hk)⟩

theorem AddsDirectories.refl (t : FileTree) : AddsDirectories t t :=
  ⟨fun _ => rfl, fun _ => id, fun _ _ => .inl⟩

theorem AddsDirectories.trans {t t' t'' : FileTree} (h : AddsDirectories t t')
    (h' : AddsDirectories t' t'') : AddsDirectories t t'' where
  contentAt k := (h'.contentAt k).trans (h.contentAt k)
  isDirectoryAt k hk := h'.isDirectoryAt k (h.isDirectoryAt k hk)
  plain n k hk := by
    rcases h'.plain n k hk with hk | hn
    · exact h.plain n k hk
    · exact .inr hn

theorem entry?_place_other {t : FileTree} {l k : Location} {e : Entry} (h : k ≠ l) :
    entry? (t.place l e) k = t.entry? k := by
  cases l with
  | nil =>
    cases k with
    | nil => contradiction
    | cons n k => rfl
  | cons n l =>
    rw [place]
    split
    · cases k with
      | nil => rfl
      | cons m k =>
        have hne : compare (m :: k) (n :: l) ≠ .eq := by simpa using h
        rw [entry?_cons, entry?_cons, OrderedMap.get?_insert, if_neg hne]
    · rfl

theorem entry?_place_self {t : FileTree} {n : Name} {l : Location} {e : Entry}
    (hl : t.isDirectoryAt l = true)
    (he : e.isDirectory = true ∨ t.isDirectoryAt (n :: l) = false) :
    entry? (t.place (n :: l) e) (n :: l) = some e := by
  have hcond : hasDirectory t.entries l = true ∧
      (e.isDirectory = true ∨ hasDirectory t.entries (n :: l) = false) := ⟨hl, he⟩
  rw [place, dif_pos hcond]
  simp [entry?_cons, OrderedMap.get?_insert]

theorem puts_place_file {t : FileTree} {n : Name} {l : Location} {c : Bytes} (modified : Int)
    (hl : t.isDirectoryAt l = true) (hn : t.isDirectoryAt (n :: l) = false) :
    Puts t (t.place (n :: l) (.file c modified)) (n :: l) (some c) := by
  have hself := entry?_place_self (e := .file c modified) hl (.inr hn)
  constructor
  · intro k
    by_cases hk : k = n :: l
    · simp [contentAt, hk, hself, Entry.content?]
    · simp [contentAt, hk, entry?_place_other hk]
  · intro k
    by_cases hk : k = n :: l
    · rw [hk, isDirectoryAt_eq, hself, hn]
      rfl
    · rw [isDirectoryAt_eq, isDirectoryAt_eq, entry?_place_other hk]

theorem alike_stampDirectory {t : FileTree} {l : Location} (hl : t.isDirectoryAt l = true) :
    Alike t (t.stampDirectory l) := by
  have hself : entry? (t.stampDirectory l) l = some (.directory t.now) := by
    cases l with
    | nil => rfl
    | cons n l =>
      exact entry?_place_self (isDirectoryAt_of_cons (entry?_isSome_of_isDirectoryAt hl)) (.inl rfl)
  have hnone := contentAt_eq_none_of_isDirectoryAt hl
  constructor
  · intro k
    by_cases hk : k = l
    · rw [hk, hnone, contentAt, hself]
      rfl
    · rw [contentAt, stampDirectory, entry?_place_other hk, contentAt]
  · intro k
    by_cases hk : k = l
    · rw [hk, hl, isDirectoryAt_eq, hself]
      rfl
    · rw [isDirectoryAt_eq, stampDirectory, entry?_place_other hk, isDirectoryAt_eq]

theorem Puts.stampDirectory {t t' : FileTree} {l m : Location} {c : Option Bytes}
    (h : Puts t t' l c) (hm : t.isDirectoryAt m = true) : Puts t (t'.stampDirectory m) l c := by
  have hstamp := alike_stampDirectory ((h.isDirectoryAt m).trans hm)
  exact ⟨fun k => (hstamp.contentAt k).trans (h.contentAt k),
    fun k => (hstamp.isDirectoryAt k).trans (h.isDirectoryAt k)⟩

theorem entry?_prune (t : FileTree) (n : Name) (l k : Location) :
    entry? (t.prune (n :: l)) k = if (n :: l).isSuffixOf k then none else t.entry? k := by
  cases k with
  | nil => simp [entry?_nil, prune]
  | cons m k =>
    simp only [entry?_cons, prune, OrderedMap.get?_filter]
    cases hk : (n :: l).isSuffixOf (m :: k) <;> cases t.entries.get? (m :: k) <;>
      simp [Option.filter]

theorem contentAt_prune (t : FileTree) (n : Name) (l k : Location) :
    (t.prune (n :: l)).contentAt k = if (n :: l).isSuffixOf k then none else t.contentAt k := by
  rw [contentAt, entry?_prune, contentAt]
  split <;> rfl

theorem isDirectoryAt_prune (t : FileTree) (n : Name) (l k : Location) :
    (t.prune (n :: l)).isDirectoryAt k = (!(n :: l).isSuffixOf k && t.isDirectoryAt k) := by
  rw [isDirectoryAt_eq, entry?_prune, isDirectoryAt_eq]
  cases (n :: l).isSuffixOf k <;> simp

theorem puts_prune {t : FileTree} {n : Name} {l : Location}
    (h : t.isDirectoryAt (n :: l) = false) : Puts t (t.prune (n :: l)) (n :: l) none := by
  constructor
  · intro k
    rw [contentAt_prune]
    by_cases hk : k = n :: l
    · simp [hk]
    · rw [if_neg hk]
      split
      · next hs =>
        rw [contentAt, entry?_eq_none_below h (List.isSuffixOf_iff_suffix.mp hs) hk]
        rfl
      · rfl
  · intro k
    rw [isDirectoryAt_prune]
    by_cases hk : k = n :: l
    · simp [hk, h]
    · cases hs : (n :: l).isSuffixOf k with
      | false => rfl
      | true =>
        rw [isDirectoryAt_eq, entry?_eq_none_below h (List.isSuffixOf_iff_suffix.mp hs) hk]
        rfl

theorem target_mono {t t' : FileTree} (hdir : ∀ k, t.isDirectoryAt k = true → t'.isDirectoryAt k = true)
    {p : Path} {x : Option Name × Location} (h : t.target p = .ok x) : t'.target p = .ok x := by
  simp only [target, bind, Except.bind] at h ⊢
  cases hspell : checkSpelling p with
  | error e => simp [hspell] at h
  | ok u =>
    simp only [hspell] at h ⊢
    cases hwalk : t.walk [] p.segments.dropLast with
    | error e => simp [hwalk] at h
    | ok l =>
      simp only [hwalk] at h
      by_cases hl : t.isDirectoryAt l = true
      · simp only [walk_mono hdir hwalk hl, hdir l hl]
        simpa only [hl] using h
      · simp [hl] at h

theorem isDirectoryAt_of_target {t : FileTree} {p : Path} {n : Option Name} {l : Location}
    (h : t.target p = .ok (n, l)) : t.isDirectoryAt l = true := by
  simp only [target, bind, Except.bind] at h
  split at h
  · contradiction
  · split at h
    · contradiction
    · split at h
      · contradiction
      · next hl =>
        split at h
        · simp_all
        · split at h
          · simp_all
          · split at h
            · contradiction
            · simp_all

theorem walk_of_target {t : FileTree} {p : Path} {n : Name} {l : Location}
    (h : t.target p = .ok (some n, l)) :
    checkSpelling p = .ok () ∧ n.length ≤ maxNameLength ∧ Plain n ∧
      ∃ front, p.segments = front ++ [n] ∧ t.walk [] front = .ok l := by
  simp only [target, bind, Except.bind] at h
  cases hspelling : checkSpelling p with
  | error e => simp [hspelling] at h
  | ok u =>
    simp only [hspelling] at h
    split at h
    · contradiction
    · next hwalk =>
      split at h
      · contradiction
      · split at h
        · simp at h
        · next s hlast =>
          split at h
          · simp at h
          · next hdots =>
            split at h
            · contradiction
            · next hlength =>
              cases h
              rw [not_or] at hdots
              obtain ⟨front, hfront⟩ := List.getLast?_eq_some_iff.mp hlast
              rw [hfront, List.dropLast_concat] at hwalk
              exact ⟨rfl, Nat.le_of_not_lt hlength,
                plain_of_mem_segments (List.mem_of_getLast? hlast) hdots.1 hdots.2, front, hfront,
                hwalk⟩

theorem plain_of_target {t : FileTree} {p : Path} {n : Name} {l : Location}
    (h : t.target p = .ok (some n, l)) : Plain n := (walk_of_target h).2.2.1

/-! A change that succeeds, with where it takes place. -/

theorem eq_of_createFile {t t' : FileTree} {p : Path} {c : Bytes} (h : t.createFile p c = .ok t') :
    ∃ n l, t.target p = .ok (some n, l) ∧ p.endsInSlash = false ∧ t.entry? (n :: l) = none ∧
      t' = t.addEntry n l (.file c t.now) := by
  rw [createFile] at h
  cases ht : t.target p with
  | error e => simp [ht, bind, Except.bind] at h
  | ok x =>
    obtain ⟨n?, l⟩ := x
    cases n? with
    | none => simp [ht, bind, Except.bind] at h
    | some n =>
      simp only [ht, bind, Except.bind] at h
      split at h
      · contradiction
      · next hslash =>
        split at h
        · contradiction
        · next hsome =>
          cases h
          exact ⟨n, l, rfl, by simpa using hslash, by simpa using hsome, rfl⟩

theorem eq_of_write {t t' : FileTree} {p : Path} {c : Bytes} (h : t.write p c = .ok t') :
    ∃ n l, t.target p = .ok (some n, l) ∧ t.isDirectoryAt (n :: l) = false ∧
      (t' = t.place (n :: l) (.file c t.now) ∨ t' = t.addEntry n l (.file c t.now)) := by
  rw [write] at h
  cases ht : t.target p with
  | error e => simp [ht, bind, Except.bind] at h
  | ok x =>
    obtain ⟨n?, l⟩ := x
    cases n? with
    | none => simp [ht, bind, Except.bind] at h
    | some n =>
      simp only [ht, bind, Except.bind] at h
      split at h
      · contradiction
      · next hslash =>
        rw [Bool.or_eq_true, not_or, Bool.not_eq_true, Bool.not_eq_true] at hslash
        split at h
        · cases h
          exact ⟨n, l, rfl, hslash.2, .inl rfl⟩
        · cases h
          exact ⟨n, l, rfl, hslash.2, .inr rfl⟩

theorem eq_of_createDirectory {t t' : FileTree} {p : Path} (h : t.createDirectory p = .ok t') :
    ∃ n l, t.target p = .ok (some n, l) ∧ t.entry? (n :: l) = none ∧
      t' = t.addEntry n l (.directory t.now) := by
  rw [createDirectory] at h
  cases ht : t.target p with
  | error e => simp [ht, bind, Except.bind] at h
  | ok x =>
    obtain ⟨n?, l⟩ := x
    cases n? with
    | none => simp [ht, bind, Except.bind] at h
    | some n =>
      simp only [ht, bind, Except.bind] at h
      split at h
      · contradiction
      · next hsome =>
        cases h
        exact ⟨n, l, rfl, by simpa using hsome, rfl⟩

theorem eq_of_removeFile {t t' : FileTree} {p : Path} (h : t.removeFile p = .ok t') :
    ∃ n l c, t.target p = .ok (some n, l) ∧ t.contentAt (n :: l) = some c ∧
      t' = t.dropEntry n l := by
  rw [removeFile] at h
  cases ht : t.target p with
  | error e => simp [ht, bind, Except.bind] at h
  | ok x =>
    obtain ⟨n?, l⟩ := x
    cases n? with
    | none => simp [ht, bind, Except.bind] at h
    | some n =>
      simp only [ht, bind, Except.bind] at h
      split at h
      · contradiction
      · contradiction
      · next c _ he =>
        split at h
        · contradiction
        · cases h
          exact ⟨n, l, c, rfl, by simp [contentAt, he, Entry.content?], rfl⟩

theorem puts_of_createFile {t t' : FileTree} {p : Path} {c : Bytes}
    (h : t.createFile p c = .ok t') :
    ∃ n l, t.target p = .ok (some n, l) ∧ p.endsInSlash = false ∧ t.entry? (n :: l) = none ∧
      Puts t t' (n :: l) (some c) := by
  obtain ⟨n, l, htarget, hslash, hnone, rfl⟩ := eq_of_createFile h
  have hl := isDirectoryAt_of_target htarget
  exact ⟨n, l, htarget, hslash, hnone,
    (puts_place_file t.now hl (entry?_eq_none_iff.mp hnone).1).stampDirectory hl⟩

theorem puts_of_write {t t' : FileTree} {p : Path} {c : Bytes} (h : t.write p c = .ok t') :
    ∃ n l, t.target p = .ok (some n, l) ∧ Puts t t' (n :: l) (some c) := by
  obtain ⟨n, l, htarget, hn, ht'⟩ := eq_of_write h
  have hl := isDirectoryAt_of_target htarget
  have hput := puts_place_file (c := c) t.now hl hn
  rcases ht' with rfl | rfl
  · exact ⟨n, l, htarget, hput⟩
  · exact ⟨n, l, htarget, hput.stampDirectory hl⟩

theorem addsDirectories_of_createDirectory {t t' : FileTree} {p : Path}
    (h : t.createDirectory p = .ok t') : AddsDirectories t t' := by
  obtain ⟨n, l, htarget, hnone, rfl⟩ := eq_of_createDirectory h
  have hl := isDirectoryAt_of_target htarget
  have hself := entry?_place_self (n := n) (e := .directory t.now) hl (.inl rfl)
  have hplace : AddsDirectories t (t.place (n :: l) (.directory t.now)) := by
    constructor
    · intro k
      by_cases hk : k = n :: l
      · rw [hk, contentAt, hself, (entry?_eq_none_iff.mp hnone).2]
        rfl
      · rw [contentAt, entry?_place_other hk, contentAt]
    · intro k hk
      have hne : k ≠ n :: l := by
        rintro rfl
        rw [(entry?_eq_none_iff.mp hnone).1] at hk
        contradiction
      rw [isDirectoryAt_eq, entry?_place_other hne, ← isDirectoryAt_eq, hk]
    · intro m k hk
      by_cases hne : m :: k = n :: l
      · exact .inr ((List.cons.inj hne).1 ▸ plain_of_target htarget)
      · rw [isDirectoryAt_eq, entry?_place_other hne, ← isDirectoryAt_eq] at hk
        exact .inl hk
  exact hplace.trans (alike_stampDirectory (hplace.isDirectoryAt l hl)).addsDirectories

theorem isDirectoryAt_of_createDirectory {t t' : FileTree} {p : Path} {n : Name} {l : Location}
    (h : t.createDirectory p = .ok t') (htarget : t.target p = .ok (some n, l)) :
    t'.isDirectoryAt (n :: l) = true := by
  obtain ⟨n', l', htarget', -, rfl⟩ := eq_of_createDirectory h
  obtain ⟨rfl, rfl⟩ : n = n' ∧ l = l' := by simpa [htarget] using htarget'
  have hl := isDirectoryAt_of_target htarget
  have hself := entry?_place_self (n := n) (e := .directory t.now) hl (.inl rfl)
  have hplaced : (t.place (n :: l) (.directory t.now)).isDirectoryAt l = true := by
    rw [isDirectoryAt_eq, entry?_place_other fun heq => by simpa using congrArg List.length heq,
      ← isDirectoryAt_eq, hl]
  rw [addEntry, (alike_stampDirectory hplaced).isDirectoryAt, isDirectoryAt_eq, hself]
  rfl

theorem puts_of_removeFile {t t' : FileTree} {p : Path} (h : t.removeFile p = .ok t') :
    ∃ n l c, t.target p = .ok (some n, l) ∧ t.contentAt (n :: l) = some c ∧
      Puts t t' (n :: l) none := by
  obtain ⟨n, l, c, htarget, hc, rfl⟩ := eq_of_removeFile h
  exact ⟨n, l, c, htarget, hc,
    (puts_prune (isDirectoryAt_eq_false_of_contentAt hc)).stampDirectory
      (isDirectoryAt_of_target htarget)⟩

end BuildCache.FileTree
