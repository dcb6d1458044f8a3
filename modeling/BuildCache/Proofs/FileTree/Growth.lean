import BuildCache.Proofs.FileTree.Replace

/-!
# Trees that grow

Where whatever was there is still there, as a file or as a directory, nothing comes to be missing.
-/

namespace BuildCache.FileTree

open BuildCache.Path

/-- Directories and files stay what they are. -/
structure Grows (t t' : FileTree) : Prop where
  isDirectoryAt : ∀ k, t.isDirectoryAt k = true → t'.isDirectoryAt k = true
  contentAt : ∀ k, (t.contentAt k).isSome = true → (t'.contentAt k).isSome = true

variable {t t' t'' : FileTree} {l : Location} {p : Path}

theorem Grows.refl (t : FileTree) : Grows t t := ⟨fun _ => id, fun _ => id⟩

theorem Grows.trans (h : Grows t t') (h' : Grows t' t'') : Grows t t'' :=
  ⟨fun k hk => h'.isDirectoryAt k (h.isDirectoryAt k hk),
    fun k hk => h'.contentAt k (h.contentAt k hk)⟩

theorem AddsDirectories.grows (h : AddsDirectories t t') : Grows t t' :=
  ⟨h.isDirectoryAt, fun k hk => h.contentAt k ▸ hk⟩

theorem Puts.grows {c : Bytes} (h : Puts t t' l (some c)) : Grows t t' := by
  refine ⟨fun k hk => (h.isDirectoryAt k).trans hk, fun k hk => ?_⟩
  rw [h.contentAt]
  split
  · rfl
  · exact hk

theorem grows_of_prepare {r : Except StoreError Unit} (h : t.prepare p = (r, t')) : Grows t t' :=
  (addsDirectories_prepare h).grows

theorem grows_of_write {c : Bytes} (h : t.write p c = .ok t') : Grows t t' := by
  obtain ⟨n, l, -, hputs⟩ := puts_of_write h
  exact hputs.grows

theorem grows_of_replace {c : Bytes} {r : Except StoreError Unit} (h : t.replace p c = (r, t')) :
    Grows t t' := by
  cases r with
  | ok u =>
    obtain ⟨t₁, n, l, hadds, -, hputs⟩ := replace_ok h
    exact hadds.grows.trans hputs.grows
  | error e => exact (replace_error h).grows

/-- Every directory of the first tree is one of the second, and every file is there with its
content. -/
structure PartOf (t t' : FileTree) : Prop where
  isDirectoryAt : ∀ k, t.isDirectoryAt k = true → t'.isDirectoryAt k = true
  contentAt : ∀ k c, t.contentAt k = some c → t'.contentAt k = some c

theorem PartOf.grows (h : PartOf t t') : Grows t t' := by
  refine ⟨h.isDirectoryAt, fun k hk => ?_⟩
  obtain ⟨c, hc⟩ := Option.isSome_iff_exists.mp hk
  rw [h.contentAt k c hc]
  rfl

theorem partOf_place {e : Entry} (hl : t.entry? l = none) : PartOf t (t.place l e) := by
  have hplace {k : Location} (hk : (t.entry? k).isSome = true) :
      entry? (t.place l e) k = t.entry? k := by
    refine entry?_place_other ?_
    rintro rfl
    simp [hl] at hk
  refine ⟨fun k hk => ?_, fun k c hc => ?_⟩
  · have hsome := entry?_isSome_iff.mpr (.inl hk)
    rw [isDirectoryAt_eq] at hk ⊢
    rwa [hplace hsome]
  · have hsome : (t.entry? k).isSome = true := entry?_isSome_iff.mpr (.inr (by rw [hc]; rfl))
    rw [FileTree.contentAt] at hc ⊢
    rwa [hplace hsome]

theorem Grows.isSome (h : Grows t t') (hl : (t.entry? l).isSome = true) :
    (t'.entry? l).isSome = true :=
  entry?_isSome_iff.mpr ((entry?_isSome_iff.mp hl).imp (h.isDirectoryAt l) (h.contentAt l))

theorem Grows.isDirectoryAt_eq (h : Grows t t') (hl : (t.entry? l).isSome = true) :
    t'.isDirectoryAt l = t.isDirectoryAt l := by
  rcases entry?_isSome_iff.mp hl with hdir | hfile
  · rw [hdir, h.isDirectoryAt l hdir]
  · obtain ⟨c, hc⟩ := Option.isSome_iff_exists.mp hfile
    obtain ⟨c', hc'⟩ := Option.isSome_iff_exists.mp (h.contentAt l hfile)
    rw [isDirectoryAt_eq_false_of_contentAt hc, isDirectoryAt_eq_false_of_contentAt hc']

theorem isSome_tail (hl : (t.entry? l).isSome = true) : (t.entry? l.tail).isSome = true := by
  cases l with
  | nil => exact hl
  | cons n l => exact entry?_isSome_of_isDirectoryAt (isDirectoryAt_of_cons hl)

/-- A walk that does not miss anything takes the same course. -/
theorem Grows.walk (h : Grows t t') {names : List Name} (hl : (t.entry? l).isSome = true)
    (hfound : t.walk l names ≠ .error .notFound) :
    t'.walk l names = t.walk l names ∧ ∀ m, t.walk l names = .ok m → (t.entry? m).isSome = true := by
  induction names generalizing l with
  | nil =>
    refine ⟨rfl, fun m hm => ?_⟩
    rw [FileTree.walk, Except.ok.injEq] at hm
    exact hm ▸ hl
  | cons n names ih =>
    rw [FileTree.walk] at hfound
    rw [FileTree.walk, FileTree.walk, h.isDirectoryAt_eq hl]
    cases hdir : t.isDirectoryAt l with
    | false => simp
    | true =>
      simp only [hdir, Bool.not_true, Bool.false_eq_true, if_false] at hfound ⊢
      by_cases hdot : n = dot
      · simp only [hdot, if_true] at hfound ⊢
        exact ih hl hfound
      · by_cases hdots : n = dotDot
        · simp only [if_neg hdot, if_pos hdots] at hfound ⊢
          exact ih (isSome_tail hl) hfound
        · simp only [hdot, hdots, if_false] at hfound ⊢
          by_cases hlength : maxNameLength < n.length
          · simp [hlength]
          · simp only [hlength, if_false] at hfound ⊢
            cases hn : t.entry? (n :: l) with
            | none => simp [hn] at hfound
            | some e =>
              have hsome : (t.entry? (n :: l)).isSome = true := by rw [hn]; rfl
              have hnone : (t'.entry? (n :: l)).isNone = false := by
                have hsome' := h.isSome hsome
                cases he : t'.entry? (n :: l) <;> simp_all
              simp only [hn, hnone, Option.isNone_some, Bool.false_eq_true, if_false] at hfound ⊢
              exact ih hsome hfound

theorem Grows.locate (h : Grows t t') (hfound : t.locate p ≠ .error .notFound) :
    t'.locate p = t.locate p ∧ ∀ l, t.locate p = .ok l → (t.entry? l).isSome = true := by
  simp only [FileTree.locate, bind, Except.bind] at hfound ⊢
  cases hspelling : checkSpelling p with
  | error e => simp
  | ok u =>
    simp only [hspelling] at hfound ⊢
    have hmet : t.walk [] p.segments ≠ .error .notFound := fun heq => hfound (by rw [heq])
    obtain ⟨hwalk, hends⟩ := h.walk (l := []) rfl hmet
    rw [hwalk]
    cases hl : t.walk [] p.segments with
    | error e => simp
    | ok l =>
      have hsome := hends l hl
      simp only [h.isDirectoryAt_eq hsome]
      by_cases hslash : (p.endsInSlash && !t.isDirectoryAt l) = true
      · simp [hslash]
      · rw [if_neg hslash]
        exact ⟨trivial, fun m hm => Except.ok.inj hm ▸ hsome⟩

theorem Grows.exists? (h : Grows t t') (hp : t.exists? p ≠ .ok false) :
    t'.exists? p = t.exists? p := by
  have hfound : t.locate p ≠ .error .notFound := fun heq =>
    hp (by rw [FileTree.exists?, stat, heq]; rfl)
  obtain ⟨hlocate, hends⟩ := h.locate hfound
  rw [FileTree.exists?, FileTree.exists?, stat, stat, hlocate]
  cases hl : t.locate p with
  | error e => rfl
  | ok l =>
    have hsome := hends l hl
    have hsome' := h.isSome hsome
    simp only [bind, Except.bind]
    cases he : t.entry? l <;> cases he' : t'.entry? l <;> simp_all

theorem PartOf.entry {e : Entry} (h : PartOf t t') (he : t.entry? l = some e) :
    ∃ modified, t'.entry? l = some (e.withModified modified) := by
  cases e with
  | file c modified =>
    have hc : t.contentAt l = some c := by
      rw [FileTree.contentAt, he]
      rfl
    exact exists_file_of_contentAt (h.contentAt l c hc)
  | directory modified =>
    have hdir : t.isDirectoryAt l = true := by
      rw [isDirectoryAt_eq, he]
      rfl
    exact exists_directory (h.isDirectoryAt l hdir)

theorem PartOf.stat {e : Entry} (h : PartOf t t') (hp : t.stat p = .ok e) :
    ∃ modified, t'.stat p = .ok (e.withModified modified) := by
  rw [FileTree.stat] at hp ⊢
  cases hl : t.locate p with
  | error err => simp [hl, bind, Except.bind] at hp
  | ok l =>
    have hlocate : t'.locate p = .ok l := by
      rw [(h.grows.locate (by simp [hl])).1, hl]
    simp only [hl, bind, Except.bind] at hp
    cases he : t.entry? l with
    | none => simp [he] at hp
    | some e' =>
      obtain rfl : e' = e := by simpa [he] using hp
      obtain ⟨modified, he'⟩ := h.entry he
      exact ⟨modified, by simp [hlocate, he', bind, Except.bind]⟩

theorem PartOf.isFile (h : PartOf t t') (hp : t.isFile p = true) : t'.isFile p = true := by
  rw [FileTree.isFile] at hp ⊢
  split at hp
  · next e he =>
    obtain ⟨modified, he'⟩ := h.stat he
    rw [he']
    cases e <;> exact hp
  · contradiction

theorem PartOf.isDirectory (h : PartOf t t') (hp : t.isDirectory p = true) :
    t'.isDirectory p = true := by
  rw [FileTree.isDirectory] at hp ⊢
  split at hp
  · next e he =>
    obtain ⟨modified, he'⟩ := h.stat he
    rw [he']
    cases e <;> exact hp
  · contradiction

theorem PartOf.readText? {text : String} (h : PartOf t t') (hp : t.readText? p = some text) :
    t'.readText? p = some text := by
  rw [FileTree.readText?, FileTree.read] at hp ⊢
  cases he : t.stat p with
  | error err => simp [he, bind, Except.bind] at hp
  | ok e =>
    obtain ⟨modified, he'⟩ := h.stat he
    rw [he] at hp
    rw [he']
    cases e <;> exact hp

end BuildCache.FileTree
