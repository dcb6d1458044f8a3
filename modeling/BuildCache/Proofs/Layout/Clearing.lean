import BuildCache.Proofs.FileTree.Removal
import BuildCache.Proofs.Layout.Writing

/-!
# Clearing a cache and collecting its garbage

A cleared cache has no file of the layout left. A collection takes only files of ids that are not
live.
-/

namespace BuildCache

open FileTree

theorem FileTree.Shrinks.housed {layout : Layout} {t t' : FileTree} (h : Shrinks t t')
    (hh : layout.Housed t) : layout.Housed t' := by
  intro n hn
  refine hh n ?_
  cases he : t.entry? (n :: layout.files.location) with
  | none => simp [h.entry?_eq_none he] at hn
  | some e => rfl

private theorem checkSpelling_ne_notFound {p : Path} {n : Name} {names : List Name}
    (h : p.segments = names ++ [n]) : checkSpelling p ≠ .error .notFound := by
  have hne : p.bytes ≠ [] := by
    intro hnil
    rw [Path.segments, hnil] at h
    simp [Path.splitSlash] at h
  simp only [checkSpelling, List.isEmpty_eq_false_iff.mpr hne]
  split
  · simp
  · split <;> simp

private theorem contentAt_of_removeFile_notFound {layout : Layout} {t : FileTree} {s : Slot}
    (hreach : s.Reaches layout t) (hdir : t.isDirectoryAt (s.dir layout).location = true)
    (h : t.removeFile (s.path layout) = .error .notFound) :
    t.contentAt (s.location layout) = none := by
  have hspelling := checkSpelling_ne_notFound (Slot.segments_path layout s)
  by_cases hfits : s.Fits layout
  · rw [removeFile, Slot.target_path hfits hreach hdir] at h
    simp only [bind, Except.bind] at h
    split at h
    · next hnone => exact (entry?_eq_none_iff.mp hnone).2
    · simp at h
    · simp [Slot.not_endsInSlash_path] at h
  · exfalso
    have hreach' : t.walk [] (s.dir layout).segments = .ok (s.dir layout).location := hreach
    cases hcheck : checkSpelling (s.path layout) with
    | error e =>
      simp only [removeFile, target, hcheck, bind, Except.bind, Except.error.injEq] at h
      exact hspelling (h ▸ hcheck)
    | ok u =>
      have hlength : maxNameLength < (Bytes.ofString s.name).length :=
        Nat.lt_of_not_le fun hle => hfits ⟨hcheck, hle⟩
      simp [removeFile, target, hcheck, bind, Except.bind, Slot.segments_path, hreach', hdir,
        s.plain_name.ne_dot, s.plain_name.ne_dotDot, hlength] at h

private theorem entry?_files_of_locate {layout : Layout} {t : FileTree} (hopen : layout.Open t)
    (h : t.locate layout.files = .error .notFound) : t.entry? layout.files.location = none := by
  have hspelling := checkSpelling_ne_notFound (Slot.segments_files layout)
  have hslash : layout.files.endsInSlash = false := Slot.plain_files.not_endsInSlash_join _
  have hlength : ¬maxNameLength < (Bytes.ofString "files").length := by decide
  rw [Slot.location_files]
  cases hentry : t.entry? (Bytes.ofString "files" :: layout.dir.location) with
  | none => rfl
  | some e =>
    cases hcheck : checkSpelling layout.files with
    | error e =>
      simp only [locate, hcheck, bind, Except.bind, Except.error.injEq] at h
      exact absurd (h ▸ hcheck) hspelling
    | ok u =>
      simp [locate, hcheck, bind, Except.bind, Slot.segments_files, walk_append, hopen.walk,
        FileTree.walk, hopen.isDirectoryAt, Slot.plain_files.ne_dot, Slot.plain_files.ne_dotDot,
        hlength, hentry, hslash] at h

private theorem clearFiles_cons {layout : Layout} {t t' : FileTree} {s : Slot} {rest : List Path}
    (hopen : layout.Open t) (hs : s.dir layout = layout.dir)
    (h : Layout.clearFiles t (s.path layout :: rest) = (.ok (), t')) :
    ∃ t₁, Layout.clearFiles t₁ rest = (.ok (), t') ∧ Shrinks t t₁ ∧ KeepsDirectories t t₁ ∧
      t₁.contentAt (s.location layout) = none := by
  rw [Layout.clearFiles] at h
  split at h
  · next t₁ hremove =>
    obtain ⟨n, l, c, htarget, -, hputs⟩ := puts_of_removeFile hremove
    obtain ⟨-, -, hl⟩ := Slot.eq_of_target htarget
    rw [hl] at hputs
    exact ⟨t₁, h, hputs.shrinks, hputs.keeps, by rw [hputs.contentAt, if_pos rfl]⟩
  · next hremove =>
    have hdir : t.isDirectoryAt (s.dir layout).location = true := hs ▸ hopen.isDirectoryAt
    exact ⟨t, h, .refl t, fun _ => id,
      contentAt_of_removeFile_notFound (Slot.reaches_of_open hopen hdir) hdir hremove⟩
  · simp at h

theorem Layout.shrinks_of_clearFiles {ps : List Path} {t t' : FileTree}
    {r : Except StoreError Unit} (h : Layout.clearFiles t ps = (r, t')) :
    Shrinks t t' ∧ KeepsDirectories t t' := by
  induction ps generalizing t with
  | nil =>
    cases h
    exact ⟨.refl _, fun _ => id⟩
  | cons p rest ih =>
    rw [clearFiles] at h
    split at h
    · next t₁ hremove =>
      obtain ⟨n, l, c, -, -, hputs⟩ := puts_of_removeFile hremove
      obtain ⟨hshrinks, hkeeps⟩ := ih h
      exact ⟨hputs.shrinks.trans hshrinks, hputs.keeps.trans hkeeps⟩
    · exact ih h
    · cases h
      exact ⟨.refl _, fun _ => id⟩

private theorem contentAt_of_clearFiles {layout : Layout} {t t' : FileTree} (hopen : layout.Open t)
    (h : Layout.clearFiles t [layout.marker, layout.ids, layout.dependents] = (.ok (), t'))
    (s : Slot) (hs : s.dir layout = layout.dir) : t'.contentAt (s.location layout) = none := by
  obtain ⟨t₁, hfiles, hshrinks₁, hkeeps₁, hmarker⟩ := clearFiles_cons (s := .marker) hopen rfl h
  have hopen₁ := hopen.mono hkeeps₁
  obtain ⟨t₂, hfiles, hshrinks₂, hkeeps₂, hids⟩ := clearFiles_cons (s := .ids) hopen₁ rfl hfiles
  have hopen₂ := hopen₁.mono hkeeps₂
  obtain ⟨t₃, hfiles, hshrinks₃, -, hdependents⟩ :=
    clearFiles_cons (s := .dependents) hopen₂ rfl hfiles
  obtain rfl : t₃ = t' := by simpa [Layout.clearFiles] using hfiles
  cases s with
  | marker => exact (hshrinks₂.trans hshrinks₃).contentAt_eq_none hmarker
  | ids => exact hshrinks₃.contentAt_eq_none hids
  | dependents => exact hdependents
  | entry id part =>
    have hlocation : layout.files.location = layout.dir.location := congrArg Path.location hs
    rw [Slot.location_files] at hlocation
    simpa using congrArg List.length hlocation

private theorem contentAt_of_emptied {layout : Layout} {t t' : FileTree}
    (htables : ∀ s : Slot, s.dir layout = layout.dir → t.contentAt (s.location layout) = none)
    (hshrinks : Shrinks t t') (hbelow : ∀ n, t'.entry? (n :: layout.files.location) = none)
    (s : Slot) : t'.contentAt (s.location layout) = none := by
  cases s with
  | entry id part => exact (entry?_eq_none_iff.mp (hbelow _)).2
  | _ => exact hshrinks.contentAt_eq_none (htables _ rfl)

/-- A cache that was cleared is empty. -/
theorem Layout.contentAt_of_clear {layout : Layout} {t t' : FileTree} (hopen : layout.Open t)
    (h : layout.clear t = (.ok (), t')) :
    (∀ s : Slot, t'.contentAt (s.location layout) = none) ∧
      ∀ n, t'.entry? (n :: layout.files.location) = none := by
  rw [clear] at h
  split at h
  · simp at h
  · next t₃ hfiles =>
    have htables := contentAt_of_clearFiles hopen hfiles
    have hopen₃ := hopen.mono (shrinks_of_clearFiles hfiles).2
    split at h
    · next htree =>
      cases h
      obtain ⟨hshrinks, hbelow⟩ := removeTree_ok htree
      have hbelow (n : Name) := hbelow n _ (List.suffix_refl _)
      exact ⟨contentAt_of_emptied htables hshrinks hbelow, hbelow⟩
    · next htree =>
      cases h
      obtain ⟨rfl, hlocate⟩ := removeTree_notFound htree
      have hnone := entry?_files_of_locate hopen₃ hlocate
      have hbelow (n : Name) : t'.entry? (n :: layout.files.location) = none := by
        rw [← Option.not_isSome_iff_eq_none]
        intro hsome
        have hdir := entry?_isSome_of_isDirectoryAt (isDirectoryAt_of_cons hsome)
        simp [hnone] at hdir
      exact ⟨contentAt_of_emptied htables (.refl _) hbelow, hbelow⟩
    · simp at h

/-- Clearing only takes files away, also where it fails, and leaves the cache directory settled. -/
theorem Layout.shrinks_of_clear {layout : Layout} {t t' : FileTree} (hopen : layout.Open t)
    {r : Except StoreError Unit} (h : layout.clear t = (r, t')) :
    Shrinks t t' ∧ layout.Settled t' := by
  rw [clear] at h
  split at h
  · next hfiles =>
    cases h
    obtain ⟨hshrinks, hkeeps⟩ := shrinks_of_clearFiles hfiles
    exact ⟨hshrinks, .inl (hopen.mono hkeeps)⟩
  · next t₃ hfiles =>
    have htables := contentAt_of_clearFiles hopen hfiles
    obtain ⟨hshrinks₃, hkeeps₃⟩ := shrinks_of_clearFiles hfiles
    have htree : Shrinks t₃ (t₃.removeTree layout.files).2 ∧
        ((t₃.removeTree layout.files).2 = t₃ ∨
          ∀ n, FileTree.entry? (t₃.removeTree layout.files).2 (n :: layout.files.location) = none) :=
      shrinks_removeTree t₃ layout.files
    obtain rfl : (t₃.removeTree layout.files).2 = t' := by
      split at h <;> next hremoved => rw [hremoved]; exact (Prod.mk.inj h).2
    refine ⟨hshrinks₃.trans htree.1, ?_⟩
    rcases htree.2 with hsame | hbelow
    · rw [hsame]
      exact .inl (hopen.mono hkeeps₃)
    · exact .inr (contentAt_of_emptied htables htree.1 hbelow)

theorem Slot.isLiveName_name (live : List CacheId) (id : CacheId) (part : Part) :
    ArtifactStore.isLiveName live (name (entry id part)) = live.contains id := by
  rw [ArtifactStore.isLiveName, takeWhile_name, String.ofList_toList, CacheId.ofString?_text]

/-- The files that a collection may take. -/
def Slot.IsGarbage (live : List CacheId) (s : Slot) : Prop :=
  ∃ id part, s = entry id part ∧ id ∉ live

private theorem changes_of_remove_garbage {layout : Layout} {live : List CacheId} {t t' : FileTree}
    {n : Name} {text : String} (hn : Path.Plain n) (htext : Bytes.text? n = some text)
    (hlive : ArtifactStore.isLiveName live text = false)
    (h : t.removeFile (layout.files.join ⟨n⟩) = .ok t') :
    layout.Changes (Slot.IsGarbage live) t t' ∧ Shrinks t t' := by
  obtain ⟨m, l, c, htarget, -, hputs⟩ := puts_of_removeFile h
  rw [location_of_target htarget, hn.location_join] at hputs
  refine ⟨⟨fun s hs => ?_, fun hs => ?_, hputs.shrinks.housed⟩, hputs.shrinks⟩
  · rw [hputs.contentAt, if_neg]
    intro hlocation
    apply hs
    cases s with
    | entry id part =>
      have hname : Bytes.ofString (Slot.entry id part).name = n := (List.cons.inj hlocation).1
      refine ⟨id, part, rfl, fun hid => ?_⟩
      rw [← hname, Bytes.text?_ofString, Option.some.injEq] at htext
      rw [← htext, Slot.isLiveName_name, ← Bool.not_eq_true, List.contains_iff_mem] at hlive
      exact hlive hid
    | _ =>
      have hdir : layout.dir.location = layout.files.location := (List.cons.inj hlocation).2
      rw [Slot.location_files] at hdir
      simpa using congrArg List.length hdir
  · exact hs.mono hputs.keeps fun s => hputs.shrinks.contentAt _

private theorem changes_collectNames {layout : Layout} {debug : Bool} {live : List CacheId}
    {names : List Name} (hplain : ∀ n ∈ names, Path.Plain n) {count : Nat} {t t' : FileTree}
    {r : Except StoreError Nat}
    (h : ArtifactStore.collectNames ⟨layout.files, debug⟩ live count t names = (r, t')) :
    layout.Changes (Slot.IsGarbage live) t t' ∧ Shrinks t t' := by
  induction names generalizing t count with
  | nil =>
    cases h
    exact ⟨.refl _ _ _, .refl _⟩
  | cons n names ih =>
    have hrest : ∀ m ∈ names, Path.Plain m := fun m hm => hplain m (List.mem_cons_of_mem n hm)
    rw [ArtifactStore.collectNames] at h
    simp only at h
    split at h
    · exact ih hrest h
    · next text htext =>
      split at h
      · exact ih hrest h
      · next hcond =>
        rw [Bool.or_eq_true, not_or, Bool.not_eq_true] at hcond
        split at h
        · next t₁ hremove =>
          obtain ⟨hchanges, hshrinks⟩ :=
            changes_of_remove_garbage (hplain n (by simp)) htext hcond.1 hremove
          obtain ⟨hchanges', hshrinks'⟩ := ih hrest h
          exact ⟨hchanges.trans hchanges', hshrinks.trans hshrinks'⟩
        · cases h
          exact ⟨.refl _ _ _, .refl _⟩

/-- A collection only takes, and nothing of a live id. -/
theorem Layout.changes_of_collect {layout : Layout} {debug : Bool} {live : List CacheId}
    {t t' : FileTree} {r : Except StoreError Nat} (hh : layout.Housed t)
    (h : ArtifactStore.collect ⟨layout.files, debug⟩ t live = (r, t')) :
    layout.Changes (Slot.IsGarbage live) t t' ∧ Shrinks t t' := by
  rw [ArtifactStore.collect] at h
  split at h
  · cases h
    exact ⟨.refl _ _ _, .refl _⟩
  · next l hlocate =>
    split at h
    · refine changes_collectNames (fun n hn => hh n ?_) h
      rw [← location_of_locate hlocate]
      exact entry?_isSome_of_mem_childrenAt hn
    · cases h
      exact ⟨.refl _ _ _, .refl _⟩

end BuildCache
