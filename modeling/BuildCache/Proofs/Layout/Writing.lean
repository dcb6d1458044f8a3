import BuildCache.Proofs.Layout.Reading
import BuildCache.Store.Basic

/-!
# Changing the files of a layout

What a write or a removal does to the files of a layout. The relation is kept small so that a longer
run is a chain of such changes.
-/

namespace BuildCache

open FileTree

namespace Layout

/-- Only names that a lookup can follow stand where records and artifacts are kept. -/
def Housed (layout : Layout) (t : FileTree) : Prop :=
  ∀ n, (t.entry? (n :: layout.files.location)).isSome = true → Path.Plain n

/-- Of the files of the layout only touched ones may differ. -/
structure Changes (layout : Layout) (touched : Slot → Prop) (t t' : FileTree) : Prop where
  contentAt : ∀ s, ¬touched s → t'.contentAt (s.location layout) = t.contentAt (s.location layout)
  settled : layout.Settled t → layout.Settled t'
  housed : layout.Housed t → layout.Housed t'

variable {layout : Layout} {touched touched' : Slot → Prop} {t t' t'' : FileTree}

theorem Changes.refl (layout : Layout) (touched : Slot → Prop) (t : FileTree) :
    layout.Changes touched t t :=
  ⟨fun _ _ => rfl, id, id⟩

theorem Changes.trans (h : layout.Changes touched t t') (h' : layout.Changes touched t' t'') :
    layout.Changes touched t t'' :=
  ⟨fun s hs => (h'.contentAt s hs).trans (h.contentAt s hs), h'.settled ∘ h.settled,
    h'.housed ∘ h.housed⟩

theorem Changes.mono (h : layout.Changes touched t t') (hsub : ∀ s, touched s → touched' s) :
    layout.Changes touched' t t' :=
  ⟨fun s hs => h.contentAt s (mt (hsub s) hs), h.settled, h.housed⟩

theorem Changes.readText? (h : layout.Changes touched t t') (ht : layout.Settled t) {s : Slot}
    (hs : ¬touched s) : t'.readText? (s.path layout) = t.readText? (s.path layout) :=
  Slot.readText?_path_congr ht (h.settled ht) (h.contentAt s hs)

theorem Settled.mono (h : layout.Settled t) (hdirs : KeepsDirectories t t')
    (hc : ∀ s : Slot, t'.contentAt (s.location layout) = t.contentAt (s.location layout) ∨
      t'.contentAt (s.location layout) = none) : layout.Settled t' := by
  rcases h with h | h
  · exact .inl (h.mono hdirs)
  · refine .inr fun s => ?_
    rcases hc s with hs | hs
    · exact hs.trans (h s)
    · exact hs

theorem Housed.mono (h : layout.Housed t)
    (hdirs : ∀ n k, t'.isDirectoryAt (n :: k) = true → t.isDirectoryAt (n :: k) = true ∨ Path.Plain n)
    (hc : ∀ n k, (t'.contentAt (n :: k)).isSome = true →
      (t.contentAt (n :: k)).isSome = true ∨ Path.Plain n) : layout.Housed t' := by
  intro n hn
  rcases entry?_isSome_iff.mp hn with hn | hn
  · rcases hdirs n _ hn with hn | hn
    · exact h n (entry?_isSome_iff.mpr (.inl hn))
    · exact hn
  · rcases hc n _ hn with hn | hn
    · exact h n (entry?_isSome_iff.mpr (.inr hn))
    · exact hn

theorem changes_of_addsDirectories (h : AddsDirectories t t') :
    layout.Changes touched t t' where
  contentAt _ _ := h.contentAt _
  settled hs := hs.mono h.isDirectoryAt fun _ => .inl (h.contentAt _)
  housed hh := hh.mono h.plain fun n k hc => .inl (h.contentAt (n :: k) ▸ hc)

end Layout

namespace Slot

variable {layout : Layout} {s s' : Slot} {t t' : FileTree}

theorem eq_of_target {n : Name} {l : Location}
    (h : t.target (s.path layout) = .ok (some n, l)) :
    s.Fits layout ∧ s.Reaches layout t ∧ n :: l = s.location layout := by
  obtain ⟨hspelling, hlength, -, front, hsegments, hwalk⟩ := walk_of_target h
  rw [segments_path] at hsegments
  obtain ⟨rfl, hname⟩ := List.append_inj' hsegments rfl
  obtain rfl : Bytes.ofString s.name = n := List.singleton_inj.mp hname
  obtain rfl : l = (s.dir layout).location := eq_follow_of_walk hwalk
  exact ⟨⟨hspelling, hlength⟩, hwalk, rfl⟩

theorem target_path (hfits : s.Fits layout) (hreach : s.Reaches layout t)
    (hdir : t.isDirectoryAt (s.dir layout).location = true) :
    t.target (s.path layout) = .ok (some (Bytes.ofString s.name), (s.dir layout).location) := by
  have hreach' : t.walk [] (s.dir layout).segments = .ok (s.dir layout).location := hreach
  simp [target, bind, Except.bind, segments_path, s.plain_name.ne_dot, s.plain_name.ne_dotDot,
    hfits.spelling, hreach', hdir, Nat.not_lt.mpr hfits.length]

theorem housed_of_puts {c : Option Bytes} (h : Puts t t' (s.location layout) c)
    (hh : layout.Housed t) : layout.Housed t' := by
  refine hh.mono (fun n k hk => .inl (h.isDirectoryAt (n :: k) ▸ hk)) fun n k hk => ?_
  rw [h.contentAt] at hk
  split at hk
  · next hl => exact .inr ((List.cons.inj hl).1 ▸ s.plain_name)
  · exact .inl hk

private theorem changes_of_puts {c : Option Bytes} (h : Puts t t' (s.location layout) c)
    (hopen : c.isSome = true → layout.Open t') : layout.Changes (· = s) t t' where
  contentAt s' hs' := by rw [h.contentAt, if_neg (mt location_injective hs')]
  settled hs := by
    cases c with
    | some c => exact .inl (hopen rfl)
    | none =>
      refine hs.mono h.keeps fun s' => ?_
      rw [h.contentAt]
      split
      · exact .inr rfl
      · exact .inl rfl
  housed := housed_of_puts h

private theorem open_of_puts {c : Bytes} (hreach : s.Reaches layout t)
    (h : Puts t t' (s.location layout) (some c)) : layout.Open t' := by
  have hc : t'.contentAt (s.location layout) = some c := by rw [h.contentAt, if_pos rfl]
  have hdir' := contentAt_isDirectoryAt hc
  have hdir : t.isDirectoryAt (s.dir layout).location = true := h.keeps_symm _ hdir'
  exact open_of_reaches (hreach.mono hdir h.keeps) hdir'

private theorem readText?_of_puts {x : String} (hfits : s.Fits layout) (hreach : s.Reaches layout t)
    (h : Puts t t' (s.location layout) (some (.ofString x))) :
    t'.readText? (s.path layout) = some x := by
  refine (readText?_path_of_open (open_of_puts hreach h)).mpr ⟨hfits, ?_⟩
  rw [h.contentAt, if_pos rfl, Option.bind_some, Bytes.text?_ofString]

theorem changes_of_replace_ok {x : String}
    (h : t.replace (s.path layout) (.ofString x) = (.ok (), t')) :
    layout.Changes (· = s) t t' ∧ t'.readText? (s.path layout) = some x := by
  obtain ⟨t₁, n, l, hadds, htarget, hputs⟩ := replace_ok h
  obtain ⟨hfits, hreach, hl⟩ := eq_of_target htarget
  rw [hl] at hputs
  have hchanges := changes_of_puts hputs fun _ => open_of_puts hreach hputs
  exact ⟨(Layout.changes_of_addsDirectories hadds).trans hchanges,
    readText?_of_puts hfits hreach hputs⟩

theorem changes_of_replace_error {touched : Slot → Prop} {p : Path} {c : Bytes} {e : StoreError}
    (h : t.replace p c = (.error e, t')) : layout.Changes touched t t' :=
  Layout.changes_of_addsDirectories (replace_error h)

theorem changes_of_write {x : String} (h : t.write (s.path layout) (.ofString x) = .ok t') :
    layout.Changes (· = s) t t' ∧ t'.readText? (s.path layout) = some x := by
  obtain ⟨n, l, htarget, hputs⟩ := puts_of_write h
  obtain ⟨hfits, hreach, hl⟩ := eq_of_target htarget
  rw [hl] at hputs
  exact ⟨changes_of_puts hputs fun _ => open_of_puts hreach hputs,
    readText?_of_puts hfits hreach hputs⟩

private theorem addsDirectories_prepareParent {p : Path} {r : Except StoreError Unit}
    (h : t.prepareParent p = (r, t')) : AddsDirectories t t' := by
  rw [prepareParent] at h
  split at h
  · exact addsDirectories_prepare h
  · cases h
    exact .refl t

theorem changes_of_writeJson_ok {α : Type} [JsonForm α] {a : α} {pretty : Bool}
    (h : t.writeJson pretty (s.path layout) a = (.ok (), t')) :
    layout.Changes (· = s) t t' ∧
      ∃ text, JsonForm.render? pretty a = some text ∧
        t'.readText? (s.path layout) = some text := by
  rw [writeJson] at h
  split at h
  · simp at h
  · next t₁ hprepare =>
    have hadds : layout.Changes (· = s) t t₁ :=
      Layout.changes_of_addsDirectories (addsDirectories_prepareParent hprepare)
    split at h
    · simp at h
    · next text hrender =>
      obtain ⟨hchanges, hread⟩ := changes_of_replace_ok h
      exact ⟨hadds.trans hchanges, text, hrender, hread⟩

theorem changes_of_writeJson_error {α : Type} [JsonForm α] {a : α} {pretty : Bool} {p : Path}
    {touched : Slot → Prop} {e : StoreError} (h : t.writeJson pretty p a = (.error e, t')) :
    layout.Changes touched t t' := by
  rw [writeJson] at h
  split at h
  · next hprepare =>
    cases h
    exact Layout.changes_of_addsDirectories (addsDirectories_prepareParent hprepare)
  · next t₁ hprepare =>
    have hadds : layout.Changes touched t t₁ :=
      Layout.changes_of_addsDirectories (addsDirectories_prepareParent hprepare)
    split at h
    · cases h
      exact hadds
    · exact hadds.trans (changes_of_replace_error h)

private theorem discard_cases (layout : Layout) (s : Slot) (t : FileTree) :
    Puts t (t.discard (s.path layout)) (s.location layout) none ∨
      t.discard (s.path layout) = t ∧ ∀ c, t.read (s.path layout) ≠ .ok c := by
  rw [FileTree.discard]
  cases hremove : t.removeFile (s.path layout) with
  | ok t' =>
    obtain ⟨n, l, c, htarget, -, hputs⟩ := puts_of_removeFile hremove
    obtain ⟨-, -, hl⟩ := eq_of_target htarget
    exact .inl (hl ▸ hputs)
  | error e =>
    refine .inr ⟨rfl, fun c hread => ?_⟩
    -- what can be read can be removed
    obtain ⟨hfits, hreach, hc⟩ := read_path_iff.mp hread
    have htarget := target_path hfits hreach (contentAt_isDirectoryAt hc)
    obtain ⟨modified, hentry⟩ := exists_file_of_contentAt hc
    rw [location] at hentry
    simp [removeFile, htarget, bind, Except.bind, hentry, not_endsInSlash_path] at hremove

theorem changes_discard (layout : Layout) (s : Slot) (t : FileTree) :
    layout.Changes (· = s) t (t.discard (s.path layout)) := by
  rcases discard_cases layout s t with h | ⟨h, -⟩
  · exact changes_of_puts h (by simp)
  · rw [h]
    exact .refl layout _ t

theorem keepsDirectories_discard (layout : Layout) (s : Slot) (t : FileTree) :
    KeepsDirectories t (t.discard (s.path layout)) ∧
      KeepsDirectories (t.discard (s.path layout)) t := by
  rcases discard_cases layout s t with h | ⟨h, -⟩
  · exact ⟨h.keeps, h.keeps_symm⟩
  · rw [h]
    exact ⟨fun _ => id, fun _ => id⟩

theorem contentAt_discard (layout : Layout) {s : Slot} (t : FileTree) {k : Location}
    (hk : k ≠ s.location layout) :
    (t.discard (s.path layout)).contentAt k = t.contentAt k := by
  rcases discard_cases layout s t with h | ⟨h, -⟩
  · rw [h.contentAt, if_neg hk]
  · rw [h]

@[simp] theorem readText?_discard_self (layout : Layout) (s : Slot) (t : FileTree) :
    (t.discard (s.path layout)).readText? (s.path layout) = none := by
  rcases discard_cases layout s t with h | ⟨h, hunread⟩
  · exact readText?_path_eq_none (by rw [h.contentAt, if_pos rfl])
  · rw [h, FileTree.readText?]
    cases hread : t.read (s.path layout) with
    | ok c => exact absurd hread (hunread c)
    | error e => rfl

theorem contentAt_discard_self (h : layout.Open t) (hfits : s.Fits layout) :
    (t.discard (s.path layout)).contentAt (s.location layout) = none := by
  rcases discard_cases layout s t with hputs | ⟨hsame, hunread⟩
  · rw [hputs.contentAt, if_pos rfl]
  · rw [hsame, Option.eq_none_iff_forall_not_mem]
    intro c hc
    have hreach := reaches_of_open h (contentAt_isDirectoryAt hc)
    exact hunread c (read_path_iff.mpr ⟨hfits, hreach, hc⟩)

theorem readText?_discard (layout : Layout) {s s' : Slot} (hne : s' ≠ s) (t : FileTree) :
    (t.discard (s.path layout)).readText? (s'.path layout) = t.readText? (s'.path layout) := by
  obtain ⟨hdirs, hdirs'⟩ := keepsDirectories_discard layout s t
  exact readText?_path_of_same_directories hdirs hdirs'
    (contentAt_discard layout t (mt location_injective hne))

/-- The files of the artifact of an id. -/
def ArtifactOf (id : CacheId) (s : Slot) : Prop := ∃ part, part ≠ .record ∧ s = entry id part

/-- The files of the artifact of an id in one mode. -/
def ArtifactIn (id : CacheId) (debug : Bool) (s : Slot) : Prop :=
  s = entry id (.code debug) ∨ s = entry id (.sourceMap debug)

theorem ArtifactIn.artifactOf {id : CacheId} {debug : Bool} (h : ArtifactIn id debug s) :
    ArtifactOf id s := by
  rcases h with rfl | rfl
  · exact ⟨_, by simp, rfl⟩
  · exact ⟨_, by simp, rfl⟩

theorem read?_artifact (layout : Layout) (debug : Bool) (t : FileTree) (id : CacheId) :
    ArtifactStore.read? ⟨layout.files, debug⟩ t id =
      (t.readText? ((entry id (.code debug)).path layout)).map fun code =>
        ⟨code, t.readText? ((entry id (.sourceMap debug)).path layout)⟩ := by
  rw [ArtifactStore.read?, path_code, path_sourceMap]

theorem changes_removeArtifact_in (layout : Layout) (debug : Bool) (t : FileTree) (id : CacheId) :
    layout.Changes (ArtifactIn id debug) t (ArtifactStore.remove ⟨layout.files, debug⟩ t id) := by
  rw [ArtifactStore.remove, path_code, path_sourceMap]
  exact ((changes_discard layout _ t).mono fun _ => .inl).trans
    ((changes_discard layout _ _).mono fun _ => .inr)

theorem changes_removeArtifact (layout : Layout) (debug : Bool) (t : FileTree) (id : CacheId) :
    layout.Changes (ArtifactOf id) t (ArtifactStore.remove ⟨layout.files, debug⟩ t id) :=
  (changes_removeArtifact_in layout debug t id).mono fun _ => ArtifactIn.artifactOf

theorem readText?_removeArtifact_in (layout : Layout) (debug : Bool) (t : FileTree) {id : CacheId}
    {s : Slot} (hs : ¬ArtifactIn id debug s) :
    (ArtifactStore.remove ⟨layout.files, debug⟩ t id).readText? (s.path layout) =
      t.readText? (s.path layout) := by
  obtain ⟨hcode, hmap⟩ := not_or.mp hs
  rw [ArtifactStore.remove, path_code, path_sourceMap, readText?_discard layout hmap,
    readText?_discard layout hcode]

theorem readText?_removeArtifact (layout : Layout) (debug : Bool) (t : FileTree) {id : CacheId}
    {s : Slot} (hs : ¬ArtifactOf id s) :
    (ArtifactStore.remove ⟨layout.files, debug⟩ t id).readText? (s.path layout) =
      t.readText? (s.path layout) :=
  readText?_removeArtifact_in layout debug t (mt ArtifactIn.artifactOf hs)

theorem read?_removeArtifact (layout : Layout) (debug : Bool) (t : FileTree) (id : CacheId) :
    ArtifactStore.read? ⟨layout.files, debug⟩ (ArtifactStore.remove ⟨layout.files, debug⟩ t id) id =
      none := by
  have hne : entry id (.code debug) ≠ entry id (.sourceMap debug) := by simp
  have hcode : (ArtifactStore.remove ⟨layout.files, debug⟩ t id).readText?
      ((entry id (.code debug)).path layout) = none := by
    rw [ArtifactStore.remove, path_code, path_sourceMap, readText?_discard layout hne,
      readText?_discard_self]
  rw [read?_artifact, hcode, Option.map_none]

/-- The files without the record and the artifact of an id. -/
def dropEntry (layout : Layout) (debug : Bool) (t : FileTree) (id : CacheId) : FileTree :=
  ArtifactStore.remove ⟨layout.files, debug⟩ (t.discard ((entry id .record).path layout)) id

theorem changes_dropEntry (layout : Layout) (debug : Bool) (t : FileTree) (id : CacheId) :
    layout.Changes (fun s => ∃ part, s = entry id part) t (dropEntry layout debug t id) := by
  refine ((changes_discard layout _ t).mono fun s hs => ⟨.record, hs⟩).trans
    ((changes_removeArtifact layout debug _ id).mono ?_)
  rintro s ⟨part, -, hs⟩
  exact ⟨part, hs⟩

theorem readText?_dropEntry (layout : Layout) (debug : Bool) (t : FileTree) {id : CacheId}
    {s : Slot} (hs : ∀ part, s ≠ entry id part) :
    (dropEntry layout debug t id).readText? (s.path layout) = t.readText? (s.path layout) := by
  have hartifact : ¬ArtifactOf id s := by
    rintro ⟨part, -, h⟩
    exact hs part h
  rw [dropEntry, readText?_removeArtifact layout debug _ hartifact,
    readText?_discard layout (hs .record)]

theorem readText?_dropEntry_record (layout : Layout) (debug : Bool) (t : FileTree) (id : CacheId) :
    (dropEntry layout debug t id).readText? ((entry id .record).path layout) = none := by
  have hartifact : ¬ArtifactOf id (entry id .record) := by
    rintro ⟨part, hpart, h⟩
    simp only [entry.injEq, true_and] at h
    exact hpart h.symm
  rw [dropEntry, readText?_removeArtifact layout debug _ hartifact, readText?_discard_self]

theorem keepsDirectories_dropEntry (layout : Layout) (debug : Bool) (t : FileTree) (id : CacheId) :
    KeepsDirectories t (dropEntry layout debug t id) ∧
      KeepsDirectories (dropEntry layout debug t id) t := by
  rw [dropEntry, ArtifactStore.remove, path_code, path_sourceMap]
  obtain ⟨h₁, h₁'⟩ := keepsDirectories_discard layout (entry id .record) t
  obtain ⟨h₂, h₂'⟩ := keepsDirectories_discard layout (entry id (.code debug))
    (t.discard ((entry id .record).path layout))
  obtain ⟨h₃, h₃'⟩ := keepsDirectories_discard layout (entry id (.sourceMap debug))
    ((t.discard ((entry id .record).path layout)).discard ((entry id (.code debug)).path layout))
  exact ⟨(h₁.trans h₂).trans h₃, (h₃'.trans h₂').trans h₁'⟩

theorem contentAt_dropEntry (layout : Layout) (debug : Bool) (t : FileTree) {id : CacheId}
    {k : Location} (hk : ∀ part, k ≠ (entry id part).location layout) :
    (dropEntry layout debug t id).contentAt k = t.contentAt k := by
  rw [dropEntry, ArtifactStore.remove, path_code, path_sourceMap,
    contentAt_discard layout _ (hk _), contentAt_discard layout _ (hk _),
    contentAt_discard layout _ (hk _)]

end Slot

end BuildCache
