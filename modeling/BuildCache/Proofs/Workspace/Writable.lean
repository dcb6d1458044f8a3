import BuildCache.Proofs.Record.Textual
import BuildCache.Proofs.Workspace.Saving

/-!
# Stores that can be written

A store whose paths are all text can be written, and saving it fails on the files at most. Lookups
keep it so, as nothing else is read from disk.
-/

namespace BuildCache

open FileTree TextForm

/-- An error of the files, and not of what is written to them. -/
def StoreError.IsIo (e : StoreError) : Prop := ∃ p cause, e = .io p cause

namespace FileTree

variable {t t' : FileTree} {p : Path} {e : StoreError}

theorem isIo_of_prepare (h : t.prepare p = (.error e, t')) : e.IsIo := by
  rw [prepare] at h
  split at h <;> cases h
  exact ⟨_, _, rfl⟩

theorem isIo_of_replace {content : Bytes} (h : t.replace p content = (.error e, t')) : e.IsIo := by
  rw [replace] at h
  split at h
  · next hprepare =>
    cases h
    exact isIo_of_prepare hprepare
  · simp only at h
    split at h
    · cases h
      exact ⟨_, _, rfl⟩
    · split at h
      · cases h
      · split at h <;> cases h <;> exact ⟨_, _, rfl⟩

theorem isIo_of_writeJson {α : Type} [JsonForm α] [TextForm α] {pretty : Bool} {a : α}
    (ha : Textual a) (h : t.writeJson pretty p a = (.error e, t')) : e.IsIo := by
  rw [writeJson] at h
  split at h
  · next hprepare =>
    cases h
    rw [prepareParent] at hprepare
    split at hprepare
    · exact isIo_of_prepare hprepare
    · cases hprepare
  · split at h
    · next hrender =>
      have hsome : (JsonForm.render? pretty a).isSome := JsonForm.isSome_render?_iff.mpr ha
      rw [hrender] at hsome
      cases hsome
    · exact isIo_of_replace h

end FileTree

theorem ArtifactStore.isIo_of_write {s : ArtifactStore} {t t' : FileTree} {id : CacheId}
    {a : Artifact} {e : StoreError} (h : s.write t id a = (.error e, t')) : e.IsIo := by
  rw [write] at h
  split at h
  · next hcode =>
    cases h
    exact isIo_of_replace hcode
  · split at h
    · exact isIo_of_replace h
    · cases h

theorem ArtifactStore.isIo_of_collect {s : ArtifactStore} {t t' : FileTree} {live : List CacheId}
    {e : StoreError} (h : s.collect t live = (.error e, t')) : e.IsIo := by
  have hnames (names : List Name) (t : FileTree) (count : Nat)
      (h : s.collectNames live count t names = (.error e, t')) : e.IsIo := by
    induction names generalizing t count with
    | nil => cases h
    | cons name rest ih =>
      rw [collectNames] at h
      split at h
      · exact ih _ _ h
      · split at h
        · exact ih _ _ h
        · split at h
          · exact ih _ _ h
          · cases h
            exact ⟨_, _, rfl⟩
  rw [collect] at h
  split at h
  · cases h
  · split at h
    · exact hnames _ _ _ h
    · cases h
      exact ⟨_, _, rfl⟩

theorem Layout.isIo_of_clear {layout : Layout} {t t' : FileTree} {e : StoreError}
    (h : layout.clear t = (.error e, t')) : e.IsIo := by
  have hfiles (ps : List Path) (t : FileTree) (h : clearFiles t ps = (.error e, t')) : e.IsIo := by
    induction ps generalizing t with
    | nil => cases h
    | cons p rest ih =>
      rw [clearFiles] at h
      split at h
      · exact ih _ h
      · exact ih _ h
      · cases h
        exact ⟨_, _, rfl⟩
  rw [clear] at h
  split at h
  · next hclear =>
    cases h
    exact hfiles _ _ hclear
  · split at h <;> cases h
    exact ⟨_, _, rfl⟩

theorem Store.isIo_of_openAt {t t' : FileTree} {dir : Path} {version : String} {debug : Bool}
    {e : StoreError} (h : openAt t dir version debug = (.error e, t')) : e.IsIo := by
  rw [openAt] at h
  simp only at h
  split at h
  · cases h
  · split at h
    · cases h
    · split at h
      · cases h
      · next hclear =>
        cases h
        exact Layout.isIo_of_clear hclear

/-- The table in memory can be written. -/
def Table.Writable {α : Type} [JsonForm α] [TextForm α] (table : Table α) : Prop :=
  ∀ a, table.value = some a → Textual a

namespace Table

variable {α : Type} [JsonForm α] [TextForm α] [EmptyCollection α] {table table' : Table α}
  {t t' : FileTree} {p : Path}

theorem Writable.get (h : table.Writable) (hempty : Textual (∅ : α)) (t : FileTree) (p : Path) :
    Textual (table.get t p) := by
  rw [Table.get]
  split
  · next a ha => exact h a ha
  · rw [readJson?]
    cases hread : ((t.readText? p).bind JsonForm.parse? : Option α) with
    | none => exact hempty
    | some a =>
      obtain ⟨text, -, hparse⟩ := Option.bind_eq_some_iff.mp hread
      exact JsonForm.textual_of_parse? hparse

theorem Writable.load (h : table.Writable) (hempty : Textual (∅ : α)) (t : FileTree) (p : Path) :
    (table.load t p).Writable := fun a ha => by
  cases ha
  exact h.get hempty t p

theorem Writable.update (h : table.Writable) (hempty : Textual (∅ : α)) (t : FileTree) (p : Path)
    {change : α → α} (hchange : ∀ a, Textual a → Textual (change a)) :
    (table.update t p change).Writable := fun a ha => by
  cases ha
  exact hchange _ (h.get hempty t p)

omit [EmptyCollection α] in
theorem Writable.save (h : table.Writable) {pretty : Bool} {r : Except StoreError Bool}
    (hsave : table.save t pretty p = (r, t', table')) :
    table'.Writable ∧ ∀ e, r = .error e → e.IsIo := by
  rw [Table.save] at hsave
  split at hsave
  · next a ha _ =>
    split at hsave
    · cases hsave
      exact ⟨h, fun e he => (by cases he)⟩
    · next hwrite =>
      cases hsave
      refine ⟨h, fun e he => ?_⟩
      cases he
      exact isIo_of_writeJson (h a ha) hwrite
  · cases hsave
    exact ⟨h, fun e he => (by cases he)⟩

end Table

/-- The records in memory can be written. -/
structure RecordTable.Writable (table : RecordTable) : Prop where
  loaded : ∀ r, some r ∈ table.loaded.values → Textual r
  unsaved : ∀ r ∈ table.unsaved.values, Textual r

namespace RecordTable

variable {table table' : RecordTable} {t t' : FileTree} {dir : Path}

theorem textual_of_readJson? {p : Path} {r : CacheRecord} (h : t.readJson? p = some r) :
    Textual r := by
  obtain ⟨text, -, hparse⟩ := Option.bind_eq_some_iff.mp h
  exact JsonForm.textual_of_parse? hparse

theorem Writable.get? (h : table.Writable) {id : CacheId} {r : CacheRecord}
    (hr : table.get? t dir id = some r) : Textual r := by
  rw [RecordTable.get?] at hr
  split at hr
  · next hloaded =>
    subst hr
    obtain ⟨id', hmem, -⟩ := OrderedMap.get?_eq_some_iff.mp hloaded
    exact h.loaded r (List.mem_map_of_mem hmem)
  · exact textual_of_readJson? hr

theorem Writable.load (h : table.Writable) (t : FileTree) (dir : Path) (id : CacheId) :
    (table.load t dir id).Writable := by
  rw [RecordTable.load]
  split
  · exact h
  · refine ⟨fun r hr => ?_, h.unsaved⟩
    rcases OrderedMap.eq_or_mem_values_of_insert hr with hr | hr
    · exact textual_of_readJson? hr.symm
    · exact h.loaded r hr

theorem Writable.insert (h : table.Writable) (id : CacheId) {r : CacheRecord} (hr : Textual r) :
    (table.insert id r).Writable := by
  refine ⟨fun r' hr' => ?_, fun r' hr' => ?_⟩
  · rcases OrderedMap.eq_or_mem_values_of_insert hr' with hr' | hr'
    · cases hr'
      exact hr
    · exact h.loaded r' hr'
  · rcases OrderedMap.eq_or_mem_values_of_insert hr' with rfl | hr'
    · exact hr
    · exact h.unsaved r' hr'

theorem Writable.remove (h : table.Writable) (id : CacheId) : (table.remove id).Writable := by
  refine ⟨fun r hr => ?_, fun r hr => ?_⟩
  · rcases OrderedMap.eq_or_mem_values_of_insert hr with hr | hr
    · cases hr
    · exact h.loaded r hr
  · obtain ⟨e, he, rfl⟩ := List.mem_map.mp hr
    exact h.unsaved e.2 (List.mem_map_of_mem (List.mem_filter.mp he).1)

theorem Writable.save (h : table.Writable) {pretty : Bool} {r : Except StoreError Nat}
    (hsave : table.save t pretty dir = (r, t', table')) :
    table'.Writable ∧ ∀ e, r = .error e → e.IsIo := by
  rw [← saveUnless_none] at hsave
  obtain ⟨written, waiting, t₁, hentries, -, hend⟩ := writeAllUnless_cases _ _ hsave
  have hwaiting : ∀ e ∈ waiting, Textual e.2 := fun e he =>
    h.unsaved e.2 (List.mem_map_of_mem (List.mem_filter.mp
      (hentries ▸ List.mem_append_right written he)).1)
  have hnone : ∀ r ∈ (OrderedMap.empty : OrderedMap CacheId CacheRecord).values, Textual r :=
    fun r hr => (by cases hr)
  cases hend with
  | all n => exact ⟨⟨h.loaded, hnone⟩, fun e he => (by cases he)⟩
  | @stopped id record rest e t' hwrite =>
    refine ⟨⟨h.loaded, ?_⟩, fun e he => ?_⟩
    · refine OrderedMap.ofList_induction (P := fun m => ∀ r ∈ m.values, Textual r) hnone
        fun m hm e he r hr => ?_
      rcases OrderedMap.eq_or_mem_values_of_insert hr with rfl | hr
      · exact hwaiting e he
      · exact hm r hr
    · cases he
      exact isIo_of_writeJson (hwaiting (id, record) List.mem_cons_self) hwrite

end RecordTable

theorem Store.isIo_of_saveMarker {s s' : Store} {t t' : FileTree} {e : StoreError}
    (h : s.saveMarker t = (.error e, t', s')) : e.IsIo := by
  rw [saveMarker] at h
  split at h
  · split at h
    · simp at h
    · next hwrite =>
      obtain rfl := Except.error.inj (Prod.mk.inj h).1
      rw [writeMarker] at hwrite
      split at hwrite
      · next hprepare =>
        cases hwrite
        exact isIo_of_prepare hprepare
      · split at hwrite <;> cases hwrite
        exact ⟨_, _, rfl⟩
  · simp at h

structure Store.Writable (s : Store) : Prop where
  ids : s.ids.Writable
  dependents : s.dependents.Writable
  records : s.records.Writable

/-- A save of what can be written fails on the files at most. -/
theorem Store.Writable.save {s s' : Store} {t t' : FileTree} {r : Except StoreError Unit}
    (h : s.Writable) (hsave : s.save t = (r, t', s')) :
    s'.Writable ∧ ∀ e, r = .error e → e.IsIo := by
  have hresult := s.saveResult .none t
  rw [saveUnless_none, hsave] at hresult
  obtain @⟨marked, unmarked, idsSaved, dependentsSaved, recordsSaved, t₁, t₂, t₃, t₄, ids,
    dependents, records, hmarked, hids, hdependents, hrecords⟩ := hresult
  rw [Faults.none_apply, saveMarkerUnless_none] at hmarked
  rw [Faults.none_apply, Table.saveUnless_none] at hids hdependents
  simp only [Faults.none_apply] at hrecords
  rw [RecordTable.saveUnless_none] at hrecords
  obtain ⟨hI, hidsIo⟩ := h.ids.save hids
  obtain ⟨hD, hdependentsIo⟩ := h.dependents.save hdependents
  obtain ⟨hR, hrecordsIo⟩ := h.records.save hrecords
  refine ⟨⟨hI, hD, hR⟩, fun e he => ?_⟩
  rcases error_of_parts he with rfl | he | he | he
  · exact isIo_of_saveMarker hmarked
  · exact hidsIo e he
  · exact hdependentsIo e he
  · exact hrecordsIo e he

end BuildCache
