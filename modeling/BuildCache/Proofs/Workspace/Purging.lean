import BuildCache.Proofs.Layout.Purging
import BuildCache.Proofs.Workspace.Respecting
import BuildCache.Proofs.Workspace.SaveClosed

/-!
# Workspaces without the corrupt files of a cache

What was read from a corrupt file is what is read where it is missing. So the same store may work on
a cache directory and on the one without some of its corrupt files, and no step that others are made
of tells them apart.
-/

namespace BuildCache

open FileTree BuildCache.Path

namespace Layout.Purged

variable {layout : Layout} {S : Slot → Prop} {t t' : FileTree} {α : Type} [JsonForm α]

theorem prepareParent (h : layout.Purged S t t') (s : Slot) :
    Mirrors (layout.Purged S) (t.prepareParent (s.path layout))
      (t'.prepareParent (s.path layout)) := by
  rw [FileTree.prepareParent, FileTree.prepareParent]
  cases hparent : (s.path layout).parent? with
  | none => exact ⟨rfl, h⟩
  | some parent =>
    refine h.prepare s fun k hk => ?_
    have hk := hk.mono (segments_parent? hparent)
    rwa [Slot.segments_path, List.dropLast_concat] at hk

theorem writeJson (h : layout.Purged S t t') (pretty : Bool) (s : Slot) (a : α) :
    Mirrors (layout.Purged S) (t.writeJson pretty (s.path layout) a)
      (t'.writeJson pretty (s.path layout) a) := by
  obtain ⟨r, t₁, t₁', hleft, hright, hfiles⟩ := (h.prepareParent s).parts
  rw [FileTree.writeJson, FileTree.writeJson, hleft, hright]
  cases r with
  | error e => exact ⟨rfl, hfiles⟩
  | ok u =>
    cases JsonForm.render? pretty a with
    | none => exact ⟨rfl, hfiles⟩
    | some text => exact hfiles.replace s text

theorem saveTable (h : layout.Purged S t t') (table : Table α) (pretty : Bool) (s : Slot) :
    ∃ r t₁ t₁' table₁, table.save t pretty (s.path layout) = (r, t₁, table₁) ∧
      table.save t' pretty (s.path layout) = (r, t₁', table₁) ∧ layout.Purged S t₁ t₁' := by
  rw [Table.save, Table.save]
  split
  · next a _ _ =>
    obtain ⟨r, t₁, t₁', hleft, hright, hfiles⟩ := (h.writeJson pretty s a).parts
    rw [hleft, hright]
    cases r <;> exact ⟨_, _, _, _, rfl, rfl, hfiles⟩
  · exact ⟨_, _, _, _, rfl, rfl, h⟩

theorem writeRecords (h : layout.Purged S t t') (table : RecordTable) (pretty : Bool)
    (entries : List (CacheId × CacheRecord)) (count : Nat) :
    ∃ r t₁ t₁' table₁, table.writeAll t pretty layout.files count entries = (r, t₁, table₁) ∧
      table.writeAll t' pretty layout.files count entries = (r, t₁', table₁) ∧
      layout.Purged S t₁ t₁' := by
  induction entries generalizing t t' count with
  | nil => exact ⟨_, _, _, _, rfl, rfl, h⟩
  | cons e rest ih =>
    obtain ⟨id, record⟩ := e
    obtain ⟨r, t₁, t₁', hleft, hright, hfiles⟩ :=
      (h.writeJson pretty (.entry id .record) record).parts
    rw [RecordTable.writeAll, RecordTable.writeAll, Slot.path_record, hleft, hright]
    split
    · cases r with
      | ok u => exact ih hfiles (count + 1)
      | error e => exact ⟨_, _, _, _, rfl, rfl, hfiles⟩
    · exact ih h count

theorem writeMarker {s : Store} (h : s.layout.Purged S t t') :
    Mirrors (s.layout.Purged S) (s.writeMarker t) (s.writeMarker t') := by
  obtain ⟨r, t₁, t₁', hleft, hright, hfiles⟩ :=
    (h.prepare (p := s.layout.dir) .marker fun _ hk => hk).parts
  rw [Store.writeMarker, Store.writeMarker, hleft, hright]
  cases r with
  | error e => exact ⟨rfl, hfiles⟩
  | ok u =>
    have hwrite := hfiles.write s.version
    simp only
    generalize t₁.write s.layout.marker (.ofString s.version) = y at hwrite
    generalize t₁'.write s.layout.marker (.ofString s.version) = y' at hwrite
    cases hwrite with
    | ok hwritten => exact ⟨rfl, hwritten⟩
    | error e => exact ⟨rfl, hfiles⟩

theorem saveMarker {s : Store} (h : s.layout.Purged S t t') :
    ∃ r t₁ t₁' unmarked, s.saveMarker t = (r, t₁, { s with unmarked }) ∧
      s.saveMarker t' = (r, t₁', { s with unmarked }) ∧ s.layout.Purged S t₁ t₁' := by
  rw [Store.saveMarker, Store.saveMarker]
  split
  · obtain ⟨r, t₁, t₁', hleft, hright, hfiles⟩ := h.writeMarker.parts
    rw [hleft, hright]
    cases r with
    | ok u => exact ⟨_, _, _, false, rfl, rfl, hfiles⟩
    | error e => exact ⟨_, _, _, s.unmarked, rfl, rfl, hfiles⟩
  · exact ⟨_, _, _, s.unmarked, rfl, rfl, h⟩

theorem save {s : Store} (h : s.layout.Purged S t t') :
    ∃ r t₁ t₁' s₁, s.save t = (r, t₁, s₁) ∧ s.save t' = (r, t₁', s₁) ∧ s₁.layout = s.layout ∧
      s.layout.Purged S t₁ t₁' := by
  obtain ⟨r₁, t₁, t₁', unmarked, hleft₁, hright₁, h₁⟩ := h.saveMarker
  obtain ⟨r₂, t₂, t₂', ids, hleft₂, hright₂, h₂⟩ := h₁.saveTable s.ids s.debug .ids
  obtain ⟨r₃, t₃, t₃', dependents, hleft₃, hright₃, h₃⟩ :=
    h₂.saveTable s.dependents s.debug .dependents
  obtain ⟨r₄, t₄, t₄', records, hleft₄, hright₄, h₄⟩ := h₃.writeRecords
    { s.records with unsaved := .empty } s.debug s.records.unsaved.entries 0
  rw [← Slot.path_ids] at hleft₂ hright₂
  rw [← Slot.path_dependents] at hleft₃ hright₃
  have hresult {t t₁ t₂ t₃ t₄ : FileTree} (h₁ : s.saveMarker t = (r₁, t₁, { s with unmarked }))
      (h₂ : s.ids.save t₁ s.debug s.layout.ids = (r₂, t₂, ids))
      (h₃ : s.dependents.save t₂ s.debug s.layout.dependents = (r₃, t₃, dependents))
      (h₄ : s.records.save t₃ s.debug s.layout.files = (r₄, t₄, records)) :
      s.save t = (do r₁; let _ ← r₂; let _ ← r₃; let _ ← r₄, t₄,
        { s with unmarked, ids, dependents, records }) := by
    simp only [Store.save, h₁, h₂, h₃, h₄]
  exact ⟨_, t₄, t₄', _, hresult hleft₁ hleft₂ hleft₃ hleft₄,
    hresult hright₁ hright₂ hright₃ hright₄, rfl, h₄⟩

end Layout.Purged

namespace Workspace

/-- The same store works on files that lack some corrupt ones of the cache. -/
structure Purged (layout : Layout) (S : Slot → Prop) (w w' : Workspace) : Prop where
  store : w'.store = w.store
  layout_eq : w.store.layout = layout
  files : layout.Purged S w.files w'.files

namespace Purged

variable {layout : Layout} {S : Slot → Prop} {w w' : Workspace}

theorem current (h : Purged layout S w w') : w'.current = w.current := by
  obtain ⟨hstore, rfl, hfiles⟩ := h
  refine books_ext ?_ ?_ fun id => ?_
  · simp only [Workspace.current, hstore, Table.get, hfiles.readJson?_ids]
  · simp only [Workspace.current, hstore, Table.get, hfiles.readJson?_dependents]
  · simp only [Workspace.current, hstore, RecordTable.get?, hfiles.readJson?_record]

theorem ids_get (h : Purged layout S w w') :
    w'.store.ids.get w'.files w'.store.layout.ids = w.store.ids.get w.files w.store.layout.ids :=
  congrArg Books.ids h.current

theorem dependents_get (h : Purged layout S w w') :
    w'.store.dependents.get w'.files w'.store.layout.dependents =
      w.store.dependents.get w.files w.store.layout.dependents :=
  congrArg Books.dependents h.current

theorem respects_ids : Respects (Purged layout S) ids := by
  intro w w' h
  have hget := h.ids_get
  obtain ⟨hstore, hlayout, hfiles⟩ := h
  refine ⟨hget, ?_, hlayout, hfiles⟩
  rw [hstore] at hget
  simp only [Workspace.ids, Table.load, hstore, hget]

theorem respects_dependents : Respects (Purged layout S) dependents := by
  intro w w' h
  have hget := h.dependents_get
  obtain ⟨hstore, hlayout, hfiles⟩ := h
  refine ⟨hget, ?_, hlayout, hfiles⟩
  rw [hstore] at hget
  simp only [Workspace.dependents, Table.load, hstore, hget]

theorem respects_record? (id : CacheId) : Respects (Purged layout S) (record? id) := by
  intro w w' h
  have hget : (record? id w').1 = (record? id w).1 := congrArg (Books.record · id) h.current
  obtain ⟨hstore, rfl, hfiles⟩ := h
  refine ⟨hget, ?_, rfl, hfiles⟩
  simp only [Workspace.record?, RecordTable.load, hstore, hfiles.readJson?_record]

theorem respects_artifact? (id : CacheId) : Respects (Purged layout S) (artifact? id) := by
  intro w w' h
  refine ⟨?_, h⟩
  obtain ⟨hstore, rfl, hfiles⟩ := h
  show w'.store.artifacts.read? w'.files id = w.store.artifacts.read? w.files id
  rw [hstore]
  exact hfiles.read?_artifact w.store.debug id

theorem respects_changeIds (change : IdTable → IdTable) :
    Respects (Purged layout S) (changeIds change) := by
  intro w w' h
  have hget := h.ids_get
  obtain ⟨hstore, hlayout, hfiles⟩ := h
  refine ⟨rfl, ?_, hlayout, hfiles⟩
  rw [hstore] at hget
  simp only [Workspace.changeIds, Table.update, hstore, hget]

theorem respects_changeDependents (change : Dependents → Dependents) :
    Respects (Purged layout S) (changeDependents change) := by
  intro w w' h
  have hget := h.dependents_get
  obtain ⟨hstore, hlayout, hfiles⟩ := h
  refine ⟨rfl, ?_, hlayout, hfiles⟩
  rw [hstore] at hget
  simp only [Workspace.changeDependents, Table.update, hstore, hget]

theorem respects_putRecord (id : CacheId) (r : CacheRecord) :
    Respects (Purged layout S) (putRecord id r) := by
  intro w w' ⟨hstore, hlayout, hfiles⟩
  exact ⟨rfl, by simp only [Workspace.putRecord, hstore], hlayout, hfiles⟩

theorem removeRecord (h : Purged layout S w w') (id : CacheId) :
    Alike (Purged layout fun s => S s ∧ s ≠ .entry id .record) (Workspace.removeRecord id w)
      (Workspace.removeRecord id w') := by
  have hanswer : w'.current.record id = w.current.record id := congrArg (Books.record · id) h.current
  obtain ⟨hstore, rfl, hfiles⟩ := h
  obtain ⟨hdiscarded, hthere⟩ := hfiles.discard (.entry id .record)
  rw [removeRecord_eq, removeRecord_eq]
  refine ⟨hanswer, ?_, rfl, ?_⟩
  · simp only [RecordTable.load, hstore, hfiles.readJson?_record]
  · rw [hstore]
    refine hdiscarded.restrict fun s hs hgone => ⟨hs, ?_⟩
    rintro rfl
    exact hthere hgone

theorem weaken (h : Purged layout S w w') {S' : Slot → Prop} (hS : ∀ s, S s → S' s) :
    Purged layout S' w w' :=
  ⟨h.store, h.layout_eq, h.files.restrict fun s hs _ => hS s hs⟩

theorem respects_removeRecord (id : CacheId) :
    Respects (Purged layout S) (Workspace.removeRecord id) := by
  intro w w' h
  obtain ⟨hanswer, hrelated⟩ := h.removeRecord id
  exact ⟨hanswer, hrelated.weaken fun _ => And.left⟩

theorem respects_removeArtifact (id : CacheId) :
    Respects (Purged layout S) (removeArtifact id) := by
  intro w w' ⟨hstore, hlayout, hfiles⟩
  subst hlayout
  refine ⟨rfl, hstore, rfl, ?_⟩
  show w.store.layout.Purged S (w.store.artifacts.remove w.files id)
    (w'.store.artifacts.remove w'.files id)
  rw [hstore]
  exact hfiles.removeArtifact w.store.debug id

theorem respects_writeArtifact (id : CacheId) (a : Artifact) :
    Respects (Purged layout S) (writeArtifact id a) := by
  intro w w' ⟨hstore, hlayout, hfiles⟩
  subst hlayout
  obtain ⟨r, t₁, t₁', hleft, hright, hwritten⟩ := (hfiles.writeArtifact w.store.debug id a).parts
  have happly {w : Workspace} {t : FileTree} (hw : ArtifactStore.write
      ⟨w.store.layout.files, w.store.debug⟩ w.files id a = (r, t)) :
      writeArtifact id a w = (r, { w with files := t }) := by
    simp only [writeArtifact, onFiles, Store.artifacts, hw]
  rw [happly hleft, happly (by rw [hstore, hright])]
  exact ⟨rfl, hstore, rfl, hwritten⟩

theorem respects_save : Respects (Purged layout S) save := by
  intro w w' ⟨hstore, hlayout, hfiles⟩
  subst hlayout
  obtain ⟨r, t₁, t₁', s₁, hleft, hright, hlayout, hsaved⟩ := hfiles.save
  have happly {w : Workspace} {t : FileTree} (hw : w.store.save w.files = (r, t, s₁)) :
      save w = (r, ⟨t, s₁⟩) := by
    simp only [save, hw]
  rw [happly hleft, happly (by rw [hstore, hright])]
  exact ⟨rfl, rfl, hlayout, hsaved⟩

theorem primitives : Primitives (Purged layout S) where
  ids := respects_ids
  dependents := respects_dependents
  record? := respects_record?
  artifact? := respects_artifact?
  changeIds := respects_changeIds
  changeDependents := respects_changeDependents
  putRecord := respects_putRecord
  removeRecord := respects_removeRecord
  removeArtifact := respects_removeArtifact
  writeArtifact := respects_writeArtifact
  save := respects_save

end Purged

end Workspace

end BuildCache
