import BuildCache.Proofs.Workspace.Linked

/-!
# What the steps of a workspace leave alone

Most steps stay in memory. An eviction takes the files of one id, and a save writes tables, records
and the marker.
-/

namespace BuildCache.Workspace

open FileTree

/-- What is in memory agrees with the disk where nothing waits; of the records, those of some ids
do. -/
structure Linked (P : CacheId → Prop) (w : Workspace) : Prop where
  ids : w.store.ids.Linked (w.files.tableAt w.store.layout.ids)
  dependents : w.store.dependents.Linked (w.files.tableAt w.store.layout.dependents)
  waiting : w.store.records.Waiting
  clean : ∀ id, P id → w.store.records.CleanAt (RecordTable.onDisk w.store.layout w.files) id

/-- The books on disk. -/
def saved (w : Workspace) : Books := w.store.layout.books w.files

theorem record_saved (w : Workspace) (id : CacheId) :
    w.saved.record id = RecordTable.onDisk w.store.layout w.files id := rfl

theorem Linked.current_of_clean {w : Workspace} (h : w.Linked fun _ => True)
    (hclean : w.store.isDirty = false) : w.current = w.saved := by
  simp only [Store.isDirty, Bool.or_eq_false_iff, Bool.not_eq_false'] at hclean
  obtain ⟨⟨⟨-, hids⟩, hdependents⟩, hrecords⟩ := hclean
  refine books_ext (h.ids.get_eq hids) (h.dependents.get_eq hdependents) fun id => ?_
  have hnone : w.store.records.unsaved.get? id = none := by
    have huntracked := OrderedMap.isEmpty_iff.mp hrecords id
    rwa [OrderedMap.contains, Option.isSome_eq_false_iff, Option.isNone_iff_eq_none] at huntracked
  exact RecordTable.get?_of_clean (h.clean id trivial) hnone

/-- Both work on the same cache in the same way. -/
structure SameSetup (w w' : Workspace) : Prop where
  layout : w'.store.layout = w.store.layout
  version : w'.store.version = w.store.version
  debug : w'.store.debug = w.store.debug

theorem SameSetup.refl (w : Workspace) : SameSetup w w := ⟨rfl, rfl, rfl⟩

theorem SameSetup.trans {w w' w'' : Workspace} (h : SameSetup w w') (h' : SameSetup w' w'') :
    SameSetup w w'' :=
  ⟨h'.layout.trans h.layout, h'.version.trans h.version, h'.debug.trans h.debug⟩

/-- Only tables and records in memory may differ. -/
structure Inward (w w' : Workspace) : Prop extends SameSetup w w' where
  files : w'.files = w.files
  linked : ∀ P, w.Linked P → w'.Linked P

theorem Inward.refl (w : Workspace) : Inward w w := ⟨.refl w, rfl, fun _ => id⟩

theorem Inward.trans {w w' w'' : Workspace} (h : Inward w w') (h' : Inward w' w'') :
    Inward w w'' :=
  ⟨h.toSameSetup.trans h'.toSameSetup, h'.files.trans h.files,
    fun P hP => h'.linked P (h.linked P hP)⟩

theorem Inward.saved {w w' : Workspace} (h : Inward w w') : w'.saved = w.saved := by
  rw [Workspace.saved, Workspace.saved, h.files, h.layout]

theorem inward_ids (w : Workspace) : Inward w (ids w).2 :=
  ⟨⟨rfl, rfl, rfl⟩, rfl, fun _ h => ⟨h.ids.load, h.dependents, h.waiting, h.clean⟩⟩

theorem inward_dependents (w : Workspace) : Inward w (dependents w).2 :=
  ⟨⟨rfl, rfl, rfl⟩, rfl, fun _ h => ⟨h.ids, h.dependents.load, h.waiting, h.clean⟩⟩

theorem inward_changeIds (change : IdTable → IdTable) (w : Workspace) :
    Inward w (changeIds change w).2 :=
  ⟨⟨rfl, rfl, rfl⟩, rfl, fun _ h =>
    ⟨Table.linked_update _ _ _ _ _, h.dependents, h.waiting, h.clean⟩⟩

theorem inward_changeDependents (change : Dependents → Dependents) (w : Workspace) :
    Inward w (changeDependents change w).2 :=
  ⟨⟨rfl, rfl, rfl⟩, rfl, fun _ h =>
    ⟨h.ids, Table.linked_update _ _ _ _ _, h.waiting, h.clean⟩⟩

theorem inward_record? (id : CacheId) (w : Workspace) : Inward w (record? id w).2 := by
  refine ⟨⟨rfl, rfl, rfl⟩, rfl, fun P h =>
    ⟨h.ids, h.dependents, h.waiting.load _ _ id, fun id' hP hnone r hr => ?_⟩⟩
  have hclean := h.clean id' hP
  simp only [record?, RecordTable.load] at hnone hr
  split at hr
  · next hnew =>
    rw [if_pos hnew] at hnone
    exact hclean hnone r hr
  · next hnew =>
    rw [if_neg hnew] at hnone
    rw [CacheId.get?_insert] at hr
    split at hr
    · next heq =>
      subst heq
      exact (Option.some.inj hr).symm
    · exact hclean hnone r hr

theorem inward_putRecord (id : CacheId) (r : CacheRecord) (w : Workspace) :
    Inward w (putRecord id r w).2 := by
  refine ⟨⟨rfl, rfl, rfl⟩, rfl, fun P h =>
    ⟨h.ids, h.dependents, h.waiting.insert id r, fun id' hP hnone r' hr' => ?_⟩⟩
  simp only [putRecord, RecordTable.insert, CacheId.get?_insert] at hnone hr'
  split at hnone
  · contradiction
  · next hne =>
    rw [if_neg hne] at hr'
    exact h.clean id' hP hnone r' hr'

theorem linked_putRecord {P : CacheId → Prop} {w : Workspace} (h : w.Linked P) (id : CacheId)
    (r : CacheRecord) : (putRecord id r w).2.Linked fun id' => P id' ∨ id' = id := by
  have hlinked := (inward_putRecord id r w).linked P h
  refine ⟨hlinked.ids, hlinked.dependents, hlinked.waiting, fun id' hid => ?_⟩
  rcases hid with hid | rfl
  · exact hlinked.clean id' hid
  · intro hnone
    simp [putRecord, RecordTable.insert, CacheId.get?_insert] at hnone

theorem inward_forgetFile (file : Path) (w : Workspace) : Inward w (forgetFile file w).2 := by
  rw [forgetFile_eq]
  split
  · exact (inward_dependents w).trans (inward_changeDependents _ _)
  · exact inward_dependents w

theorem inward_moveFile (file : Path) (previous next : PathSet) (w : Workspace) :
    Inward w (moveFile file previous next w).2 := by
  rw [moveFile]
  cases previous.sameKeys next
  · exact inward_changeDependents _ w
  · exact .refl w

theorem inward_untrack (file : Path) (w : Workspace) : Inward w (untrack file w) :=
  (inward_ids w).trans (inward_changeIds _ _)

theorem inward_unlist (file : Path) (record : Option CacheRecord) (w : Workspace) :
    Inward w (unlist file record w) := by
  cases record with
  | some r => exact inward_moveFile _ _ _ w
  | none => exact inward_forgetFile _ w

theorem inward_relist (file : Path) (previous : Option CacheRecord) (next : PathSet)
    (w : Workspace) : Inward w (relist file previous next w) := by
  cases previous with
  | some previous => exact inward_moveFile _ _ _ w
  | none => exact (inward_forgetFile _ w).trans (inward_moveFile _ _ _ _)

theorem inward_replaceRecord (file : Path) (id : CacheId) (r : CacheRecord) (w : Workspace) :
    Inward w (replaceRecord file id r w) :=
  ((inward_record? id w).trans (inward_relist _ _ _ _)).trans (inward_putRecord _ _ _)

theorem linked_replaceRecord {P : CacheId → Prop} {w : Workspace} (h : w.Linked P) (file : Path)
    (id : CacheId) (r : CacheRecord) :
    (replaceRecord file id r w).Linked fun id' => P id' ∨ id' = id :=
  linked_putRecord (((inward_record? id w).trans (inward_relist _ _ _ _)).linked P h) id r

theorem inward_assignId (file : Path) (w : Workspace) : Inward w (assignId file w).2 := by
  cases h : w.current.ids.get? file with
  | some id =>
    rw [assignId_of_tracked h]
    exact inward_ids w
  | none =>
    rw [assignId_of_untracked h]
    cases StoreError.ensureText [file]
    · exact inward_ids w
    · exact (inward_ids w).trans (inward_changeIds _ _)

theorem inward_commitRecord (file : Path) (r : CacheRecord) (w : Workspace) :
    Inward w (commitRecord file r w).2 := by
  have hassign := inward_assignId file w
  rw [commitRecord_eq]
  cases StoreError.ensureText r.dependencyPaths with
  | error e => exact .refl w
  | ok u =>
    simp only
    cases h : assignId file w with
    | mk result w' =>
      rw [h] at hassign
      cases result with
      | error e => exact hassign
      | ok id => exact hassign.trans (inward_replaceRecord file id r w')

theorem inward_setDependencies (file : Path) (dependencies : PathSet) (w : Workspace) :
    Inward w (setDependencies file dependencies w).2 := by
  rw [setDependencies_eq]
  cases StoreError.ensureText dependencies.toList with
  | error e => exact .refl w
  | ok u =>
    simp only
    cases w.current.ids.get? file with
    | none => exact inward_ids w
    | some id =>
      have hrecord := (inward_ids w).trans (inward_record? id _)
      simp only
      cases w.current.record id with
      | none => exact hrecord
      | some r => exact (hrecord.trans (inward_moveFile _ _ _ _)).trans (inward_putRecord _ _ _)

/-- Nothing came to disk, and what went are records and artifacts. -/
structure Sheds (w w' : Workspace) : Prop extends SameSetup w w' where
  changes : w.store.layout.Changes (fun s => ∃ id part, s = .entry id part) w.files w'.files
  linked : ∀ P, w.Linked P → w'.Linked P
  records : ∀ id, w'.saved.record id = w.saved.record id ∨ w'.saved.record id = none
  tables : w'.saved.ids = w.saved.ids ∧ w'.saved.dependents = w.saved.dependents

theorem Inward.sheds {w w' : Workspace} (h : Inward w w') : Sheds w w' where
  toSameSetup := h.toSameSetup
  changes := h.files ▸ .refl _ _ _
  linked := h.linked
  records id := .inl (by rw [h.saved])
  tables := by rw [h.saved]; exact ⟨rfl, rfl⟩

theorem Sheds.trans {w w' w'' : Workspace} (h : Sheds w w') (h' : Sheds w' w'') : Sheds w w'' where
  toSameSetup := h.toSameSetup.trans h'.toSameSetup
  changes := h.changes.trans (h.layout ▸ h'.changes)
  linked P hP := h'.linked P (h.linked P hP)
  records id := by
    rcases h'.records id with hid | hid
    · rw [hid]
      exact h.records id
    · exact .inr hid
  tables := ⟨h'.tables.1.trans h.tables.1, h'.tables.2.trans h.tables.2⟩

/-- What an eviction does to the files of the id: all of its slots are given up, and its record and
its artifact are gone. -/
structure Clears (id : CacheId) (w w' : Workspace) : Prop extends Sheds w w' where
  only : w.store.layout.Changes (fun s => ∃ part, s = .entry id part) w.files w'.files
  others : ∀ s : Slot, (∀ part, s ≠ .entry id part) →
    w'.files.readText? (s.path w.store.layout) = w.files.readText? (s.path w.store.layout)
  record : w'.saved.record id = none
  artifact : w'.store.artifacts.read? w'.files id = none

/-- Files whose texts are the same, up to records that are not in memory any more. -/
theorem Linked.of_texts {P : CacheId → Prop} {w : Workspace} {t : FileTree}
    {records : RecordTable} (h : w.Linked P)
    (hids : t.readText? (Slot.ids.path w.store.layout) =
      w.files.readText? (Slot.ids.path w.store.layout))
    (hdependents : t.readText? (Slot.dependents.path w.store.layout) =
      w.files.readText? (Slot.dependents.path w.store.layout))
    (hwaiting : records.Waiting)
    (hclean : ∀ id, P id → records.CleanAt (RecordTable.onDisk w.store.layout t) id) :
    Linked P { files := t, store := { w.store with records } } where
  ids := by
    show w.store.ids.Linked (t.tableAt w.store.layout.ids)
    rw [Slot.path_ids, Table.tableAt_congr hids]
    exact h.ids
  dependents := by
    show w.store.dependents.Linked (t.tableAt w.store.layout.dependents)
    rw [Slot.path_dependents, Table.tableAt_congr hdependents]
    exact h.dependents
  waiting := hwaiting
  clean := hclean

theorem linked_removeRecord {P : CacheId → Prop} {w : Workspace} (h : w.Linked P) (id : CacheId) :
    (removeRecord id w).2.Linked P := by
  have hload := (inward_record? id w).linked P h
  have hfiles {s : Slot} (hs : s ≠ .entry id .record) :=
    Slot.readText?_discard w.store.layout hs w.files
  rw [removeRecord_eq]
  refine h.of_texts (hfiles (by simp)) (hfiles (by simp)) (hload.waiting.remove id)
    fun id' hP hnone r hr => ?_
  simp only [RecordTable.remove, CacheId.get?_erase, CacheId.get?_insert] at hnone hr
  split at hr
  · next heq =>
    subst heq
    cases hr
    rw [RecordTable.onDisk, readJson?, Slot.readText?_discard_self]
    rfl
  · next hne =>
    rw [if_neg hne] at hnone
    have hslot : Slot.entry id' .record ≠ .entry id .record := by simpa using hne
    rw [RecordTable.onDisk, readJson?_congr (hfiles hslot)]
    exact hload.clean id' hP hnone r hr

private theorem not_artifactOf_of_table {id : CacheId} {s : Slot}
    (hs : ∀ id part, s = .entry id part → part = .record) : ¬Slot.ArtifactOf id s := by
  rintro ⟨part, hpart, heq⟩
  exact hpart (hs id part heq)

theorem linked_removeArtifact {P : CacheId → Prop} {w : Workspace} (h : w.Linked P)
    (id : CacheId) : (removeArtifact id w).2.Linked P := by
  have hfiles {s : Slot} (hs : ∀ id part, s = .entry id part → part = .record) :
      (w.store.artifacts.remove w.files id).readText? (s.path w.store.layout) =
        w.files.readText? (s.path w.store.layout) :=
    Slot.readText?_removeArtifact w.store.layout w.store.debug w.files
      (not_artifactOf_of_table hs)
  have hclean (id' : CacheId) (hP : P id') : w.store.records.CleanAt
      (RecordTable.onDisk w.store.layout (w.store.artifacts.remove w.files id)) id' := by
    intro hnone r hr
    rw [RecordTable.onDisk, readJson?_congr (hfiles (by simp))]
    exact h.clean id' hP hnone r hr
  exact h.of_texts (hfiles (by simp)) (hfiles (by simp)) h.waiting hclean

/-- An eviction drops the files of the id, and nothing else. -/
theorem files_evict {file : Path} {id : CacheId} {w : Workspace}
    (h : w.current.ids.get? file = some id) :
    (evict file w).2.files = Slot.dropEntry w.store.layout w.store.debug w.files id := by
  have hunlisted := inward_unlist file (w.current.record id) (removeRecord id (untrack file w)).2
  rw [evict_of_tracked h, Slot.dropEntry]
  show (unlist _ _ _).store.artifacts.remove (unlist _ _ _).files id = _
  rw [Store.artifacts, hunlisted.files, hunlisted.layout, hunlisted.debug]
  rfl

theorem clears_evict {file : Path} {id : CacheId} {w : Workspace}
    (h : w.current.ids.get? file = some id) : Clears id w (evict file w).2 := by
  have hlinked (P : CacheId → Prop) (hP : w.Linked P) : (evict file w).2.Linked P := by
    rw [evict_of_tracked h]
    refine linked_removeArtifact ((inward_unlist _ _ _).linked P (linked_removeRecord ?_ id)) id
    exact (inward_untrack file w).linked P hP
  have hunlisted := inward_unlist file (w.current.record id) (removeRecord id (untrack file w)).2
  have hsetup : SameSetup w (evict file w).2 := by
    rw [evict_of_tracked h]
    exact ⟨hunlisted.layout, hunlisted.version, hunlisted.debug⟩
  have hfiles := files_evict h
  have hothers (s : Slot) (hs : ∀ part, s ≠ .entry id part) :
      (evict file w).2.files.readText? (s.path w.store.layout) =
        w.files.readText? (s.path w.store.layout) := by
    rw [hfiles, Slot.readText?_dropEntry _ _ _ hs]
  have honly := Slot.changes_dropEntry w.store.layout w.store.debug w.files id
  rw [← hfiles] at honly
  have hrecord : (evict file w).2.saved.record id = none := by
    rw [record_saved, RecordTable.onDisk, hsetup.layout, hfiles, readJson?,
      Slot.readText?_dropEntry_record]
    rfl
  refine ⟨⟨hsetup, honly.mono ?_, hlinked, fun id' => ?_, ?_⟩, honly, hothers, hrecord,
    ?_⟩
  · rintro s ⟨part, hs⟩
    exact ⟨id, part, hs⟩
  · by_cases heq : id' = id
    · exact .inr (heq ▸ hrecord)
    · refine .inl ?_
      rw [record_saved, record_saved, RecordTable.onDisk, RecordTable.onDisk, hsetup.layout]
      exact readJson?_congr (hothers _ (by simp [heq]))
  · simp only [saved, Layout.books, hsetup.layout]
    exact ⟨Table.tableAt_congr (hothers .ids (by simp)), Table.tableAt_congr (hothers .dependents (by simp))⟩
  · rw [Store.artifacts, hsetup.layout, hsetup.debug, hfiles, Slot.dropEntry]
    exact Slot.read?_removeArtifact _ _ _ _

theorem sheds_evict (file : Path) (w : Workspace) : Sheds w (evict file w).2 := by
  cases h : w.current.ids.get? file with
  | none =>
    rw [evict_of_untracked h]
    exact (inward_untrack file w).sheds
  | some id => exact (clears_evict h).toSheds

theorem readText?_evict {file : Path} {id : CacheId} {w : Workspace}
    (hne : w.current.ids.get? file ≠ some id) (part : Part) :
    (evict file w).2.files.readText? ((Slot.entry id part).path w.store.layout) =
      w.files.readText? ((Slot.entry id part).path w.store.layout) := by
  cases h : w.current.ids.get? file with
  | none =>
    rw [evict_of_untracked h, (inward_untrack file w).files]
  | some id' =>
    refine (clears_evict h).others (.entry id part) fun part' heq => ?_
    cases heq
    exact hne h

end BuildCache.Workspace
