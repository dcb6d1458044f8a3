import BuildCache.Proofs.Books
import BuildCache.Proofs.Layout.Writing
import BuildCache.Workspace.Sweep

/-!
# The books of a workspace

What a workspace knows at present, in memory or else on disk. Looking things up changes nothing of
it, and each change of the workspace is the change of its books of the same name.
-/

namespace BuildCache.Workspace

def current (w : Workspace) : Books where
  ids := w.store.ids.get w.files w.store.layout.ids
  dependents := w.store.dependents.get w.files w.store.layout.dependents
  record := w.store.records.get? w.files w.store.layout.files

theorem books_ext {b b' : Books} (hids : b.ids = b'.ids) (hdependents : b.dependents = b'.dependents)
    (hrecord : ∀ id, b.record id = b'.record id) : b = b' := by
  obtain ⟨ids, dependents, record⟩ := b
  obtain ⟨ids', dependents', record'⟩ := b'
  obtain rfl : ids = ids' := hids
  obtain rfl : dependents = dependents' := hdependents
  obtain rfl : record = record' := funext hrecord
  rfl

theorem fst_ids (w : Workspace) : (ids w).1 = w.current.ids := rfl

theorem current_ids (w : Workspace) : (ids w).2.current = w.current := rfl

theorem current_dependents (w : Workspace) : (dependents w).2.current = w.current := rfl

theorem fst_record? (id : CacheId) (w : Workspace) : (record? id w).1 = w.current.record id := rfl

theorem get?_load (table : RecordTable) (t : FileTree) (dir : Path) (id id' : CacheId) :
    (table.load t dir id).get? t dir id' = table.get? t dir id' := by
  rw [RecordTable.load]
  split
  · rfl
  · next hnew =>
    by_cases heq : id' = id
    · subst heq
      have hnone : table.loaded.get? id' = none := by
        simpa [OrderedMap.contains] using hnew
      simp [RecordTable.get?, CacheId.get?_insert, hnone]
    · simp [RecordTable.get?, CacheId.get?_insert, heq]

theorem current_record? (id : CacheId) (w : Workspace) : (record? id w).2.current = w.current :=
  books_ext rfl rfl fun id' => get?_load w.store.records w.files w.store.layout.files id id'

theorem current_changeIds (change : IdTable → IdTable) (w : Workspace) :
    (changeIds change w).2.current = { w.current with ids := change w.current.ids } := rfl

theorem current_changeDependents (change : Dependents → Dependents) (w : Workspace) :
    (changeDependents change w).2.current =
      { w.current with dependents := change w.current.dependents } := rfl

theorem current_putRecord (id : CacheId) (r : CacheRecord) (w : Workspace) :
    (putRecord id r w).2.current = w.current.withRecord id (some r) := by
  refine books_ext rfl rfl fun id' => ?_
  by_cases heq : id' = id
  · simp [current, putRecord, RecordTable.get?, RecordTable.insert, CacheId.get?_insert, heq]
  · simp [current, putRecord, RecordTable.get?, RecordTable.insert, CacheId.get?_insert, heq]

theorem readJson?_congr {α : Type} [JsonForm α] {t t' : FileTree} {p : Path}
    (h : t'.readText? p = t.readText? p) : (t'.readJson? p : Option α) = t.readJson? p := by
  rw [FileTree.readJson?, FileTree.readJson?, h]

theorem current_of_files (w : Workspace) {t : FileTree}
    (hids : t.readText? (Slot.ids.path w.store.layout) =
      w.files.readText? (Slot.ids.path w.store.layout))
    (hdependents : t.readText? (Slot.dependents.path w.store.layout) =
      w.files.readText? (Slot.dependents.path w.store.layout))
    (hrecord : ∀ id, t.readText? ((Slot.entry id .record).path w.store.layout) =
      w.files.readText? ((Slot.entry id .record).path w.store.layout)) :
    { w with files := t }.current = w.current := by
  refine books_ext ?_ ?_ fun id => ?_
  · simp only [current, Table.get, Slot.path_ids, readJson?_congr hids]
  · simp only [current, Table.get, Slot.path_dependents, readJson?_congr hdependents]
  · simp only [current, RecordTable.get?, Slot.path_record, readJson?_congr (hrecord id)]

theorem removeRecord_eq (id : CacheId) (w : Workspace) :
    removeRecord id w = (w.current.record id, { w with
      files := w.files.discard ((Slot.entry id .record).path w.store.layout)
      store.records := (w.store.records.load w.files w.store.layout.files id).remove id }) := rfl

theorem current_removeRecord (id : CacheId) (w : Workspace) :
    (removeRecord id w).2.current = w.current.withRecord id none := by
  have hfiles {s : Slot} (hs : s ≠ .entry id .record) :=
    Slot.readText?_discard w.store.layout hs w.files
  have hids := readJson?_congr (α := IdTable) (hfiles (s := .ids) (by simp))
  have hdependents := readJson?_congr (α := Dependents) (hfiles (s := .dependents) (by simp))
  rw [removeRecord_eq]
  refine books_ext ?_ ?_ fun id' => ?_
  · simp only [current, Books.ids_withRecord, Table.get, Slot.path_ids, hids]
  · simp only [current, Books.dependents_withRecord, Table.get, Slot.path_dependents, hdependents]
  · rw [Books.record_withRecord]
    by_cases heq : id' = id
    · simp [current, RecordTable.get?, RecordTable.remove, CacheId.get?_insert, heq]
    · have hload := get?_load w.store.records w.files w.store.layout.files id id'
      have hother : Slot.entry id' .record ≠ .entry id .record := by simpa using heq
      have hrecord := readJson?_congr (α := CacheRecord) (hfiles hother)
      simp only [RecordTable.get?, Slot.path_record] at hload
      simp only [current, RecordTable.get?, RecordTable.remove, CacheId.get?_insert, if_neg heq,
        Slot.path_record, hrecord]
      exact hload

theorem current_removeArtifact (id : CacheId) (w : Workspace) :
    (removeArtifact id w).2.current = w.current := by
  have hfiles {s : Slot} (hs : ¬Slot.ArtifactOf id s) :=
    Slot.readText?_removeArtifact w.store.layout w.store.debug w.files hs
  refine current_of_files w (hfiles ?_) (hfiles ?_) fun id' => hfiles ?_
  all_goals
    rintro ⟨part, hpart, hs⟩
    simp_all

theorem fst_idOf (file : Path) (w : Workspace) : (idOf file w).1 = w.current.ids.get? file := rfl

theorem forgetFile_eq (file : Path) (w : Workspace) :
    forgetFile file w =
      (if w.current.dependents.mentions file then changeDependents (·.forget file)
        else pure ()) (dependents w).2 := rfl

theorem current_forgetFile (file : Path) (w : Workspace) :
    (forgetFile file w).2.current = w.current.forget file := by
  rw [forgetFile_eq, Books.forget]
  split
  · rw [current_changeDependents, current_dependents]
  · exact current_dependents w

theorem current_moveFile (file : Path) (previous next : PathSet) (w : Workspace) :
    (moveFile file previous next w).2.current = w.current.move file previous next := by
  rw [moveFile, Books.move]
  cases previous.sameKeys next
  · exact current_changeDependents _ w
  · rfl

/-- The workspace after a file's id was taken away. -/
def untrack (file : Path) (w : Workspace) : Workspace := (changeIds (·.erase file) (ids w).2).2

theorem current_untrack (file : Path) (w : Workspace) :
    (untrack file w).current = { w.current with ids := w.current.ids.erase file } := by
  rw [untrack, current_changeIds, current_ids]

/-- Takes a file out of the reverse index, where the record tells or everywhere. -/
def unlist (file : Path) (record : Option CacheRecord) (w : Workspace) : Workspace :=
  match record with
  | some record => (moveFile file record.dependencySet .empty w).2
  | none => (forgetFile file w).2

private theorem evict_eq (file : Path) (w : Workspace) :
    evict file w = (match w.current.ids.get? file with
      | none => pure false
      | some id => do
        match ← removeRecord id with
        | some record => moveFile file record.dependencySet .empty
        | none => forgetFile file
        removeArtifact id
        return true : StateM Workspace Bool) (untrack file w) := rfl

theorem evict_of_untracked {file : Path} {w : Workspace} (h : w.current.ids.get? file = none) :
    evict file w = (false, untrack file w) := by
  rw [evict_eq, h]
  rfl

theorem evict_of_tracked {file : Path} {id : CacheId} {w : Workspace}
    (h : w.current.ids.get? file = some id) :
    evict file w = (true, (removeArtifact id
      (unlist file (w.current.record id) (removeRecord id (untrack file w)).2)).2) := by
  have hrecord : (removeRecord id (untrack file w)).1 = w.current.record id := rfl
  rw [evict_eq, h]
  show (match (removeRecord id (untrack file w)).1 with
      | some record => (do moveFile file record.dependencySet .empty; removeArtifact id; return true)
      | none => (do forgetFile file; removeArtifact id; return true) : StateM Workspace Bool)
        (removeRecord id (untrack file w)).2 = _
  rw [hrecord]
  cases w.current.record id <;> rfl

theorem fst_evict (file : Path) (w : Workspace) :
    (evict file w).1 = w.current.ids.contains file := by
  cases h : w.current.ids.get? file with
  | none => rw [evict_of_untracked h, OrderedMap.contains, h]; rfl
  | some id => rw [evict_of_tracked h, OrderedMap.contains, h]; rfl

theorem current_evict (file : Path) (w : Workspace) :
    (evict file w).2.current = w.current.evict file := by
  rw [Books.evict]
  cases h : w.current.ids.get? file with
  | none => rw [evict_of_untracked h, current_untrack]
  | some id =>
    rw [evict_of_tracked h, current_removeArtifact]
    simp only
    cases w.current.record id with
    | some r => rw [unlist, current_moveFile, current_removeRecord, current_untrack]
    | none => rw [unlist, current_forgetFile, current_removeRecord, current_untrack]

theorem evictAll_spec (files : List Path) (w : Workspace) :
    (evictAll files w).1 = w.current.evictedOf files ∧
      (evictAll files w).2.current = w.current.evictAll files := by
  induction files generalizing w with
  | nil => exact ⟨rfl, rfl⟩
  | cons file rest ih =>
    obtain ⟨hothers, hcurrent⟩ := ih (evict file w).2
    have heq : evictAll (file :: rest) w =
        (if (evict file w).1 then file :: (evictAll rest (evict file w).2).1
          else (evictAll rest (evict file w).2).1, (evictAll rest (evict file w).2).2) := rfl
    rw [heq, fst_evict, hothers, hcurrent, current_evict]
    exact ⟨rfl, rfl⟩

theorem evictDependents_spec (dependency : Path) (w : Workspace) :
    (evictDependents dependency w).1 = w.current.evictedUnder dependency ∧
      (evictDependents dependency w).2.current = w.current.evictDependents dependency := by
  have heq : evictDependents dependency w =
      evictAll (w.current.dependents.filesOf dependency).toList
        (changeDependents (·.erase dependency) (dependents w).2).2 := rfl
  have hdropped : (changeDependents (·.erase dependency) (dependents w).2).2.current =
      w.current.dropDependency dependency := by
    rw [current_changeDependents, current_dependents]
    rfl
  obtain ⟨hevicted, hcurrent⟩ := evictAll_spec (w.current.dependents.filesOf dependency).toList
    (changeDependents (·.erase dependency) (dependents w).2).2
  rw [heq, hevicted, hcurrent, hdropped]
  exact ⟨rfl, rfl⟩

theorem bind_apply {α β : Type} (x : Action α) (f : α → Action β) (w : Workspace) :
    (x >>= f) w = match x w with
      | (.ok a, w') => f a w'
      | (.error e, w') => (.error e, w') := by
  simp only [bind, ExceptT.bind, ExceptT.mk, StateT.bind, ExceptT.bindCont]
  cases h : x w with
  | mk r w' => cases r <;> rfl

theorem lift_bind_apply {α β : Type} (x : StateM Workspace α) (f : α → Action β) (w : Workspace) :
    ((x : Action α) >>= f) w = f (x w).1 (x w).2 := rfl

theorem except_bind_apply {α β : Type} (x : Except StoreError α) (f : α → Action β)
    (w : Workspace) :
    ((x : Action α) >>= f) w = match x with
      | .ok a => f a w
      | .error e => (.error e, w) := by
  cases x <;> rfl

private theorem assignId_eq (file : Path) (w : Workspace) :
    assignId file w = (match w.current.ids.get? file with
      | some id => return id
      | none => do
        StoreError.ensureText [file]
        let id := CacheId.forPath file
        changeIds (·.insert file id)
        return id : Action CacheId) (ids w).2 := rfl

theorem assignId_of_tracked {file : Path} {id : CacheId} {w : Workspace}
    (h : w.current.ids.get? file = some id) : assignId file w = (.ok id, (ids w).2) := by
  rw [assignId_eq, h]
  rfl

theorem assignId_of_untracked {file : Path} {w : Workspace}
    (h : w.current.ids.get? file = none) :
    assignId file w = match StoreError.ensureText [file] with
      | .ok () => (.ok (.forPath file), (changeIds (·.insert file (.forPath file)) (ids w).2).2)
      | .error e => (.error e, (ids w).2) := by
  rw [assignId_eq, h]
  cases StoreError.ensureText [file] <;> rfl

theorem assignId_spec (file : Path) (w : Workspace) :
    (∃ e, (assignId file w).1 = .error e ∧ (assignId file w).2.current = w.current) ∨
      ∃ id, (assignId file w).1 = .ok id ∧ (assignId file w).2.current = w.current.assign file ∧
        (w.current.assign file).ids.get? file = some id := by
  cases h : w.current.ids.get? file with
  | some id =>
    refine .inr ⟨id, ?_⟩
    rw [assignId_of_tracked h, Books.assign, h]
    exact ⟨rfl, current_ids w, h⟩
  | none =>
    rw [assignId_of_untracked h, Books.assign, h]
    cases StoreError.ensureText [file] with
    | error e => exact .inl ⟨e, rfl, current_ids w⟩
    | ok u =>
      refine .inr ⟨.forPath file, rfl, ?_, ?_⟩
      · exact current_changeIds _ _
      · simp [OrderedMap.get?_insert]

/-- Moves a file in the reverse index, away from where its previous record or none tells. -/
def relist (file : Path) (previous : Option CacheRecord) (next : PathSet) (w : Workspace) :
    Workspace :=
  match previous with
  | some previous => (moveFile file previous.dependencySet next w).2
  | none => (moveFile file .empty next (forgetFile file w).2).2

/-! The reverse index is all that changes when a file is moved in it. -/

private theorem ids_moveFile (file : Path) (previous next : PathSet) (w : Workspace) :
    (moveFile file previous next w).2.store.ids = w.store.ids := by
  rw [moveFile]
  cases previous.sameKeys next <;> rfl

private theorem ids_forgetFile (file : Path) (w : Workspace) :
    (forgetFile file w).2.store.ids = w.store.ids := by
  rw [forgetFile_eq]
  split <;> rfl

theorem ids_unlist (file : Path) (record : Option CacheRecord) (w : Workspace) :
    (unlist file record w).store.ids = w.store.ids := by
  cases record with
  | some record => exact ids_moveFile _ _ _ w
  | none => exact ids_forgetFile file w

theorem ids_relist (file : Path) (previous : Option CacheRecord) (next : PathSet)
    (w : Workspace) : (relist file previous next w).store.ids = w.store.ids := by
  cases previous with
  | some previous => exact ids_moveFile _ _ _ w
  | none => exact (ids_moveFile _ _ _ _).trans (ids_forgetFile file w)

/-- Puts a record under an id, and moves its file in the reverse index. -/
def replaceRecord (file : Path) (id : CacheId) (record : CacheRecord) (w : Workspace) : Workspace :=
  (putRecord id record
    (relist file (w.current.record id) record.dependencySet (record? id w).2)).2

theorem current_replaceRecord (file : Path) (id : CacheId) (record : CacheRecord) (w : Workspace) :
    (replaceRecord file id record w).current = w.current.put file id record := by
  rw [replaceRecord, current_putRecord, Books.put]
  cases w.current.record id with
  | some previous => rw [relist, current_moveFile, current_record?]
  | none => rw [relist, current_moveFile, current_forgetFile, current_record?]

theorem commitRecord_eq (file : Path) (record : CacheRecord) (w : Workspace) :
    commitRecord file record w = match StoreError.ensureText record.dependencyPaths with
      | .error e => (.error e, w)
      | .ok () => match assignId file w with
        | (.error e, w') => (.error e, w')
        | (.ok id, w') => (.ok id, replaceRecord file id record w') := by
  rw [commitRecord, except_bind_apply]
  cases StoreError.ensureText record.dependencyPaths with
  | error e => rfl
  | ok u =>
    simp only
    rw [bind_apply]
    cases assignId file w with
    | mk r w' =>
      cases r with
      | error e => rfl
      | ok id =>
        simp only
        rw [lift_bind_apply, fst_record?, replaceRecord]
        cases w'.current.record id <;> rfl

theorem commitRecord_spec (file : Path) (record : CacheRecord) (w : Workspace) :
    (∃ e, (commitRecord file record w).1 = .error e ∧
        (commitRecord file record w).2.current = w.current) ∨
      ∃ id, (commitRecord file record w).1 = .ok id ∧
        (commitRecord file record w).2.current = w.current.commit file id record ∧
        (w.current.assign file).ids.get? file = some id := by
  rw [commitRecord_eq]
  cases StoreError.ensureText record.dependencyPaths with
  | error e => exact .inl ⟨e, rfl, rfl⟩
  | ok u =>
    have hassign := assignId_spec file w
    simp only
    cases h : assignId file w with
    | mk r w' =>
      rw [h] at hassign
      rcases hassign with ⟨e, rfl, hcurrent⟩ | ⟨id, rfl, hcurrent, hid⟩
      · exact .inl ⟨e, rfl, hcurrent⟩
      · refine .inr ⟨id, rfl, ?_, hid⟩
        simp only
        rw [current_replaceRecord, hcurrent, Books.commit]

theorem dependencySet_withDependencies (r : CacheRecord) (t : FileTree) (dependencies : PathSet) :
    (r.withDependencies (t.snapshot dependencies)).dependencySet = dependencies := by
  have hentries : (PathMap.keySet (t.snapshot dependencies)).entries = dependencies.entries := by
    simp only [PathMap.keySet, FileTree.snapshot, OrderedMap.map, List.map_map]
    exact List.map_id dependencies.entries
  rw [CacheRecord.dependencySet, CacheRecord.dependencyMap, CacheRecord.withDependencies]
  by_cases hempty : (t.snapshot dependencies).isEmpty = true
  · rw [if_pos hempty]
    refine OrderedMap.ext_entries ?_
    rw [← hentries, PathMap.keySet]
    simp only [OrderedMap.isEmpty, List.isEmpty_iff] at hempty
    simp [OrderedMap.map, hempty, PathMap.keySet, OrderedMap.empty]
  · rw [if_neg hempty]
    exact OrderedMap.ext_entries hentries

theorem setDependencies_eq (file : Path) (dependencies : PathSet) (w : Workspace) :
    setDependencies file dependencies w = match StoreError.ensureText dependencies.toList with
      | .error e => (.error e, w)
      | .ok () => match w.current.ids.get? file with
        | none => (.error (.notCached file), (ids w).2)
        | some id =>
          let w' := (record? id (ids w).2).2
          match w.current.record id with
          | none => (.error (.notCached file), w')
          | some r => (.ok (), (putRecord id (r.withDependencies (w.files.snapshot dependencies))
              (moveFile file r.dependencySet dependencies w').2).2) := by
  rw [setDependencies, except_bind_apply]
  cases StoreError.ensureText dependencies.toList with
  | error e => rfl
  | ok u =>
    simp only
    rw [lift_bind_apply, fst_idOf]
    cases w.current.ids.get? file with
    | none => rfl
    | some id =>
      have hrecord : (idOf file w).2.currentFiles.2.current.record id = w.current.record id := rfl
      simp only
      rw [lift_bind_apply, lift_bind_apply, fst_record?, hrecord]
      cases w.current.record id <;> rfl

theorem setDependencies_spec (file : Path) (dependencies : PathSet) (w : Workspace) :
    (∃ e, (setDependencies file dependencies w).1 = .error e ∧
        (setDependencies file dependencies w).2.current = w.current) ∨
      ∃ id r, (setDependencies file dependencies w).1 = .ok () ∧
        w.current.ids.get? file = some id ∧
        (setDependencies file dependencies w).2.current = w.current.put file id r := by
  rw [setDependencies_eq]
  cases StoreError.ensureText dependencies.toList with
  | error e => exact .inl ⟨e, rfl, rfl⟩
  | ok u =>
    simp only
    cases hid : w.current.ids.get? file with
    | none => exact .inl ⟨_, rfl, current_ids w⟩
    | some id =>
      simp only
      cases hr : w.current.record id with
      | none => exact .inl ⟨_, rfl, current_record? id _⟩
      | some r =>
        refine .inr ⟨id, r.withDependencies (w.files.snapshot dependencies), rfl, rfl, ?_⟩
        simp only
        rw [current_putRecord, current_moveFile, current_record?, current_ids, Books.put, hr]
        simp only
        rw [dependencySet_withDependencies]

end BuildCache.Workspace
