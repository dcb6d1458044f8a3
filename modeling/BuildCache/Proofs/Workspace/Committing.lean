import BuildCache.Proofs.Workspace.Effects

/-!
# Commits of a session

A commit writes the artifact first and then puts the record. One that fails has at most given the
file an id and touched the files of its artifact.
-/

namespace BuildCache

open FileTree

namespace Workspace

/-- Only the files may differ, and of the cache only artifacts of certain ids. -/
structure Builds (built : CacheId → Prop) (w w' : Workspace) : Prop where
  store : w'.store = w.store
  changes : w.store.layout.Changes (fun s => ∃ id, built id ∧ s.ArtifactOf id) w.files w'.files

theorem writeArtifact_eq {id : CacheId} {a : Artifact} {w : Workspace} {t : FileTree}
    {r : Except StoreError Unit} (h : w.store.artifacts.write w.files id a = (r, t)) :
    writeArtifact id a w = (r, { w with files := t }) := by
  simp only [writeArtifact, onFiles, h]

theorem writeArtifactUnless_eq {faults : Faults} {id : CacheId} {a : Artifact} {w : Workspace}
    {t : FileTree} {r : Except StoreError Unit}
    (h : w.store.artifacts.writeUnless (faults (.entry id (.code w.store.debug)))
      (faults (.entry id (.sourceMap w.store.debug))) w.files id a = (r, t)) :
    writeArtifactUnless faults id a w = (r, { w with files := t }) := by
  simp only [writeArtifactUnless, onFiles, h]

theorem builds_writeArtifactUnless (faults : Faults) (id : CacheId) (a : Artifact)
    (w : Workspace) : Builds (· = id) w (writeArtifactUnless faults id a w).2 := by
  cases h : w.store.artifacts.writeUnless (faults (.entry id (.code w.store.debug)))
      (faults (.entry id (.sourceMap w.store.debug))) w.files id a with
  | mk r t =>
    rw [writeArtifactUnless_eq h]
    exact ⟨rfl, (Slot.changes_of_writeArtifactUnless h).mono fun s hs => ⟨id, rfl, hs⟩⟩

theorem builds_writeArtifact (id : CacheId) (a : Artifact) (w : Workspace) :
    Builds (· = id) w (writeArtifact id a w).2 := by
  rw [← writeArtifactUnless_none]
  exact builds_writeArtifactUnless .none id a w

theorem read?_writeArtifactUnless {faults : Faults} {id : CacheId} {a : Artifact} {w : Workspace}
    (hok : (writeArtifactUnless faults id a w).1 = .ok ()) :
    (writeArtifactUnless faults id a w).2.store.artifacts.read?
      (writeArtifactUnless faults id a w).2.files id = some a := by
  cases h : w.store.artifacts.writeUnless (faults (.entry id (.code w.store.debug)))
      (faults (.entry id (.sourceMap w.store.debug))) w.files id a with
  | mk r t =>
    rw [writeArtifactUnless_eq h] at hok ⊢
    obtain rfl : r = .ok () := hok
    exact Slot.read?_of_writeArtifactUnless h

variable {built : CacheId → Prop} {w w' : Workspace}

theorem Builds.readText? (h : Builds built w w') (hsettled : w.store.layout.Settled w.files)
    {s : Slot} (hs : ∀ id part, s = .entry id part → part = .record ∨ ¬built id) :
    w'.files.readText? (s.path w.store.layout) = w.files.readText? (s.path w.store.layout) :=
  h.changes.readText? hsettled (by
    rintro ⟨id, hid, part, hpart, heq⟩
    rcases hs id part heq with hrecord | hother
    · exact hpart hrecord
    · exact hother hid)

theorem Builds.current (h : Builds built w w') (hsettled : w.store.layout.Settled w.files) :
    w'.current = w.current := by
  have heq : w' = { w with files := w'.files } := by
    obtain ⟨t, s⟩ := w'
    obtain rfl : s = w.store := h.store
    rfl
  rw [heq]
  exact current_of_files w (h.readText? hsettled (by simp)) (h.readText? hsettled (by simp))
    fun id' => h.readText? hsettled fun _ _ heq => .inl (by cases heq; rfl)

theorem Builds.saved (h : Builds built w w') (hsettled : w.store.layout.Settled w.files) :
    w'.saved = w.saved := by
  refine books_ext ?_ ?_ fun id' => ?_
  · simp only [Workspace.saved, Layout.books, h.store, Slot.path_ids]
    exact Table.tableAt_congr (h.readText? hsettled (by simp))
  · simp only [Workspace.saved, Layout.books, h.store, Slot.path_dependents]
    exact Table.tableAt_congr (h.readText? hsettled (by simp))
  · rw [record_saved, record_saved, h.store]
    exact readJson?_congr (h.readText? hsettled fun _ _ heq => .inl (by cases heq; rfl))

theorem Builds.linked (h : Builds built w w') (hsettled : w.store.layout.Settled w.files)
    {P : CacheId → Prop} (hP : w.Linked P) : w'.Linked P := by
  obtain ⟨t, s⟩ := w'
  obtain rfl : s = w.store := h.store
  refine hP.of_texts (h.readText? hsettled (by simp)) (h.readText? hsettled (by simp)) hP.waiting
    fun id' hid hnone r hr => ?_
  rw [RecordTable.onDisk, readJson?_congr
    (h.readText? hsettled fun _ _ heq => .inl (by cases heq; rfl))]
  exact hP.clean id' hid hnone r hr

theorem Builds.read? (h : Builds built w w') (hsettled : w.store.layout.Settled w.files)
    {id : CacheId} (hid : ¬built id) :
    w'.store.artifacts.read? w'.files id = w.store.artifacts.read? w.files id := by
  rw [h.store, Store.artifacts, Slot.read?_artifact, Slot.read?_artifact,
    h.readText? hsettled fun _ _ heq => .inr (by cases heq; exact hid),
    h.readText? hsettled fun _ _ heq => .inr (by cases heq; exact hid)]

theorem id_of_commitRecord {file : Path} {r : CacheRecord} {id id' : CacheId} {w w' : Workspace}
    (hid : w.current.ids.get? file = some id) (h : commitRecord file r w = (.ok id', w')) :
    id' = id := by
  have hspec := commitRecord_spec file r w
  rw [h] at hspec
  rcases hspec with ⟨e, he, -⟩ | ⟨id'', heq, -, hassigned⟩
  · cases he
  · cases heq
    rw [Books.get?_assign hid, Option.some.injEq] at hassigned
    exact hassigned.symm

def withIds (table : Table IdTable) (w : Workspace) : Workspace := { w with store.ids := table }

theorem current_withIds (table : Table IdTable) (w : Workspace) :
    (w.withIds table).current =
      { w.current with ids := table.get w.files w.store.layout.ids } := rfl

theorem exists_withIds_of_assignId {file : Path} {id : CacheId} {w w₁ : Workspace}
    (h : assignId file w = (.ok id, w₁)) :
    ∃ table ids, w₁ = w.withIds table ∧ table.value = some ids ∧ ids.get? file = some id := by
  cases hid : w.current.ids.get? file with
  | some id' =>
    rw [assignId_of_tracked hid] at h
    cases h
    exact ⟨_, _, rfl, rfl, hid⟩
  | none =>
    rw [assignId_of_untracked hid] at h
    cases htext : StoreError.ensureText [file] with
    | error e =>
      rw [htext] at h
      cases h
    | ok u =>
      rw [htext] at h
      cases h
      exact ⟨_, _, rfl, rfl, by simp [OrderedMap.get?_insert]⟩

theorem tracked_of_assignId {file : Path} {id : CacheId} {w w₁ w₂ : Workspace}
    (h : assignId file w = (.ok id, w₁)) (hstore : w₂.store = w₁.store) :
    w₂.current.ids.get? file = some id := by
  obtain ⟨table, ids, rfl, hvalue, hid⟩ := exists_withIds_of_assignId h
  have htable : w₂.store.ids = table := congrArg Store.ids hstore
  simp only [current, Table.get, htable, hvalue, hid]

theorem writeArtifact_withIds (id : CacheId) (a : Artifact) (table : Table IdTable)
    (w : Workspace) :
    writeArtifact id a (w.withIds table) =
      ((writeArtifact id a w).1, (writeArtifact id a w).2.withIds table) := by
  cases h : w.store.artifacts.write w.files id a with
  | mk r t =>
    rw [writeArtifact_eq h, writeArtifact_eq (w := w.withIds table) h]
    rfl

end Workspace

namespace Session

open Workspace

/-- The record that a commit makes. -/
def recordFor (s : Session) (t : FileTree) (stamp : FileStamp) (imports : Imports) : CacheRecord :=
  ({ stamp, fingerprint := s.fingerprint } : CacheRecord).withDependencies
    (t.snapshot (.ofList imports.dependencies))

theorem commitUnless_eq (faults : Faults) (s : Session) (file : Path) (specifiers : List String)
    (artifact : Artifact) (w : Workspace) :
    s.commitUnless faults file specifiers artifact w =
      let imports := s.config.resolver.imports w.files file specifiers
      match StoreError.ensureText (file :: imports.dependencies) with
      | .error e => (.error e, w)
      | .ok () => match w.files.stamp file with
        | .error e => (.error (.io file e), w)
        | .ok stamp => match assignId file w with
          | (.error e, w₁) => (.error e, w₁)
          | (.ok id, w₁) => match writeArtifactUnless faults id artifact w₁ with
            | (.error e, w₂) => (.error e, w₂)
            | (.ok (), w₂) => match commitRecord file (s.recordFor w.files stamp imports) w₂ with
              | (.error e, w₃) => (.error e, w₃)
              | (.ok _, w₃) => (.ok ⟨id, imports⟩, w₃) := by
  rw [commitUnless, lift_bind_apply]
  simp only
  have hfiles : (currentFiles w).1 = w.files := rfl
  have hw : (currentFiles w).2 = w := rfl
  rw [hfiles, hw, except_bind_apply]
  cases StoreError.ensureText
      (file :: (s.config.resolver.imports w.files file specifiers).dependencies) with
  | error e => rfl
  | ok u =>
    simp only
    rw [except_bind_apply]
    cases w.files.stamp file with
    | error e => rfl
    | ok stamp =>
      simp only [Except.mapError]
      rw [bind_apply]
      cases assignId file w with
      | mk r w₁ =>
        cases r with
        | error e => rfl
        | ok id =>
          simp only
          rw [bind_apply]
          cases writeArtifactUnless faults id artifact w₁ with
          | mk r w₂ =>
            cases r with
            | error e => rfl
            | ok u =>
              simp only
              rw [bind_apply, ← recordFor]
              cases commitRecord file _ w₂ with
              | mk r w₃ => cases r <;> rfl

theorem ensureText_eq_ok_iff {ps : List Path} :
    StoreError.ensureText ps = .ok () ↔ ∀ p ∈ ps, p.text?.isSome = true := by
  rw [StoreError.ensureText]
  cases h : ps.find? (·.text?.isNone) with
  | some p =>
    have hp := List.find?_some h
    simp only [reduceCtorEq, false_iff]
    intro hall
    have hsome := hall p (List.mem_of_find?_eq_some h)
    cases htext : p.text? <;> simp_all
  | none => simpa [Option.isSome_iff_ne_none] using h

theorem exists_assignId_of_text {file : Path} (h : file.text?.isSome = true) (w : Workspace) :
    ∃ id w₁, assignId file w = (.ok id, w₁) := by
  cases hid : w.current.ids.get? file with
  | some id => exact ⟨id, _, assignId_of_tracked hid⟩
  | none =>
    have htext : StoreError.ensureText [file] = .ok () :=
      ensureText_eq_ok_iff.mpr fun p hp => List.mem_singleton.mp hp ▸ h
    rw [assignId_of_untracked hid, htext]
    exact ⟨_, _, rfl⟩

theorem commitRecord_of_tracked {file : Path} {id : CacheId} {r : CacheRecord} {w : Workspace}
    (htext : ∀ p ∈ r.dependencyPaths, p.text?.isSome = true)
    (hid : w.current.ids.get? file = some id) :
    commitRecord file r w = (.ok id, replaceRecord file id r (Workspace.ids w).2) := by
  rw [commitRecord_eq, ensureText_eq_ok_iff.mpr htext, assignId_of_tracked hid]

theorem mem_dependencyPaths_recordFor {s : Session} {t : FileTree} {stamp : FileStamp}
    {imports : Imports} {p : Path} (h : p ∈ (s.recordFor t stamp imports).dependencyPaths) :
    p ∈ imports.dependencies := by
  rw [CacheRecord.dependencyPaths, CacheRecord.dependencyMap, recordFor,
    CacheRecord.withDependencies] at h
  split at h
  · simp [OrderedMap.keys, OrderedMap.empty] at h
  · rw [Option.getD_some, FileTree.snapshot, OrderedMap.keys_map] at h
    exact PathSet.mem_of_mem_ofList h

/-- The course of a commit: it is turned down at once, its artifact cannot be written, or all of it
is done. -/
inductive CommitCourse (faults : Faults) (s : Session) (file : Path) (specifiers : List String)
    (artifact : Artifact) (w : Workspace) : Except StoreError CommitOutcome × Workspace → Prop where
  | nonText {e : StoreError} (htext : StoreError.ensureText
      (file :: (s.config.resolver.imports w.files file specifiers).dependencies) = .error e) :
      CommitCourse faults s file specifiers artifact w (.error e, w)
  | unreadable {cause : FileError} (hstamp : w.files.stamp file = .error cause) :
      CommitCourse faults s file specifiers artifact w (.error (.io file cause), w)
  | unwritten {e : StoreError} {id : CacheId} {stamp : FileStamp} {w₁ w₂ : Workspace}
      (htext : StoreError.ensureText
        (file :: (s.config.resolver.imports w.files file specifiers).dependencies) = .ok ())
      (hstamp : w.files.stamp file = .ok stamp) (hassign : assignId file w = (.ok id, w₁))
      (hwrite : writeArtifactUnless faults id artifact w₁ = (.error e, w₂)) :
      CommitCourse faults s file specifiers artifact w (.error e, w₂)
  | done {id : CacheId} {stamp : FileStamp} {w₁ w₂ : Workspace}
      (hstamp : w.files.stamp file = .ok stamp) (hassign : assignId file w = (.ok id, w₁))
      (hwrite : writeArtifactUnless faults id artifact w₁ = (.ok (), w₂))
      (hcommit : commitRecord file (s.recordFor w.files stamp
          (s.config.resolver.imports w.files file specifiers)) w₂ =
        (.ok id, replaceRecord file id (s.recordFor w.files stamp
          (s.config.resolver.imports w.files file specifiers)) (Workspace.ids w₂).2)) :
      CommitCourse faults s file specifiers artifact w
        (.ok ⟨id, s.config.resolver.imports w.files file specifiers⟩,
          replaceRecord file id (s.recordFor w.files stamp
            (s.config.resolver.imports w.files file specifiers)) (Workspace.ids w₂).2)

theorem commitCourse (faults : Faults) (s : Session) (file : Path) (specifiers : List String)
    (artifact : Artifact) (w : Workspace) :
    CommitCourse faults s file specifiers artifact w
      (s.commitUnless faults file specifiers artifact w) := by
  rw [commitUnless_eq]
  simp only
  cases htext : StoreError.ensureText
      (file :: (s.config.resolver.imports w.files file specifiers).dependencies) with
  | error e => exact .nonText htext
  | ok u =>
    have hall := ensureText_eq_ok_iff.mp htext
    cases hstamp : w.files.stamp file with
    | error cause => exact .unreadable hstamp
    | ok stamp =>
      obtain ⟨id, w₁, hassign⟩ := exists_assignId_of_text (hall file List.mem_cons_self) w
      simp only [hassign]
      cases hwrite : writeArtifactUnless faults id artifact w₁ with
      | mk r w₂ =>
        cases r with
        | error e => exact .unwritten htext hstamp hassign hwrite
        | ok u =>
          -- with the artifact written nothing is left that can fail
          have hstore : w₂.store = w₁.store := by
            have hbuilds := builds_writeArtifactUnless faults id artifact w₁
            rw [hwrite] at hbuilds
            exact hbuilds.store
          have hcommit := commitRecord_of_tracked (r := s.recordFor w.files stamp
              (s.config.resolver.imports w.files file specifiers))
            (fun p hp => hall p (List.mem_cons_of_mem file (mem_dependencyPaths_recordFor hp)))
            (tracked_of_assignId hassign hstore)
          simp only [hcommit]
          exact .done hstamp hassign hwrite hcommit

/-- How a commit ends, by what it builds beside the id. -/
inductive CommitResult (s : Session) (file : Path) (specifiers : List String)
    (artifact : Artifact) (w : Workspace) : Except StoreError CommitOutcome × Workspace → Prop where
  | rejected (e : StoreError) : CommitResult s file specifiers artifact w (.error e, w)
  | unwritten (e : StoreError) (id : CacheId) (w' : Workspace)
      (hbuilds : Builds (· = id) (assignId file w).2 w') :
      CommitResult s file specifiers artifact w (.error e, w')
  | done (stamp : FileStamp) (id : CacheId) (w' : Workspace)
      (hstamp : w.files.stamp file = .ok stamp)
      (hbuilds : Builds (· = id) (assignId file w).2 w')
      (hartifact : w'.store.artifacts.read? w'.files id = some artifact)
      (hid : w'.current.ids.get? file = some id) :
      CommitResult s file specifiers artifact w
        (.ok ⟨id, s.config.resolver.imports w.files file specifiers⟩,
          replaceRecord file id (s.recordFor w.files stamp
            (s.config.resolver.imports w.files file specifiers)) (Workspace.ids w').2)

theorem commitUnlessResult (faults : Faults) (s : Session) (file : Path)
    (specifiers : List String) (artifact : Artifact) (w : Workspace) :
    CommitResult s file specifiers artifact w
      (s.commitUnless faults file specifiers artifact w) := by
  have hbuilds {id : CacheId} {w₁ w₂ : Workspace} {r : Except StoreError Unit}
      (hassign : assignId file w = (.ok id, w₁))
      (hwrite : writeArtifactUnless faults id artifact w₁ = (r, w₂)) :
      Builds (· = id) (assignId file w).2 w₂ := by
    have hbuilds := builds_writeArtifactUnless faults id artifact w₁
    rwa [hwrite, show w₁ = (assignId file w).2 by rw [hassign]] at hbuilds
  have hcourse := s.commitCourse faults file specifiers artifact w
  generalize s.commitUnless faults file specifiers artifact w = result at hcourse ⊢
  cases hcourse with
  | nonText | unreadable => exact .rejected _
  | unwritten _ _ hassign hwrite => exact .unwritten _ _ _ (hbuilds hassign hwrite)
  | @done id stamp w₁ w₂ hstamp hassign hwrite hcommit =>
    have hread : (writeArtifactUnless faults id artifact w₁).1 = .ok () → _ :=
      read?_writeArtifactUnless
    have hstore := (hbuilds hassign hwrite).store
    rw [hassign] at hstore
    rw [hwrite] at hread
    exact .done stamp id w₂ hstamp (hbuilds hassign hwrite) (hread rfl)
      (tracked_of_assignId hassign hstore)

theorem commitResult (s : Session) (file : Path) (specifiers : List String) (artifact : Artifact)
    (w : Workspace) :
    CommitResult s file specifiers artifact w (s.commit file specifiers artifact w) := by
  rw [← commitUnless_none]
  exact commitUnlessResult .none s file specifiers artifact w

end Session

end BuildCache
