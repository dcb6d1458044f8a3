import BuildCache.Proofs.Sessions
import BuildCache.Proofs.Workspace.Writable

/-!
# Only text is kept

Whatever the paths that are asked for, only text gets into the tables and records, so that a save
never fails on what it has to write. A step that turns a path down leaves everything as it was.
-/

namespace BuildCache

open FileTree TextForm Workspace

/-- All paths in the tables and in the records are text. -/
structure Books.Textual (b : Books) : Prop where
  ids : ∀ p ∈ b.ids.keys, p.IsText
  dependencies : ∀ p ∈ b.dependents.keys, p.IsText
  dependents : ∀ files ∈ b.dependents.values, ∀ p ∈ files.toList, p.IsText
  records : ∀ id r, b.record id = some r → ∀ p ∈ r.dependencyPaths, p.IsText

theorem Store.writable_fresh (layout : Layout) (version : String) (debug unmarked : Bool) :
    (Store.fresh layout version debug unmarked).Writable where
  ids a ha := by cases ha
  dependents a ha := by cases ha
  records := ⟨fun r hr => (by cases hr), fun r hr => (by cases hr)⟩

namespace Workspace

variable {w : Workspace}

theorem textual_ids (h : w.store.Writable) : Textual w.current.ids :=
  h.ids.get PathMap.textual_empty _ _

theorem textual_dependents (h : w.store.Writable) : Textual w.current.dependents :=
  h.dependents.get PathMap.textual_empty _ _

theorem textual_record (h : w.store.Writable) {id : CacheId} {r : CacheRecord}
    (hr : w.current.record id = some r) : Textual r := h.records.get? hr

theorem textual_current (h : w.store.Writable) : w.current.Textual :=
  ⟨(textual_ids h).1, (textual_dependents h).1, (textual_dependents h).2,
    fun _ _ hr => textual_record h hr⟩

theorem isText_of_tracked (h : w.store.Writable) {file : Path} {id : CacheId}
    (hid : w.current.ids.get? file = some id) : file.IsText := by
  refine PathMap.isText_of_contains (textual_ids h) ?_
  rw [OrderedMap.contains, hid]
  rfl

theorem writable_ids (h : w.store.Writable) : (ids w).2.store.Writable :=
  { h with ids := h.ids.load PathMap.textual_empty _ _ }

theorem writable_dependents (h : w.store.Writable) : (dependents w).2.store.Writable :=
  { h with dependents := h.dependents.load PathMap.textual_empty _ _ }

theorem writable_record? (h : w.store.Writable) (id : CacheId) :
    (record? id w).2.store.Writable :=
  { h with records := h.records.load _ _ id }

theorem writable_changeIds (h : w.store.Writable) {change : IdTable → IdTable}
    (hchange : ∀ ids, Textual ids → Textual (change ids)) :
    (changeIds change w).2.store.Writable :=
  { h with ids := h.ids.update PathMap.textual_empty _ _ hchange }

theorem writable_changeDependents (h : w.store.Writable) {change : Dependents → Dependents}
    (hchange : ∀ d, Textual d → Textual (change d)) :
    (changeDependents change w).2.store.Writable :=
  { h with dependents := h.dependents.update PathMap.textual_empty _ _ hchange }

theorem writable_putRecord (h : w.store.Writable) (id : CacheId) {r : CacheRecord}
    (hr : Textual r) : (putRecord id r w).2.store.Writable :=
  { h with records := h.records.insert id hr }

theorem writable_removeRecord (h : w.store.Writable) (id : CacheId) :
    (removeRecord id w).2.store.Writable :=
  { h with records := (h.records.load _ _ id).remove id }

theorem writable_forgetFile (h : w.store.Writable) (file : Path) :
    (forgetFile file w).2.store.Writable := by
  rw [forgetFile_eq]
  split
  · exact writable_changeDependents (writable_dependents h) fun d hd =>
      Dependents.textual_forget hd file
  · exact writable_dependents h

theorem writable_moveFile (h : w.store.Writable) {file : Path} {next : PathSet}
    (hfile : file.IsText) (previous : PathSet) (hnext : Textual next) :
    (moveFile file previous next w).2.store.Writable := by
  rw [moveFile]
  split
  · exact writable_changeDependents h fun d hd => Dependents.textual_update hd hfile hnext
  · exact h

private theorem textual_noPaths : Textual (.empty : PathSet) := fun p hp => (by cases hp)

theorem writable_evict (file : Path) (w : Workspace) (h : w.store.Writable) :
    (evict file w).2.store.Writable := by
  have huntracked : (untrack file w).store.Writable :=
    writable_changeIds (writable_ids h) fun _ hids => PathMap.textual_erase hids file
  cases hid : w.current.ids.get? file with
  | none =>
    rw [evict_of_untracked hid]
    exact huntracked
  | some id =>
    rw [evict_of_tracked hid]
    have hremoved := writable_removeRecord huntracked id
    show (unlist file (w.current.record id) _).store.Writable
    cases w.current.record id with
    | some r => exact writable_moveFile hremoved (isText_of_tracked h hid) _ textual_noPaths
    | none => exact writable_forgetFile hremoved file

theorem evictionClosed_writable :
    EvictionClosed fun w w' => w.store.Writable → w'.store.Writable :=
  .of_dropping (fun _ h => h) (fun h h' hw => h' (h hw)) (fun _ => writable_ids)
    (fun _ => writable_dependents) writable_evict
    fun dependency _ h => writable_changeDependents h fun _ hd =>
      PathMap.textual_erase hd dependency

theorem writable_replaceRecord (h : w.store.Writable) {file : Path} {id : CacheId}
    (hid : w.current.ids.get? file = some id) {r : CacheRecord} (hr : Textual r) :
    (replaceRecord file id r w).store.Writable := by
  have hfile := isText_of_tracked h hid
  have hread := writable_record? h id
  have hset := CacheRecord.textual_dependencySet.mpr hr
  refine writable_putRecord ?_ id hr
  cases w.current.record id with
  | some previous => exact writable_moveFile hread hfile _ hset
  | none => exact writable_moveFile (writable_forgetFile hread file) hfile _ hset

end Workspace

/-- A step fails as it turns a path down, and nothing has changed. -/
structure Workspace.Rejects (e : StoreError) (w w' : Workspace) : Prop where
  path : ∃ p, e = .nonTextPath p ∨ e = .notCached p
  current : w'.current = w.current
  files : w'.files = w.files

/-- A step leaves what can be written. It fails on the files at most, unless it turns a path
down. -/
structure Workspace.Keeps {α : Type} (w : Workspace) (result : Except StoreError α × Workspace) :
    Prop where
  writable : result.2.store.Writable
  failed : ∀ e, result.1 = .error e → e.IsIo ∨ w.Rejects e result.2

namespace Workspace

variable {w w' : Workspace} {α β : Type}

theorem Keeps.ok (h : w'.store.Writable) (a : α) : w.Keeps (.ok a, w') :=
  ⟨h, fun _ he => (by cases he)⟩

theorem Keeps.io (h : w'.store.Writable) {e : StoreError} (he : e.IsIo) :
    w.Keeps ((.error e, w') : Except StoreError α × Workspace) :=
  ⟨h, fun _ he' => .inl (by cases he'; exact he)⟩

theorem Keeps.rejected (h : w'.store.Writable) {e : StoreError} (he : w.Rejects e w') :
    w.Keeps ((.error e, w') : Except StoreError α × Workspace) :=
  ⟨h, fun _ he' => .inr (by cases he'; exact he)⟩

theorem rejects_ensureText {ps : List Path} {e : StoreError}
    (h : StoreError.ensureText ps = .error e) (hcurrent : w'.current = w.current)
    (hfiles : w'.files = w.files) : w.Rejects e w' := by
  rw [StoreError.ensureText] at h
  split at h <;> cases h
  exact ⟨⟨_, .inl rfl⟩, hcurrent, hfiles⟩

theorem isText_of_ensureText {ps : List Path} (h : StoreError.ensureText ps = .ok ()) :
    ∀ p ∈ ps, p.IsText := fun p hp =>
  Path.isText_iff_text?.mpr (Session.ensureText_eq_ok_iff.mp h p hp)

theorem keeps_assignId (h : w.store.Writable) (file : Path) : w.Keeps (assignId file w) := by
  cases hid : w.current.ids.get? file with
  | some id =>
    rw [assignId_of_tracked hid]
    exact .ok (writable_ids h) id
  | none =>
    rw [assignId_of_untracked hid]
    cases htext : StoreError.ensureText [file] with
    | error e => exact .rejected (writable_ids h) (rejects_ensureText htext (current_ids w) rfl)
    | ok u =>
      have hfile := isText_of_ensureText htext file List.mem_cons_self
      exact .ok (writable_changeIds (writable_ids h) fun ids hids =>
        PathMap.textual_insert hids hfile trivial) _

theorem keeps_commitRecord (h : w.store.Writable) (file : Path) (r : CacheRecord) :
    w.Keeps (commitRecord file r w) := by
  rw [commitRecord_eq]
  cases htext : StoreError.ensureText r.dependencyPaths with
  | error e => exact .rejected h (rejects_ensureText htext rfl rfl)
  | ok u =>
    have hassign := keeps_assignId h file
    cases hassigned : assignId file w with
    | mk result w₁ =>
      rw [hassigned] at hassign
      simp only
      cases result with
      | error e => exact ⟨hassign.writable, fun e' he' => hassign.failed e' he'⟩
      | ok id =>
        have hid : w₁.current.ids.get? file = some id := tracked_of_assignId hassigned rfl
        exact .ok (writable_replaceRecord hassign.writable hid (isText_of_ensureText htext)) id

theorem keeps_setDependencies (h : w.store.Writable) (file : Path) (dependencies : PathSet) :
    w.Keeps (setDependencies file dependencies w) := by
  rw [setDependencies_eq]
  cases htext : StoreError.ensureText dependencies.toList with
  | error e => exact .rejected h (rejects_ensureText htext rfl rfl)
  | ok u =>
    simp only
    cases hid : w.current.ids.get? file with
    | none => exact .rejected (writable_ids h) ⟨⟨file, .inr rfl⟩, current_ids w, rfl⟩
    | some id =>
      simp only
      have hread := writable_record? (writable_ids h) id
      cases hr : w.current.record id with
      | none => exact .rejected hread ⟨⟨file, .inr rfl⟩, current_record? id (ids w).2, rfl⟩
      | some r =>
        have hdependencies : Textual dependencies := isText_of_ensureText htext
        have hmoved := writable_moveFile hread (isText_of_tracked h hid) r.dependencySet
          hdependencies
        refine .ok (writable_putRecord hmoved id ?_) ()
        rwa [← CacheRecord.textual_dependencySet, dependencySet_withDependencies]

theorem keeps_commit (h : w.store.Writable) (s : Session) (file : Path) (specifiers : List String)
    (artifact : Artifact) : w.Keeps (s.commit file specifiers artifact w) := by
  have hassigned {id : CacheId} {w₁ w₂ : Workspace} {r : Except StoreError Unit}
      (hassign : assignId file w = (.ok id, w₁))
      (hwrite : writeArtifactUnless .none id artifact w₁ = (r, w₂)) :
      w₂.store.Writable ∧ ∀ e, r = .error e → e.IsIo := by
    have hassigned := (keeps_assignId h file).writable
    obtain ⟨r', t, hartifact⟩ : ∃ r t, w₁.store.artifacts.write w₁.files id artifact = (r, t) :=
      ⟨_, _, rfl⟩
    rw [writeArtifactUnless_none, writeArtifact_eq hartifact] at hwrite
    cases hwrite
    rw [hassign] at hassigned
    refine ⟨hassigned, fun e he => ?_⟩
    subst he
    exact ArtifactStore.isIo_of_write hartifact
  have hcourse := s.commitCourse .none file specifiers artifact w
  rw [Session.commitUnless_none] at hcourse
  generalize s.commit file specifiers artifact w = result at hcourse ⊢
  cases hcourse with
  | nonText htext => exact .rejected h (rejects_ensureText htext rfl rfl)
  | unreadable _ => exact .io h ⟨_, _, rfl⟩
  | @unwritten e _ _ _ _ _ _ hassign hwrite =>
    obtain ⟨hwritable, hio⟩ := hassigned hassign hwrite
    exact .io hwritable (hio e rfl)
  | @done id stamp w₁ w₂ _ hassign hwrite hcommit =>
    have hkept := (keeps_commitRecord (hassigned hassign hwrite).1 file (s.recordFor w.files stamp
      (s.config.resolver.imports w.files file specifiers))).writable
    rw [hcommit] at hkept
    exact .ok hkept _

/-- A save never fails on what it has to write. -/
theorem writable_save (h : w.store.Writable) :
    (save w).2.store.Writable ∧ ∀ e, (save w).1 = .error e → e.IsIo := by
  obtain ⟨r, t, s, hsave⟩ : ∃ r t s, w.store.save w.files = (r, t, s) := ⟨_, _, _, rfl⟩
  have happly : save w = (r, { files := t, store := s }) := by simp only [save, hsave]
  rw [happly]
  exact h.save hsave

theorem keeps_sweep (h : w.store.Writable) : w.Keeps (sweep w) := by
  obtain ⟨hwritable, hio⟩ := writable_save (evictionClosed_writable.swept w h)
  rw [sweep_eq]
  refine ⟨hwritable, fun e he => .inl ?_⟩
  cases hsave : (save (swept w).2).1 with
  | ok u =>
    simp only [hsave] at he
    cases he
  | error e' =>
    simp only [hsave] at he
    cases he
    exact hio e hsave

theorem keeps_collectGarbage (h : w.store.Writable) : w.Keeps (collectGarbage w) := by
  obtain ⟨r, t, hcollect⟩ : ∃ r t, (ids w).2.store.artifacts.collect (ids w).2.files
      (liveIds w).1 = (r, t) := ⟨_, _, rfl⟩
  have happly : collectGarbage w = (r, { (ids w).2 with files := t }) := by
    have heq : collectGarbage w =
        onFiles (fun t => (ids w).2.store.artifacts.collect t (liveIds w).1) (ids w).2 := rfl
    rw [heq, onFiles, hcollect]
  rw [happly]
  refine ⟨writable_ids h, fun e he => .inl ?_⟩
  obtain rfl : r = .error e := he
  exact ArtifactStore.isIo_of_collect hcollect

theorem writable_check (h : w.store.Writable) (fingerprint : Fingerprint) (file : Path) :
    (check fingerprint file w).2.store.Writable := by
  cases hid : w.current.ids.get? file with
  | none =>
    rw [check_of_untracked hid]
    exact writable_ids h
  | some id =>
    rw [check_of_tracked hid]
    exact writable_record? (writable_ids h) id

theorem keeps_reopen (h : w.store.Writable) (version : String) (debug : Bool) :
    w.Keeps (reopen version debug w) := by
  rw [reopen]
  split
  · next s t hopen =>
    obtain ⟨unmarked, rfl, -⟩ := Store.openAt_cases hopen
    exact .ok (Store.writable_fresh _ _ _ _) ()
  · next e t hopen =>
    have hfailed : { w with files := t }.store.Writable := h
    exact .io hfailed (Store.isIo_of_openAt hopen)

theorem Keeps.map {result : Except StoreError α × Workspace} (h : w.Keeps result) (f : α → β) :
    w.Keeps (result.1.map f, result.2) := by
  refine ⟨h.writable, fun e he => h.failed e ?_⟩
  obtain ⟨r, w'⟩ := result
  cases r with
  | ok a => cases he
  | error e' =>
    cases he
    rfl

theorem keeps_run (h : w.store.Writable) (op : Operation) : w.Keeps (op.run w) := by
  cases op with
  | commit s file specifiers artifact => exact (keeps_commit h s file specifiers artifact).map _
  | commitRecord file r => exact (keeps_commitRecord h file r).map _
  | assignId file => exact (keeps_assignId h file).map _
  | setDependencies file dependencies => exact keeps_setDependencies h file dependencies
  | evict file => exact .ok (writable_evict file w h) ()
  | evictDependents dependency =>
    exact .ok (evictionClosed_writable.evictDependents dependency w h) ()
  | sweep => exact (keeps_sweep h).map _
  | collectGarbage => exact (keeps_collectGarbage h).map _
  | save => exact ⟨(writable_save h).1, fun e he => .inl ((writable_save h).2 e he)⟩
  | check s file => exact .ok (writable_check h s.fingerprint file) ()
  | reopen version debug => exact keeps_reopen h version debug
  | edit files =>
    have hedited : { w with files }.store.Writable := h
    exact .ok hedited ()

theorem writable_after (h : w.store.Writable) (ops : List Operation) :
    (w.after ops).store.Writable := by
  induction ops generalizing w with
  | nil => exact h
  | cons op ops ih => exact ih (keeps_run h op).writable

end Workspace

/-- Whatever is on disk at first and whatever paths a run is about, all paths in the tables and
records are text and a save fails on the files at most. A step fails on the files too, or as it
turns a path down and changes nothing. -/
theorem textual_after {t : FileTree} {dir : Path} {version : String} {debug : Bool} {w : Workspace}
    (hopen : Store.openAt t dir version debug = (.ok w.store, w.files)) (ops : List Operation) :
    (w.after ops).current.Textual ∧ (∀ e, (save (w.after ops)).1 = .error e → e.IsIo) ∧
      ∀ (op : Operation) e, (op.run (w.after ops)).1 = .error e →
        e.IsIo ∨ (w.after ops).Rejects e (op.run (w.after ops)).2 := by
  have hstart : w.store.Writable := by
    obtain ⟨unmarked, hfresh, -⟩ := Store.openAt_cases hopen
    rw [hfresh]
    exact Store.writable_fresh _ _ _ _
  have h := writable_after hstart ops
  exact ⟨textual_current h, (writable_save h).2, fun op e he => (keeps_run h op).failed e he⟩

namespace Sample

/-- A path that is not text. -/
def nonText : Path := ⟨[Path.slash, 0xFF]⟩

/-- Steps that are asked for it in every place, with a file that was committed before. -/
def textAndOther : List Operation :=
  [.commit session importer ["./y.js"] { code := "f" }, .assignId nonText,
    .commit session nonText [] { code := "" }, .setDependencies importer (.ofList [nonText]),
    .setDependencies other (.ofList [dependency]), .evictDependents nonText, .save]

end Sample

open Sample

theorem textual_of_textAndOther :
    ((assignId nonText (started cacheDir)).1 = .error (.nonTextPath nonText) ∧
      ((started cacheDir).after textAndOther).current.ids.keys = [importer] ∧
      ((started cacheDir).after textAndOther).current.dependents.keys = [dependency]) ∧
    ((started cacheDir).after textAndOther).current.Textual ∧
      (∀ e, (save ((started cacheDir).after textAndOther)).1 = .error e → e.IsIo) ∧
      ∀ (op : Operation) e, (op.run ((started cacheDir).after textAndOther)).1 = .error e →
        e.IsIo ∨ ((started cacheDir).after textAndOther).Rejects e
          (op.run ((started cacheDir).after textAndOther)).2 :=
  ⟨by decide +kernel, textual_after (openAt_cacheDir _) textAndOther⟩

end BuildCache
