import BuildCache.Proofs.FileTree.Growth
import BuildCache.Proofs.Sessions
import BuildCache.Proofs.Sweep
import BuildCache.Proofs.Workspace.Passes
import BuildCache.Proofs.Workspace.SaveClosed
import BuildCache.Proofs.Workspace.Sparing

/-!
# What a sweep leaves

A sweep that succeeds leaves a cache at rest: nothing tracked is missing, nothing waits, and another
sweep finds nothing to do. Of the files that it did not evict it takes nothing.
-/

namespace BuildCache

open FileTree

theorem Layout.saveClosed_grows (layout : Layout) : layout.SaveClosed Grows where
  refl := .refl
  trans := .trans
  prepare _ _ h := grows_of_prepare h
  replace _ h := grows_of_replace h
  write _ h := grows_of_write h

theorem Store.save_of_clean {s : Store} (h : s.isDirty = false) (t : FileTree) :
    s.save t = (.ok (), t, s) := by
  simp only [Store.isDirty, Bool.or_eq_false_iff, Bool.not_eq_false'] at h
  obtain ⟨⟨⟨hunmarked, hids⟩, hdependents⟩, hrecords⟩ := h
  have hmarker : s.saveMarker t = (.ok (), t, s) := by simp [saveMarker, hunmarked]
  have hids : s.ids.save t s.debug s.layout.ids = (.ok false, t, s.ids) := by
    simp [Table.save, hids]
  have hdependents : s.dependents.save t s.debug s.layout.dependents =
      (.ok false, t, s.dependents) := by simp [Table.save, hdependents]
  have hempty : s.records.unsaved = .empty :=
    OrderedMap.ext_entries (List.isEmpty_iff.mp hrecords)
  have hrecords : s.records.save t s.debug s.layout.files = (.ok 0, t, s.records) := by
    have hsame : ({ s.records with unsaved := .empty } : RecordTable) = s.records := by
      rw [← hempty]
    rw [RecordTable.save, hsame, hempty]
    rfl
  rw [Store.save, hmarker]
  simp only [hids, hdependents, hrecords]
  rfl

namespace Workspace

variable {w w' : Workspace}

theorem save_of_clean (h : w.store.isDirty = false) : save w = (.ok (), w) := by
  rw [save, Store.save_of_clean h]

theorem Touches.tables_eq (h : Touches w w') (hloaded : w.Loaded) :
    w'.current.ids = w.current.ids ∧ w'.current.dependents = w.current.dependents ∧ w'.Loaded := by
  obtain ⟨ids, hids⟩ := Option.isSome_iff_exists.mp hloaded.ids
  obtain ⟨dependents, hdependents⟩ := Option.isSome_iff_exists.mp hloaded.dependents
  obtain ⟨hids', hdependents'⟩ := h.tables
  refine ⟨?_, ?_, ?_, ?_⟩
  · simp only [current, Table.get, hids', hids]
  · simp only [current, Table.get, hdependents', hdependents]
  · rw [hids', hids]
    rfl
  · rw [hdependents', hdependents]
    rfl

theorem NoneMissing.save (h : w.NoneMissing) (hloaded : w.Loaded) : (save w).2.NoneMissing := by
  obtain ⟨hids, hdependents, -⟩ := (touches_save w).tables_eq hloaded
  have hgrows : Grows w.files (Workspace.save w).2.files :=
    files_save w.store.layout.saveClosed_grows
  have hpresent {p : Path} (hp : w.files.isMissing p = false) :
      (Workspace.save w).2.files.isMissing p = false := by
    have hfound : w.files.exists? p ≠ .ok false := fun heq => by
      rw [isMissing_iff.mpr heq] at hp
      contradiction
    rw [FileTree.isMissing, hgrows.exists? hfound]
    exact hp
  refine ⟨fun p hp => hpresent (h.files p ?_), fun p hp => hpresent (h.dependencies p ?_)⟩
  · rwa [hids] at hp
  · rwa [hdependents] at hp

/-- What a sweep leaves of a file that it did not evict: its id, its edges, and its record and its
artifact if it has them. -/
structure Spared (w w' : Workspace) (f : Path) (id : CacheId) : Prop where
  tracked : w'.current.ids.get? f = some id
  edges : ∀ y, w'.current.dependents.Lists y f ↔ w.current.dependents.Lists y f
  record : ∀ r, w.current.record id = some r → w'.current.record id = some r
  artifact : ∀ a, w.store.artifacts.read? w.files id = some a →
    w'.store.artifacts.read? w'.files id = some a

theorem entry_of_survives {f : Path} {id : CacheId} (hunshared : w.Unshared)
    (hf : w.Survives (swept w).1.evicted f id) :
    (w.store.layout.Settled w.files ∨ (w.current.record id).isSome = true →
      (save (swept w).2).2.current.record id = w.current.record id) ∧
    (w.store.layout.Settled w.files ∨ (w.store.artifacts.read? w.files id).isSome = true →
      (save (swept w).2).2.store.artifacts.read? (save (swept w).2).2.files id =
        w.store.artifacts.read? w.files id) := by
  have hspares := evictionTrace_entries.swept w
  have hsheds := evictionClosed_sheds.swept w
  have htouches := touches_save (swept w).2
  have hrecord := hspares.record hunshared f id hf
  have hartifact : (swept w).2.store.artifacts.read? (swept w).2.files id =
      w.store.artifacts.read? w.files id := by
    have hpart := hspares.files hunshared f id hf
    rw [Store.artifacts, Store.artifacts, hspares.layout, hspares.debug, Slot.read?_artifact,
      Slot.read?_artifact, hpart, hpart]
  have hsettled (h : w.store.layout.Settled w.files) :
      (swept w).2.store.layout.Settled (swept w).2.files := by
    rw [hspares.layout]
    exact hsheds.changes.settled h
  refine ⟨fun hsight => ?_, fun hsight => ?_⟩
  · rw [← hrecord] at hsight ⊢
    exact htouches.record (hsight.imp_left hsettled)
  · rw [← hartifact] at hsight ⊢
    exact htouches.artifact (hsight.imp_left hsettled)

theorem spared_of_survives {f : Path} {id : CacheId} (hunshared : w.Unshared)
    (hf : w.Survives (swept w).1.evicted f id) : Spared w (save (swept w).2).2 f id := by
  obtain ⟨-, hloaded⟩ := noneMissing_swept w
  obtain ⟨hids, hdependents, -⟩ := (touches_save (swept w).2).tables_eq hloaded
  obtain ⟨-, hedges⟩ := evictionTrace_edges.swept w f (by rw [OrderedMap.contains, hf.id]; rfl)
    hf.kept
  obtain ⟨hrecord, hartifact⟩ := entry_of_survives hunshared hf
  refine ⟨?_, fun y => ?_, fun r hr => ?_, fun a ha => ?_⟩
  · rw [hids]
    exact (evictionTrace_entries.swept w).ids f id hf
  · rw [hdependents]
    exact hedges y
  · rw [hrecord (.inr (by rw [hr]; rfl)), hr]
  · rw [hartifact (.inr (by rw [ha]; rfl)), ha]

end Workspace

open Workspace

/-- After a sweep of a cache in which no two files share an id nothing tracked is missing, the files
that were not evicted have all that they had, nothing waits, and one more sweep does nothing. Where
the way to the cache directory is open, or nothing is there, they have no more than before. -/
theorem atRest_of_sweep {w w' : Workspace} {report : SweepReport} (hunshared : w.Unshared)
    (hsweep : sweep w = (.ok report, w')) :
    (∀ p ∈ w'.current.ids.keys ++ w'.current.dependents.keys,
        w'.files.exists? p ≠ .ok false) ∧
      (∀ f id, w.Survives report.evicted f id → Spared w w' f id) ∧
      (w.store.layout.Settled w.files → ∀ f id, w.Survives report.evicted f id →
        w'.current.record id = w.current.record id ∧
          w'.store.artifacts.read? w'.files id = w.store.artifacts.read? w.files id) ∧
      w'.store.isDirty = false ∧ sweep w' = (.ok ⟨[], 1⟩, w') := by
  have hok := isOk_save_of_sweep (w := w) (by rw [hsweep]; rfl)
  obtain ⟨u, hu⟩ := exists_ok_of_isOk hok
  obtain ⟨rfl, rfl⟩ : (swept w).1 = report ∧ (save (swept w).2).2 = w' := by
    rw [sweep_eq, hu] at hsweep
    obtain ⟨hreport, hend⟩ := Prod.mk.inj hsweep
    exact ⟨Except.ok.inj hreport, hend⟩
  obtain ⟨hpresent, hloaded⟩ := noneMissing_swept w
  have hpresent' := hpresent.save hloaded
  obtain ⟨-, -, hloaded'⟩ := (touches_save (swept w).2).tables_eq hloaded
  have hclean := isDirty_save (fun _ => hloaded.ids) (fun _ => hloaded.dependents) hok
  refine ⟨fun p hp hmissing => ?_, fun f id hf => spared_of_survives hunshared hf,
    fun hsettled f id hf => ?_, hclean, ?_⟩
  · have hnone : (save (swept w).2).2.files.isMissing p = false :=
      (List.mem_append.mp hp).elim (hpresent'.files p) (hpresent'.dependencies p)
    rw [isMissing_iff.mpr hmissing] at hnone
    cases hnone
  · obtain ⟨hrecord, hartifact⟩ := entry_of_survives hunshared hf
    exact ⟨hrecord (.inl hsettled), hartifact (.inl hsettled)⟩
  · rw [sweep_eq, swept_of_noneMissing hpresent' hloaded', save_of_clean hclean]
    rfl

namespace Chain

/-- A file that imports nothing but one that is there. -/
def aside : Path := .ofString "/src/d.js"

def base : Path := .ofString "/src/e.js"

def script : Artifact := ⟨"d()", none⟩

/-- The chain beside a file that does not depend on it. -/
def beside : Workspace :=
  let files := ((tracked.files.replace aside []).2.replace base []).2
  let w₁ := (writeArtifact (.forPath aside) script { tracked with files }).2
  (commitRecord aside (record [base]) w₁).2

theorem sweep_beside : (sweep beside).1 = .ok report := by
  have hreport : (sweep beside).1.toOption = some report := by decide +kernel
  cases h : (sweep beside).1 with
  | error e => simp [h, Except.toOption] at hreport
  | ok r => simpa [h, Except.toOption] using hreport

end Chain

theorem atRest_of_sweep_beside :
    sweep Chain.beside = (.ok Chain.report, (sweep Chain.beside).2) ∧
      (∀ p ∈ (sweep Chain.beside).2.current.ids.keys ++
          (sweep Chain.beside).2.current.dependents.keys,
        (sweep Chain.beside).2.files.exists? p ≠ .ok false) ∧
      (Chain.beside.current.record (.forPath Chain.aside)).isSome = true ∧
      Chain.beside.store.artifacts.read? Chain.beside.files (.forPath Chain.aside) =
        some Chain.script ∧
      Spared Chain.beside (sweep Chain.beside).2 Chain.aside (.forPath Chain.aside) ∧
      (sweep Chain.beside).2.current.record (.forPath Chain.aside) =
        Chain.beside.current.record (.forPath Chain.aside) ∧
      (sweep Chain.beside).2.store.isDirty = false ∧
      sweep (sweep Chain.beside).2 = (.ok ⟨[], 1⟩, (sweep Chain.beside).2) := by
  have hfacts : Chain.beside.Unshared ∧
      (Chain.beside.current.record (.forPath Chain.aside)).isSome = true ∧
      Chain.beside.store.artifacts.read? Chain.beside.files (.forPath Chain.aside) =
        some Chain.script ∧
      Chain.beside.current.ids.get? Chain.aside = some (.forPath Chain.aside) ∧
      ∀ e ∈ Chain.report.evicted, Chain.aside.same e = false := by decide +kernel
  obtain ⟨hunshared, hrecord, hartifact, hid, hkept⟩ := hfacts
  have hsweep : sweep Chain.beside = (.ok Chain.report, (sweep Chain.beside).2) := by
    rw [← Chain.sweep_beside]
    exact (Prod.eta _).symm
  obtain ⟨hpresent, hspared, hsame, hclean, hagain⟩ := atRest_of_sweep hunshared hsweep
  have hsettled := settled_of_artifact hartifact
  exact ⟨hsweep, hpresent, hrecord, hartifact, hspared _ _ ⟨hid, hkept⟩,
    (hsame hsettled _ _ ⟨hid, hkept⟩).1, hclean, hagain⟩

namespace Sample

/-- What a session saved, without the directory that the way to it leads through. -/
def outOfSight : FileTree :=
  let w := (started detour).after [.commit session importer [] { code := "first" }, .save]
  (w.files.removeTree (.ofString "/proj")).2

/-- The next session, which only gives the file its id again. -/
def unsighted : Workspace := (assignId importer ⟨outOfSight, (started detour).store⟩).2

end Sample

open Sample in
/-- Where the way to the cache directory is closed, the save at the end of a sweep opens it, and a
file that was not evicted has the record and the artifact of an earlier session. -/
theorem entry_ne_of_closed_way :
    Store.openAt outOfSight detour Session.defaultVersion false =
        (.ok (started detour).store, outOfSight) ∧
      unsighted.Unshared ∧ unsighted.Apart ∧ (sweep unsighted).1 = .ok ⟨[], 1⟩ ∧
      unsighted.Survives [] importer (.forPath importer) ∧
      (recordOf importer unsighted).1 = none ∧ (artifactOf importer unsighted).1 = none ∧
      (recordOf importer (sweep unsighted).2).1.isSome = true ∧
      (artifactOf importer (sweep unsighted).2).1 = some { code := "first" } := by
  have hfacts : Store.openAt outOfSight detour Session.defaultVersion false =
        (.ok (started detour).store, outOfSight) ∧
      unsighted.Unshared ∧ unsighted.Apart ∧ (sweep unsighted).1.toOption = some ⟨[], 1⟩ ∧
      unsighted.current.ids.get? importer = some (.forPath importer) ∧
      (recordOf importer unsighted).1 = none ∧ (artifactOf importer unsighted).1 = none ∧
      (recordOf importer (sweep unsighted).2).1.isSome = true ∧
      (artifactOf importer (sweep unsighted).2).1 = some { code := "first" } := by
    decide +kernel
  obtain ⟨hopen, hunshared, hapart, hsweep, hid, hrest⟩ := hfacts
  exact ⟨hopen, hunshared, hapart, eq_ok_iff_toOption.mpr hsweep, ⟨hid, by simp⟩, hrest⟩

end BuildCache
