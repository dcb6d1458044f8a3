import BuildCache.Proofs.Cascade
import BuildCache.Proofs.Looking
import BuildCache.Proofs.Workspace.Trimming

/-!
# Looking elsewhere

Checks, sweeps and commits look at files, and some of these may be files of the cache. Where the
paths that they look at bypass the corrupt ones, it makes no difference whether these are there.
-/

namespace BuildCache

open FileTree BuildCache.Path

/-- The path leads neither to any of the files nor through one. -/
def Layout.Bypassed (layout : Layout) (S : Slot → Prop) (p : Path) : Prop :=
  Avoids p.segments fun k => ∃ s, S s ∧ k = s.location layout

namespace Workspace

variable {layout : Layout} {S : Slot → Prop} {w w' : Workspace}

/-- What a check of a file looks at: the file and the dependencies of its record. -/
def checked (w : Workspace) (file : Path) : List Path :=
  match (w.current.ids.get? file).bind w.current.record with
  | some record => file :: record.dependencyPaths
  | none => []

namespace Trimmed

private theorem respects_check (fingerprint : Fingerprint) {file : Path}
    (hlooked : ∀ p ∈ w.checked file, layout.Bypassed S p ∧ ¬layout.Holder p.location) :
    Respects (fun v v' => Trimmed layout S v v' ∧ v.current = w.current)
      (Workspace.check fingerprint file) := by
  have hrecordOf : Respects (Trimmed layout S) (recordOf file) := steps.recordOf file
  refine Workspace.respects_check
    (hrecordOf.keeping fun v hv => (current_recordOf file v).trans hv) ?_
  rintro v v' ⟨-, hcurrent⟩ record hrecord u u' ⟨hu, -⟩
  rw [fst_recordOf, hcurrent] at hrecord
  simp only [checked, hrecord] at hlooked
  exact hu.files.lacks.staleReason? fingerprint hlooked

theorem staleFiles (h : Trimmed layout S w w') (fingerprint : Fingerprint) {files : List Path}
    (hlooked : ∀ p ∈ files.flatMap w.checked, layout.Bypassed S p ∧ ¬layout.Holder p.location) :
    Alike (Trimmed layout S) (Workspace.staleFiles fingerprint files w)
      (Workspace.staleFiles fingerprint files w') := by
  have hcheck (file : Path) (hfile : file ∈ files) := respects_check (w := w) fingerprint
    fun p hp => hlooked p (List.mem_flatMap.mpr ⟨file, hfile, hp⟩)
  obtain ⟨hanswer, hrelated, -⟩ := respects_staleFiles fingerprint hcheck ⟨h, rfl⟩
  exact ⟨hanswer, hrelated⟩

theorem check (h : Trimmed layout S w w') (fingerprint : Fingerprint) {file : Path}
    (hlooked : ∀ p ∈ w.checked file, layout.Bypassed S p ∧ ¬layout.Holder p.location) :
    Alike (Trimmed layout S) (Workspace.check fingerprint file w)
      (Workspace.check fingerprint file w') := by
  obtain ⟨hanswer, hrelated, -⟩ := respects_check fingerprint hlooked ⟨h, rfl⟩
  exact ⟨hanswer, hrelated⟩

theorem sweep (h : Trimmed layout S w w')
    (hlooked : ∀ p ∈ w.current.ids.keys ++ w.current.dependents.keys, layout.Bypassed S p) :
    Alike (Trimmed layout S) (Workspace.sweep w) (Workspace.sweep w') := by
  let Within (v : Workspace) : Prop := (∀ k ∈ v.current.ids.keys, k ∈ w.current.ids.keys) ∧
    ∀ k ∈ v.current.dependents.keys, k ∈ w.current.dependents.keys
  have hsteps : Steps (Trimmed layout S) := steps
  have hids : Respects (fun v v' => Trimmed layout S v v' ∧ Within v) ids :=
    hsteps.ids.keeping fun _ hv => hv
  have hevictions : Evictions fun v v' => Trimmed layout S v v' ∧ Within v := {
    ids := hids
    dependents := hsteps.dependents.keeping fun _ hv => hv
    dropDependency := fun dependency => (hsteps.changeDependents _).keeping fun v hv =>
      ⟨hv.1, fun k hk => hv.2 k (OrderedMap.mem_keys_of_mem_keys_filter hk)⟩
    evict := fun file => (hsteps.evict file).keeping fun v hv => by
      obtain ⟨hids, hdependents⟩ := Books.mem_keys_of_evict v.current file
      rw [← current_evict] at hids hdependents
      exact ⟨fun k hk => hv.1 k (hids k hk), fun k hk => hv.2 k (hdependents k hk)⟩ }
  have hpasses := hevictions.sweepPasses fun v v' hv p hp u u' hu =>
    hu.1.files.lacks.isMissing (hlooked p (by
      rw [List.mem_append] at hp ⊢
      exact hp.imp (hv.2.1 p) (hv.2.2 p)))
  have hswept : Alike (fun v v' => Trimmed layout S v v' ∧ Within v) (swept w) (swept w') := by
    rw [swept, swept, h.current]
    exact hpasses _ _ (hids ⟨h, fun _ => id, fun _ => id⟩).related
  have hsaved := hsteps.save hswept.related.1
  rw [sweep_eq, sweep_eq, hswept.answer, hsaved.answer]
  exact ⟨rfl, hsaved.related⟩

/-- A commit ends up elsewhere, and reads none of the files as a manifest. -/
theorem commit (h : Trimmed layout S w w') (s : Session) {file : Path} {specifiers : List String}
    (artifact : Artifact)
    (hmanifests : ∀ p ∈ s.config.resolver.searched w.files file specifiers, ∀ slot, S slot →
      (p.joinString Resolver.manifestName).location ≠ slot.location layout)
    (hlooked : ∀ p ∈ file :: s.config.resolver.targets w.files file specifiers,
      layout.Bypassed S p) :
    Alike (Trimmed layout S) (s.commit file specifiers artifact w)
      (s.commit file specifiers artifact w') := by
  have hlacks := h.files.lacks
  obtain ⟨hfile, htargets⟩ := List.forall_mem_cons.mp hlooked
  refine steps.commit h s file specifiers artifact ?_ (hlacks.stamp hfile) ?_
  · refine s.config.resolver.imports_eq hlacks (fun p hp hgone => ?_) fun p hp hgone =>
      (htargets p hp).location (hlacks.of_gone hgone)
    obtain ⟨slot, hslot, heq⟩ := hlacks.of_gone hgone
    exact hmanifests p hp slot hslot heq
  · rintro _ rfl
    exact hlacks.snapshot fun p hp => htargets p
      (Resolver.mem_targets_of_mem_dependencies (PathSet.mem_of_mem_ofList hp))

theorem setDependencies (h : Trimmed layout S w w') (file : Path) {dependencies : PathSet}
    (hlooked : ∀ p ∈ dependencies.toList, layout.Bypassed S p) :
    Alike (Trimmed layout S) (Workspace.setDependencies file dependencies w)
      (Workspace.setDependencies file dependencies w') :=
  steps.setDependencies file (fun _ _ hv => hv.files.lacks.snapshot hlooked) h

end Trimmed

end Workspace

end BuildCache
