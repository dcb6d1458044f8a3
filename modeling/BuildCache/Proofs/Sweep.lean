import BuildCache.Proofs.Workspace.Repeating

/-!
# What a sweep evicts

On any tables and records a sweep evicts exactly the doomed files, each once and for a cause that
comes before it. Evictions take files of the cache only, so what is gone stays the same meanwhile as
long as no lookup comes by one of these. One that does may find nothing in the second pass where it
found no directory in the first.
-/

namespace BuildCache

open FileTree BuildCache.Path

/-- The first names of a path, up to some, lead into a directory, whether or not further ones lead
out again. -/
def Path.Enters (p dir : Path) : Prop :=
  ∃ k ∈ List.range (p.segments.length + 1),
    (follow [] (p.segments.take k)) ≠ [] ∧
      dir.location <:+ (follow [] (p.segments.take k)).tail

instance (p dir : Path) : Decidable (p.Enters dir) :=
  inferInstanceAs (Decidable (∃ k ∈ _, _ ∧ _))

namespace Workspace

variable {w : Workspace}

/-- No tracked path and no dependency leads into the cache directory. -/
structure Apart (w : Workspace) : Prop where
  files : ∀ p ∈ w.current.ids.keys, ¬Enters p w.store.layout.dir
  dependencies : ∀ p ∈ w.current.dependents.keys, ¬Enters p w.store.layout.dir

instance (w : Workspace) : Decidable w.Apart :=
  decidable_of_iff ((∀ p ∈ w.current.ids.keys, ¬Enters p w.store.layout.dir) ∧
      ∀ p ∈ w.current.dependents.keys, ¬Enters p w.store.layout.dir)
    ⟨fun h => ⟨h.1, h.2⟩, fun h => ⟨h.files, h.dependencies⟩⟩

theorem enters_of_onWay {layout : Layout} {p : Path} (h : layout.OnWay p) :
    p.Enters layout.dir := by
  obtain ⟨s, front, rest, hsegments, hs⟩ := h
  have htake : p.segments.take front.length = front := by rw [hsegments, List.take_left']; rfl
  refine ⟨front.length, ?_, ?_, ?_⟩
  · rw [List.mem_range, hsegments, List.length_append]
    omega
  · rw [htake, hs]
    exact List.cons_ne_nil _ _
  · rw [htake, hs]
    exact s.dir_location_suffix_dir layout

theorem Apart.offCache (h : w.Apart) : w.OffCache :=
  ⟨fun p hp hway => h.files p hp (enters_of_onWay hway),
    fun p hp hway => h.dependencies p hp (enters_of_onWay hway)⟩

end Workspace

/-- A sweep of a cache in any condition evicts exactly the doomed files, each once, and each for a
cause that is gone or was evicted before it. -/
theorem evicted_of_sweep {w : Workspace} {report : SweepReport} (h : w.OffCache)
    (hok : (Workspace.sweep w).1 = .ok report) :
    (report.evicted.Pairwise fun e e' => e.same e' = false) ∧
      (∀ e ∈ report.evicted, ∃ f ∈ w.current.ids.keys, f.same e = true) ∧
      (∀ f ∈ w.current.ids.keys, (∃ e ∈ report.evicted, f.same e = true) ↔
        Books.Doomed (fun p => w.files.exists? p = .ok false) w.current f) ∧
      ∀ before e after, report.evicted = before ++ e :: after →
        Books.Justified (fun p => w.files.exists? p = .ok false) w.current before e := by
  have hreport : report.evicted = (Workspace.sweepOnce (Workspace.ids w).2).1 := by
    rw [Workspace.sweep_eq] at hok
    cases hsave : (Workspace.save (Workspace.swept w).2).1 with
    | error e => simp [hsave, Except.map] at hok
    | ok u =>
      rw [hsave] at hok
      obtain rfl : (Workspace.swept w).1 = report := Except.ok.inj hok
      rw [Workspace.fst_swept h]
  have hoff : (Workspace.ids w).2.OffCache := ⟨h.files, h.dependencies⟩
  have hspec := Workspace.cascading_sweepOnce hoff
  rw [hreport]
  exact ⟨hspec.distinct, fun e he => Books.exists_key_of_contains (hspec.evicted e he),
    fun f hf => hspec.evicted_iff hf, hspec.justified⟩

namespace Chain

def missing : Path := .ofString "/src/a.js"

def middle : Path := .ofString "/src/b.js"

/-- A file that imports itself and the one before. -/
def last : Path := .ofString "/src/c.js"

def record (dependencies : List Path) : CacheRecord :=
  ({ stamp := ⟨.ofBytes [], 0⟩, fingerprint := "" } : CacheRecord).withDependencies
    ((FileTree.empty 0).snapshot (.ofList dependencies))

def store : Store :=
  { layout := ⟨.ofString "/cache"⟩, version := "1", debug := false, unmarked := true }

/-- A cache of three files of which the first is gone. -/
def tracked : Workspace :=
  let files := (((FileTree.empty 0).replace middle []).2.replace last []).2
  let w₁ := (Workspace.commitRecord missing (record []) ⟨files, store⟩).2
  let w₂ := (Workspace.commitRecord middle (record [missing]) w₁).2
  (Workspace.commitRecord last (record [middle, last]) w₂).2

def report : SweepReport := ⟨[missing, middle, last], 2⟩

theorem sweep_tracked : (Workspace.sweep tracked).1 = .ok report := by
  have hreport : (Workspace.sweep tracked).1.toOption = some report := by decide +kernel
  cases h : (Workspace.sweep tracked).1 with
  | error e => simp [h, Except.toOption] at hreport
  | ok r => simpa [h, Except.toOption] using hreport

end Chain

theorem evicted_of_sweep_chain :
    (Workspace.sweep Chain.tracked).1 = .ok Chain.report ∧
      (Chain.report.evicted.Pairwise fun e e' => e.same e' = false) ∧
      (∀ e ∈ Chain.report.evicted, ∃ f ∈ Chain.tracked.current.ids.keys, f.same e = true) ∧
      (∀ f ∈ Chain.tracked.current.ids.keys,
        (∃ e ∈ Chain.report.evicted, f.same e = true) ↔ Books.Doomed
          (fun p => Chain.tracked.files.exists? p = .ok false) Chain.tracked.current f) ∧
      ∀ before e after, Chain.report.evicted = before ++ e :: after → Books.Justified
        (fun p => Chain.tracked.files.exists? p = .ok false) Chain.tracked.current before e :=
  ⟨Chain.sweep_tracked,
    evicted_of_sweep (Workspace.Apart.offCache (by decide +kernel)) Chain.sweep_tracked⟩

namespace Detour

def missing : Path := .ofString "/s/f.js"

/-- Leads through the record of the missing file to `/a/x.js`. -/
def around : Path :=
  .ofString "/a/../cache/files/7441b0631cdd8806023b1f18702cf041.json/../../../a/x.js"

def tracked : Workspace :=
  let files := ((FileTree.empty 0).replace (.ofString "/a/b.js") []).2
  let w₁ := (Workspace.commitRecord missing (Chain.record []) ⟨files, Chain.store⟩).2
  let w₂ := (Workspace.assignId around w₁).2
  (Workspace.save w₂).2

def report : SweepReport := ⟨[missing, around], 3⟩

end Detour

/-- A path outside the cache directory that is not gone and depends on nothing is evicted all the
same: once the first pass took the record it leads through, nothing is found there. -/
theorem evicted_undoomed_of_detour :
    ¬∀ w : Workspace,
      (∀ p ∈ w.current.ids.keys ++ w.current.dependents.keys,
        ¬w.store.layout.dir.location <:+ p.location ∧ p.startsWith w.store.layout.dir = false) →
      ∀ report, (Workspace.sweep w).1 = .ok report →
        ∀ f ∈ report.evicted,
          Books.Doomed (fun p => w.files.exists? p = .ok false) w.current f := by
  intro hall
  have hsweep : (Workspace.sweep Detour.tracked).1 = .ok Detour.report := by
    rw [eq_ok_iff_toOption]
    decide +kernel
  have hdoomed := hall Detour.tracked (by decide +kernel) Detour.report hsweep Detour.around
    (by decide +kernel)
  -- nothing is a dependency, so the path itself would have to be gone before the sweep
  have hkeys : Detour.tracked.current.dependents.keys = [] := by decide +kernel
  cases hdoomed with
  | gone _ hgone => exact absurd hgone (by decide +kernel)
  | dependency _ hy => exact absurd hy (by rw [hkeys]; exact List.not_mem_nil)
  | dependent _ hy => exact absurd hy (by rw [hkeys]; exact List.not_mem_nil)

end BuildCache
