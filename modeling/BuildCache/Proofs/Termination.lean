import BuildCache.Proofs.Sweep

/-!
# A sweep comes to an end

The steps of a sweep, with no bound on their number: what is pending grows while it is worked off,
and passes follow each other until one evicts nothing. On tables in any condition this has one
outcome, the one that `sweep` computes. Each file that is evicted was tracked and is not any more,
which pays for all that is put among the pending and for every pass but the last.
-/

namespace BuildCache

open FileTree BuildCache.Path

namespace Workspace

variable {w w' : Workspace}

/-- Takes pending dependencies one by one, and puts what is evicted for one behind the others, until
none is pending. -/
inductive Drains : Cascade → Workspace → List Path → Workspace → Prop
  | done {evicted : List Path} {w : Workspace} : Drains ⟨[], evicted⟩ w evicted w
  | next {y : Path} {pending evicted all : List Path} {w w' : Workspace} :
      Drains ⟨pending ++ (evictDependents y w).1, evicted ++ (evictDependents y w).1⟩
        (evictDependents y w).2 all w' →
      Drains ⟨y :: pending, evicted⟩ w all w'

/-- One pass evicts some files: those that are gone, and those for which the dependencies that are
gone or were evicted are worked off. -/
def Pass (w : Workspace) (evicted : List Path) (w' : Workspace) : Prop :=
  let gone := evictMissing w.current.ids.keys (ids w).2
  let missing := gone.2.current.dependents.keys.filter gone.2.files.isMissing
  Drains ⟨gone.1 ++ missing, gone.1⟩ (dependents gone.2).2 evicted w'

/-- Pass follows pass until one evicts nothing. -/
inductive Sweeps : SweepReport → Workspace → SweepReport → Workspace → Prop
  | last {report : SweepReport} {w w' : Workspace} : Pass w [] w' →
      Sweeps report w ⟨report.evicted, report.passes + 1⟩ w'
  | again {report all : SweepReport} {evicted : List Path} {w w' w'' : Workspace} :
      Pass w evicted w' → evicted ≠ [] →
      Sweeps ⟨report.evicted ++ evicted, report.passes + 1⟩ w' all w'' →
      Sweeps report w all w''

theorem Drains.unique {c : Cascade} {evicted evicted' : List Path} {v v' : Workspace}
    (h : Drains c w evicted v) (h' : Drains c w evicted' v') : evicted' = evicted ∧ v' = v := by
  induction h with
  | done => cases h'; exact ⟨rfl, rfl⟩
  | next _ ih =>
    cases h' with
    | next h' => exact ih h'

theorem Sweeps.unique {report all all' : SweepReport} {v v' : Workspace}
    (h : Sweeps report w all v) (h' : Sweeps report w all' v') : all' = all ∧ v' = v := by
  induction h with
  | last hpass =>
    cases h' with
    | last hpass' => exact ⟨rfl, (Drains.unique hpass hpass').2⟩
    | again hpass' hsome => exact absurd (Drains.unique hpass hpass').1 hsome
  | again hpass hsome _ ih =>
    cases h' with
    | last hpass' => exact absurd (Drains.unique hpass' hpass).1 hsome
    | again hpass' _ hrest =>
      obtain ⟨rfl, rfl⟩ := Drains.unique hpass hpass'
      exact ih hrest

/-- A step takes one dependency off the pending ones and replaces tracked files by pending ones. -/
theorem pending_evictDependents (y : Path) (pending : List Path) (w : Workspace) :
    (pending ++ (evictDependents y w).1).length + (evictDependents y w).2.current.ids.size <
      (y :: pending).length + w.current.ids.size := by
  have hsize := evictionTrace_size.evictDependents y w
  rw [List.length_append, List.length_cons]
  omega

theorem drains_cascade {n : Nat} {c : Cascade}
    (hn : c.pending.length + w.current.ids.size ≤ n) :
    Drains c w (cascade n c w).1.evicted (cascade n c w).2 := by
  induction n generalizing c w with
  | zero =>
    obtain ⟨pending, evicted⟩ := c
    obtain rfl : pending = [] := List.eq_nil_of_length_eq_zero (by simp only at hn; omega)
    exact .done
  | succ n ih =>
    obtain ⟨pending, evicted⟩ := c
    cases pending with
    | nil => exact .done
    | cons y pending =>
      have hless := pending_evictDependents y pending w
      rw [cascade_cons]
      exact .next (ih (by simp only at hn ⊢; omega))

theorem exists_drains (c : Cascade) (w : Workspace) : ∃ evicted w', Drains c w evicted w' :=
  ⟨_, _, drains_cascade (Nat.le_refl (c.pending.length + w.current.ids.size))⟩

theorem evictionClosed_idsLoaded :
    EvictionClosed fun w w' =>
      w.store.ids.value.isSome = true → w'.store.ids.value.isSome = true := by
  refine .of_dropping (fun w h => h) (fun h h' => h' ∘ h) (fun w h => rfl) (fun w h => h)
    (fun file w h => ?_) fun _ w h => h
  cases hid : w.current.ids.get? file with
  | none =>
    rw [evict_of_untracked hid]
    rfl
  | some id =>
    have hunlisted := ids_unlist file (w.current.record id) (removeRecord id (untrack file w)).2
    rw [evict_of_tracked hid]
    exact (congrArg (·.value.isSome) hunlisted).trans rfl

theorem pass_sweepOnce (w : Workspace) : Pass w (sweepOnce w).1 (sweepOnce w).2 := by
  have hloaded := evictionClosed_idsLoaded.evictMissing w.current.ids.keys (ids w).2 rfl
  rw [sweepOnce_eq, Pass]
  generalize evictMissing w.current.ids.keys (ids w).2 = gone at hloaded
  have hids : (ids (dependents gone.2).2).2 = (dependents gone.2).2 := snd_ids_of_value hloaded
  simp only
  rw [hids]
  exact drains_cascade (Nat.le_of_eq (by rw [current_dependents]))

theorem sweeps_sweepPasses {n : Nat} {report : SweepReport} (hn : w.current.ids.size < n) :
    Sweeps report w (sweepPasses n report w).1 (sweepPasses n report w).2 := by
  induction n generalizing report w with
  | zero => omega
  | succ n ih =>
    have hpass := pass_sweepOnce w
    have hsize := evictionTrace_size.sweepOnce w
    rw [sweepPasses_succ]
    simp only
    generalize (sweepOnce w).2 = w', (sweepOnce w).1 = evicted at hpass hsize ⊢
    cases evicted with
    | nil =>
      simp only [List.isEmpty_nil, if_true, List.append_nil]
      exact .last hpass
    | cons e evicted =>
      have hless : w'.current.ids.size < n := by
        rw [List.length_cons] at hsize
        omega
      exact .again hpass (List.cons_ne_nil _ _) (ih hless)

theorem Sweeps.passes_le {report all : SweepReport} (h : Sweeps report w all w') :
    all.passes ≤ report.passes + w.current.ids.size + 1 := by
  induction h with
  | last => simp only; omega
  | @again _ _ evicted v v' _ hpass hsome _ ih =>
    obtain ⟨hevicted, hrest⟩ := Drains.unique (pass_sweepOnce v) hpass
    have hsize := evictionTrace_size.sweepOnce v
    have hlength : evicted.length ≠ 0 := by simpa using hsome
    rw [← hevicted, ← hrest] at hsize
    simp only at ih
    omega

/-- A sweep is over after one pass just if that evicts nothing. -/
theorem Sweeps.passes_eq_one_iff {all : SweepReport} (h : Sweeps ⟨[], 0⟩ w all w') :
    all.passes = 1 ↔ all.evicted = [] := by
  have hgrows : ∀ {report all : SweepReport} {w w' : Workspace}, Sweeps report w all w' →
      report.passes < all.passes ∧ ∃ files, all.evicted = report.evicted ++ files := by
    intro report all w w' h
    induction h with
    | last => exact ⟨by simp only; omega, [], (List.append_nil _).symm⟩
    | @again _ _ evicted _ _ _ _ _ _ ih =>
      obtain ⟨hpasses, files, hfiles⟩ := ih
      exact ⟨by simp only at hpasses; omega, evicted ++ files, by rw [hfiles, List.append_assoc]⟩
  cases h with
  | last => simp
  | again _ hsome hrest =>
    obtain ⟨hpasses, files, hfiles⟩ := hgrows hrest
    simp only at hpasses
    refine iff_of_false (by omega) fun hnil => hsome ?_
    rw [hfiles] at hnil
    exact (List.append_eq_nil_iff.mp (List.append_eq_nil_iff.mp hnil).1).2

theorem sweeps_swept (w : Workspace) : Sweeps ⟨[], 0⟩ (ids w).2 (swept w).1 (swept w).2 :=
  sweeps_sweepPasses (Nat.lt_succ_self w.current.ids.size)

end Workspace

/-- On tables and files in any condition, all that becomes pending is worked off and the passes come
to an end, each but the last for a tracked file. If nothing tracked or depended on leads to a file
of the cache or through one, the second pass finds nothing. -/
theorem sweep_terminates (w : Workspace) :
    (∀ c v, ∃ evicted v', Workspace.Drains c v evicted v') ∧
      ∃ report w', (∀ r v, Workspace.Sweeps ⟨[], 0⟩ (Workspace.ids w).2 r v ↔ r = report ∧ v = w') ∧
        Workspace.sweep w =
          ((Workspace.save w').1.map fun _ => report, (Workspace.save w').2) ∧
        report.passes ≤ w.current.ids.size + 1 ∧
        (report.passes = 1 ↔ report.evicted = []) ∧
        (w.OffCache → report.passes = if report.evicted = [] then 1 else 2) := by
  have hsweeps := Workspace.sweeps_swept w
  have hpasses := hsweeps.passes_le
  rw [Workspace.current_ids] at hpasses
  refine ⟨Workspace.exists_drains, (Workspace.swept w).1, (Workspace.swept w).2,
    fun r v => ⟨fun h => hsweeps.unique h, fun ⟨hr, hv⟩ => hr ▸ hv ▸ hsweeps⟩,
    Workspace.sweep_eq w, by simpa using hpasses, hsweeps.passes_eq_one_iff, fun hoff => ?_⟩
  rw [Workspace.fst_swept hoff]

/-- Of three files that go one for the other, the last one depends on itself. -/
theorem sweep_terminates_chain :
    ∃ w', Workspace.Sweeps ⟨[], 0⟩ (Workspace.ids Chain.tracked).2 Chain.report w' ∧
      Chain.report.passes ≤ Chain.tracked.current.ids.size + 1 ∧
      (Chain.report.passes = 1 ↔ Chain.report.evicted = []) ∧
      Chain.report.passes = if Chain.report.evicted = [] then 1 else 2 := by
  have hoff : Chain.tracked.OffCache := Workspace.Apart.offCache (by decide +kernel)
  obtain ⟨-, report, w', houtcome, hsweep, hpasses, hone, htwo⟩ := sweep_terminates Chain.tracked
  have hreport : report = Chain.report := by
    have hok := Chain.sweep_tracked
    rw [hsweep] at hok
    cases hsave : (Workspace.save w').1 with
    | error e => simp [hsave, Except.map] at hok
    | ok u => simpa [hsave, Except.map] using hok
  subst hreport
  exact ⟨w', (houtcome _ w').mpr ⟨rfl, rfl⟩, hpasses, hone, htwo hoff⟩

/-- No lookup of a path through a regular file finds out whether anything is there. Once the file is
evicted, it finds that nothing is, and that is in the second pass. -/
theorem three_passes_of_detour :
    (∀ p ∈ Detour.tracked.current.ids.keys ++ Detour.tracked.current.dependents.keys,
      ¬Detour.tracked.store.layout.dir.location <:+ p.location ∧
        p.startsWith Detour.tracked.store.layout.dir = false) ∧
      (Workspace.sweep Detour.tracked).1 = .ok Detour.report := by
  rw [eq_ok_iff_toOption]
  decide +kernel

end BuildCache
