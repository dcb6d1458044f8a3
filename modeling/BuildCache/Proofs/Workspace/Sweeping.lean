import BuildCache.Proofs.Workspace.Saving

/-!
# Sweeps as chains of evictions

Whatever holds across lookups and single evictions, and goes on holding from step to step, holds
across a whole sweep up to its save.
-/

namespace BuildCache.Workspace

theorem evictMissing_cons (file : Path) (rest : List Path) (w : Workspace) :
    evictMissing (file :: rest) w =
      let step := if w.files.isMissing file then evict file w else (false, w)
      let others := evictMissing rest step.2
      (if step.1 then file :: others.1 else others.1, others.2) := by
  have heq : evictMissing (file :: rest) w = (do
      let evicted ← if w.files.isMissing file then evict file else pure false
      let others ← evictMissing rest
      return if evicted then file :: others else others : StateM Workspace (List Path)) w := rfl
  rw [heq]
  cases w.files.isMissing file <;> rfl

theorem evictAll_cons (file : Path) (rest : List Path) (w : Workspace) :
    evictAll (file :: rest) w =
      let others := evictAll rest (evict file w).2
      (if (evict file w).1 then file :: others.1 else others.1, others.2) := rfl

theorem cascade_cons (n : Nat) (y : Path) (pending evicted : List Path) (w : Workspace) :
    cascade (n + 1) ⟨y :: pending, evicted⟩ w =
      let step := evictDependents y w
      cascade n ⟨pending ++ step.1, evicted ++ step.1⟩ step.2 := rfl

theorem sweepOnce_eq (w : Workspace) :
    sweepOnce w =
      let gone := evictMissing w.current.ids.keys (ids w).2
      let missing := gone.2.current.dependents.keys.filter gone.2.files.isMissing
      let pending := gone.1 ++ missing
      let done := cascade (pending.length + gone.2.current.ids.size) ⟨pending, gone.1⟩
        (ids (dependents gone.2).2).2
      (done.1.evicted, done.2) := rfl

theorem sweepPasses_succ (n : Nat) (report : SweepReport) (w : Workspace) :
    sweepPasses (n + 1) report w =
      let once := sweepOnce w
      let report' : SweepReport := ⟨report.evicted ++ once.1, report.passes + 1⟩
      if once.1.isEmpty then (report', once.2) else sweepPasses n report' once.2 := by
  have heq : sweepPasses (n + 1) report w =
      (if (sweepOnce w).1.isEmpty then
          pure ⟨report.evicted ++ (sweepOnce w).1, report.passes + 1⟩
        else sweepPasses n ⟨report.evicted ++ (sweepOnce w).1, report.passes + 1⟩ :
          StateM Workspace SweepReport) (sweepOnce w).2 := rfl
  rw [heq]
  simp only
  split <;> rfl

/-- All the passes of a sweep. -/
def swept (w : Workspace) : SweepReport × Workspace :=
  sweepPasses (w.current.ids.size + 1) ⟨[], 0⟩ (ids w).2

theorem sweepUnless_eq (faults : Faults) (w : Workspace) :
    sweepUnless faults w = ((saveUnless faults (swept w).2).1.map fun _ => (swept w).1,
      (saveUnless faults (swept w).2).2) := by
  rw [sweepUnless, lift_bind_apply, lift_bind_apply, bind_apply, fst_ids, ← swept]
  generalize swept w = passes
  cases h : saveUnless faults passes.2 with
  | mk r w' => cases r <;> rfl

theorem sweep_eq (w : Workspace) :
    sweep w = ((save (swept w).2).1.map fun _ => (swept w).1, (save (swept w).2).2) := by
  rw [← sweepUnless_none, sweepUnless_eq, saveUnless_none]

theorem snd_sweepUnless (faults : Faults) (w : Workspace) :
    (sweepUnless faults w).2 = (saveUnless faults (swept w).2).2 := by rw [sweepUnless_eq]

theorem snd_sweep (w : Workspace) : (sweep w).2 = (save (swept w).2).2 := by rw [sweep_eq]

theorem isOk_sweep (w : Workspace) : (sweep w).1.isOk = (save (swept w).2).1.isOk := by
  rw [sweep_eq]
  cases (save (swept w).2).1 <;> rfl

theorem isOk_save_of_sweep {w : Workspace} (hok : (sweep w).1.isOk = true) :
    (save (swept w).2).1.isOk = true := by
  rwa [isOk_sweep] at hok

/-- A relation between workspaces, and the files evicted between them, that holds across lookups and
evictions and across what is done with them in turn. -/
structure EvictionTrace (R : Workspace → List Path → Workspace → Prop) : Prop where
  refl : ∀ w, R w [] w
  trans : ∀ {w w' w'' files files'}, R w files w' → R w' files' w'' → R w (files ++ files') w''
  ids : ∀ w, R w [] (ids w).2
  dependents : ∀ w, R w [] (dependents w).2
  evict : ∀ file w, R w (if (evict file w).1 then [file] else []) (evict file w).2
  evictDependents : ∀ dependency w,
    R w (evictDependents dependency w).1 (evictDependents dependency w).2

namespace EvictionTrace

variable {R : Workspace → List Path → Workspace → Prop}

/-- It is enough to know what taking out a dependency's entry does. -/
theorem of_dropping (refl : ∀ w, R w [] w)
    (trans : ∀ {w w' w'' files files'}, R w files w' → R w' files' w'' → R w (files ++ files') w'')
    (ids : ∀ w, R w [] (Workspace.ids w).2) (dependents : ∀ w, R w [] (Workspace.dependents w).2)
    (evict : ∀ file w,
      R w (if (Workspace.evict file w).1 then [file] else []) (Workspace.evict file w).2)
    (dropping : ∀ dependency w, R w [] (changeDependents (·.erase dependency) w).2) :
    EvictionTrace R where
  refl := refl
  trans := trans
  ids := ids
  dependents := dependents
  evict := evict
  evictDependents dependency w := by
    have hall (files : List Path) (w : Workspace) : R w (evictAll files w).1 (evictAll files w).2 := by
      induction files generalizing w with
      | nil => exact refl w
      | cons file rest ih =>
        have hboth := trans (evict file w) (ih (Workspace.evict file w).2)
        rw [evictAll_cons]
        split
        · next hevicted => simpa [hevicted] using hboth
        · next hevicted => simpa [hevicted] using hboth
    have hdropped := trans (dependents w) (dropping dependency (Workspace.dependents w).2)
    exact trans hdropped (hall _ _)

theorem evictMissing (h : EvictionTrace R) (files : List Path) (w : Workspace) :
    R w (evictMissing files w).1 (evictMissing files w).2 := by
  induction files generalizing w with
  | nil => exact h.refl w
  | cons file rest ih =>
    rw [evictMissing_cons]
    cases w.files.isMissing file with
    | false => exact ih w
    | true =>
      have hboth := h.trans (h.evict file w) (ih (Workspace.evict file w).2)
      cases hevicted : (Workspace.evict file w).1 <;> simpa [hevicted] using hboth

theorem cascade (h : EvictionTrace R) (n : Nat) (c : Cascade) (w : Workspace) :
    ∃ files, (cascade n c w).1.evicted = c.evicted ++ files ∧ R w files (cascade n c w).2 := by
  induction n generalizing c w with
  | zero => exact ⟨[], (List.append_nil _).symm, h.refl w⟩
  | succ n ih =>
    obtain ⟨pending, evicted⟩ := c
    cases pending with
    | nil => exact ⟨[], (List.append_nil _).symm, h.refl w⟩
    | cons y pending =>
      rw [cascade_cons]
      obtain ⟨files, hevicted, hrest⟩ := ih ⟨pending ++ (Workspace.evictDependents y w).1,
        evicted ++ (Workspace.evictDependents y w).1⟩ (Workspace.evictDependents y w).2
      exact ⟨(Workspace.evictDependents y w).1 ++ files, by rw [hevicted, List.append_assoc],
        h.trans (h.evictDependents y w) hrest⟩

theorem sweepOnce (h : EvictionTrace R) (w : Workspace) :
    R w (sweepOnce w).1 (sweepOnce w).2 := by
  rw [sweepOnce_eq]
  simp only
  have hgone := h.trans (h.ids w) (h.evictMissing w.current.ids.keys (Workspace.ids w).2)
  have hread := h.trans hgone (h.trans (h.dependents _) (h.ids _))
  obtain ⟨files, hevicted, hcascade⟩ := h.cascade _ ⟨_, (Workspace.evictMissing w.current.ids.keys
    (Workspace.ids w).2).1⟩ (Workspace.ids (Workspace.dependents
      (Workspace.evictMissing w.current.ids.keys (Workspace.ids w).2).2).2).2
  have hall := h.trans hread hcascade
  rw [hevicted]
  simpa using hall

theorem sweepPasses (h : EvictionTrace R) (n : Nat) (report : SweepReport) (w : Workspace) :
    ∃ files, (sweepPasses n report w).1.evicted = report.evicted ++ files ∧
      R w files (sweepPasses n report w).2 := by
  induction n generalizing report w with
  | zero => exact ⟨[], (List.append_nil _).symm, h.refl w⟩
  | succ n ih =>
    rw [sweepPasses_succ]
    simp only
    split
    · exact ⟨(Workspace.sweepOnce w).1, rfl, h.sweepOnce w⟩
    · obtain ⟨files, hevicted, hrest⟩ := ih ⟨report.evicted ++ (Workspace.sweepOnce w).1,
        report.passes + 1⟩ (Workspace.sweepOnce w).2
      exact ⟨(Workspace.sweepOnce w).1 ++ files, by rw [hevicted, List.append_assoc],
        h.trans (h.sweepOnce w) hrest⟩

theorem swept (h : EvictionTrace R) (w : Workspace) : R w (swept w).1.evicted (swept w).2 := by
  obtain ⟨files, hevicted, hpasses⟩ :=
    h.sweepPasses (w.current.ids.size + 1) ⟨[], 0⟩ (Workspace.ids w).2
  have hall := h.trans (h.ids w) hpasses
  rw [Workspace.swept, hevicted]
  simpa using hall

end EvictionTrace

/-- A relation that holds across lookups and evictions, whatever is evicted. -/
structure EvictionClosed (R : Workspace → Workspace → Prop) : Prop where
  refl : ∀ w, R w w
  trans : ∀ {w w' w''}, R w w' → R w' w'' → R w w''
  ids : ∀ w, R w (ids w).2
  dependents : ∀ w, R w (dependents w).2
  evict : ∀ file w, R w (evict file w).2
  evictDependents : ∀ dependency w, R w (evictDependents dependency w).2

namespace EvictionClosed

variable {R : Workspace → Workspace → Prop}

theorem trace (h : EvictionClosed R) : EvictionTrace fun w _ w' => R w w' :=
  ⟨h.refl, h.trans, h.ids, h.dependents, h.evict, h.evictDependents⟩

theorem of_dropping (refl : ∀ w, R w w) (trans : ∀ {w w' w''}, R w w' → R w' w'' → R w w'')
    (ids : ∀ w, R w (Workspace.ids w).2) (dependents : ∀ w, R w (Workspace.dependents w).2)
    (evict : ∀ file w, R w (Workspace.evict file w).2)
    (dropping : ∀ dependency w, R w (changeDependents (·.erase dependency) w).2) :
    EvictionClosed R where
  refl := refl
  trans := trans
  ids := ids
  dependents := dependents
  evict := evict
  evictDependents := by
    have htrace : EvictionTrace fun w _ w' => R w w' :=
      .of_dropping refl trans ids dependents evict dropping
    exact htrace.evictDependents

theorem evictMissing (h : EvictionClosed R) (files : List Path) (w : Workspace) :
    R w (evictMissing files w).2 := h.trace.evictMissing files w

theorem sweepOnce (h : EvictionClosed R) (w : Workspace) : R w (sweepOnce w).2 :=
  h.trace.sweepOnce w

theorem swept (h : EvictionClosed R) (w : Workspace) : R w (swept w).2 := h.trace.swept w

end EvictionClosed

theorem evictionClosed_sheds : EvictionClosed Sheds :=
  .of_dropping (fun w => (Inward.refl w).sheds) Sheds.trans (fun w => (inward_ids w).sheds)
    (fun w => (inward_dependents w).sheds) sheds_evict
    fun _ w => (inward_changeDependents _ w).sheds

end BuildCache.Workspace
