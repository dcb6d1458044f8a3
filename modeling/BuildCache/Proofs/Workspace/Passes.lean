import BuildCache.Proofs.Cascade
import BuildCache.Proofs.Workspace.Sweeping

/-!
# The last pass of a sweep

What a pass evicts is not tracked any more, so there are enough passes for the last one to evict
nothing. That pass left the files alone and found that nothing is missing.
-/

namespace BuildCache.Workspace

variable {w : Workspace}

/-- Both tables are in memory. -/
structure Loaded (w : Workspace) : Prop where
  ids : w.store.ids.value.isSome = true
  dependents : w.store.dependents.value.isSome = true

/-- No tracked file and no dependency is confirmed absent. -/
structure NoneMissing (w : Workspace) : Prop where
  files : ∀ p ∈ w.current.ids.keys, w.files.isMissing p = false
  dependencies : ∀ p ∈ w.current.dependents.keys, w.files.isMissing p = false

theorem evictionTrace_size :
    EvictionTrace fun w files w' => files.length + w'.current.ids.size ≤ w.current.ids.size := by
  refine .of_dropping (fun w => ?_) ?_ (fun w => ?_) (fun w => ?_) (fun file w => ?_) fun _ w => ?_
  · simp
  · intro w w' w'' files files' h h'
    rw [List.length_append]
    omega
  · simp [current_ids]
  · simp [current_dependents]
  · have hsize := Books.size_evictAll [file] w.current
    rw [fst_evict, current_evict]
    exact hsize
  · simp [current_changeDependents]

theorem exists_last_pass {n : Nat} {report : SweepReport} (hn : w.current.ids.size < n) :
    ∃ v, (sweepPasses n report w).2 = (sweepOnce v).2 ∧ (sweepOnce v).1 = [] := by
  induction n generalizing report w with
  | zero => omega
  | succ n ih =>
    rw [sweepPasses_succ]
    simp only
    split
    · next hnone => exact ⟨w, rfl, List.isEmpty_iff.mp hnone⟩
    · next hsome =>
      have hsize := evictionTrace_size.sweepOnce w
      have hlength : (sweepOnce w).1.length ≠ 0 := by simpa using hsome
      exact ih (by omega)

theorem Table.load_of_value {α : Type} [JsonForm α] [EmptyCollection α] {table : Table α}
    (h : table.value.isSome = true) (t : FileTree) (p : Path) : table.load t p = table := by
  obtain ⟨a, ha⟩ := Option.isSome_iff_exists.mp h
  cases table
  simp_all [Table.load, Table.get]

theorem snd_ids_of_value (h : w.store.ids.value.isSome = true) : (ids w).2 = w := by
  rw [ids, Table.load_of_value h]

theorem Loaded.ids_eq (h : w.Loaded) : (Workspace.ids w).2 = w := snd_ids_of_value h.ids

theorem Loaded.dependents_eq (h : w.Loaded) : (Workspace.dependents w).2 = w := by
  rw [Workspace.dependents, Table.load_of_value h.dependents]

theorem Loaded.changeDependents (h : w.Loaded) (change : Dependents → Dependents) :
    (changeDependents change w).2.Loaded := ⟨h.ids, rfl⟩

theorem Loaded.unlist (h : w.Loaded) (file : Path) (record : Option CacheRecord) :
    (unlist file record w).Loaded := by
  cases record with
  | some r =>
    rw [Workspace.unlist, moveFile]
    cases r.dependencySet.sameKeys .empty
    · exact h.changeDependents _
    · exact h
  | none =>
    rw [Workspace.unlist, forgetFile_eq, h.dependents_eq]
    split
    · exact h.changeDependents _
    · exact h

theorem evictionClosed_loaded : EvictionClosed fun w w' => w.Loaded → w'.Loaded := by
  refine .of_dropping (fun w h => h) (fun h h' => h' ∘ h) (fun w h => ⟨rfl, h.dependents⟩)
    (fun w h => ⟨h.ids, rfl⟩) (fun file w h => ?_) fun _ w h => h.changeDependents _
  have huntracked : (untrack file w).Loaded := ⟨rfl, h.dependents⟩
  cases hid : w.current.ids.get? file with
  | none => rwa [evict_of_untracked hid]
  | some id =>
    rw [evict_of_tracked hid]
    have hremoved : (removeRecord id (untrack file w)).2.Loaded :=
      ⟨huntracked.ids, huntracked.dependents⟩
    have hunlisted := hremoved.unlist file (w.current.record id)
    exact ⟨hunlisted.ids, hunlisted.dependents⟩

theorem evictionTrace_files : EvictionTrace fun w files w' => files = [] → w'.files = w.files := by
  refine .of_dropping (fun w _ => rfl) ?_ (fun w _ => rfl) (fun w _ => rfl) (fun file w h => ?_)
    fun _ w _ => rfl
  · intro w w' w'' files files' h h' hnil
    obtain ⟨hfiles, hfiles'⟩ := List.append_eq_nil_iff.mp hnil
    exact (h' hfiles').trans (h hfiles)
  · cases hid : w.current.ids.get? file with
    | none =>
      rw [evict_of_untracked hid]
      exact (inward_untrack file w).files
    | some id => simp [evict_of_tracked hid] at h

theorem evictMissing_of_nil {files : List Path}
    (htracked : ∀ f ∈ files, w.current.ids.contains f = true)
    (hnil : (evictMissing files w).1 = []) :
    (evictMissing files w).2 = w ∧ ∀ f ∈ files, w.files.isMissing f = false := by
  induction files with
  | nil => exact ⟨rfl, by simp⟩
  | cons file rest ih =>
    obtain ⟨hfile, hrest⟩ := List.forall_mem_cons.mp htracked
    rw [evictMissing_cons] at hnil ⊢
    cases hmissing : w.files.isMissing file with
    | true => simp [hmissing, fst_evict, hfile] at hnil
    | false =>
      rw [hmissing] at hnil
      obtain ⟨hsame, hpresent⟩ := ih hrest hnil
      exact ⟨hsame, List.forall_mem_cons.mpr ⟨hmissing, hpresent⟩⟩

theorem evictMissing_of_present {files : List Path} (h : ∀ f ∈ files, w.files.isMissing f = false) :
    evictMissing files w = ([], w) := by
  induction files with
  | nil => rfl
  | cons file rest ih =>
    obtain ⟨hfile, hrest⟩ := List.forall_mem_cons.mp h
    rw [evictMissing_cons, hfile]
    exact ih hrest

/-- A cascade that evicts nothing has dropped all that was pending from the index. -/
theorem cascade_of_nil {n : Nat} {c : Cascade} (hn : c.pending.length ≤ n)
    (hnil : (cascade n c w).1.evicted = c.evicted) :
    (∀ p ∈ (cascade n c w).2.current.ids.keys, p ∈ w.current.ids.keys) ∧
      ∀ y ∈ (cascade n c w).2.current.dependents.keys,
        y ∈ w.current.dependents.keys ∧ y ∉ c.pending := by
  induction n generalizing c w with
  | zero =>
    obtain ⟨pending, evicted⟩ := c
    obtain rfl : pending = [] := List.eq_nil_of_length_eq_zero (by simpa using hn)
    exact ⟨fun _ => id, fun y hy => ⟨hy, List.not_mem_nil⟩⟩
  | succ n ih =>
    obtain ⟨pending, evicted⟩ := c
    cases pending with
    | nil => exact ⟨fun _ => id, fun y hy => ⟨hy, List.not_mem_nil⟩⟩
    | cons y pending =>
      rw [cascade_cons] at hnil ⊢
      simp only at hnil ⊢
      obtain ⟨files, hevicted, -⟩ := evictionTrace_files.cascade n
        ⟨pending ++ (evictDependents y w).1, evicted ++ (evictDependents y w).1⟩
        (evictDependents y w).2
      have hnone : (evictDependents y w).1 = [] := by
        rw [hevicted, List.append_assoc, List.append_right_eq_self] at hnil
        exact (List.append_eq_nil_iff.mp hnil).1
      rw [hnone, List.append_nil, List.append_nil] at hnil ⊢
      obtain ⟨hids, hdependents⟩ := ih (by simpa using hn) hnil
      rw [(evictDependents_spec y w).2] at hids hdependents
      obtain ⟨hfiles, hkeys⟩ := Books.mem_keys_of_evictDependents (b := w.current) (y := y)
      refine ⟨fun p hp => hfiles p (hids p hp), fun k hk => ?_⟩
      obtain ⟨hkept, hpending⟩ := hdependents k hk
      obtain ⟨hkey, hne⟩ := hkeys k hkept
      exact ⟨hkey, by simp [hne, hpending]⟩

theorem sweepOnce_of_nil (hnil : (sweepOnce w).1 = []) :
    (sweepOnce w).2.NoneMissing ∧ (sweepOnce w).2.Loaded := by
  have hfiles := evictionTrace_files.sweepOnce w hnil
  rw [sweepOnce_eq] at hnil hfiles ⊢
  simp only at hnil hfiles ⊢
  have htracked : ∀ f ∈ w.current.ids.keys, (ids w).2.current.ids.contains f = true :=
    fun f hf => OrderedMap.contains_of_mem_keys hf
  have hevicted := evictMissing_of_nil htracked
  generalize evictMissing w.current.ids.keys (ids w).2 = first at hnil hfiles hevicted ⊢
  obtain ⟨gone, w₁⟩ := first
  obtain ⟨files, hsplit, -⟩ := evictionTrace_files.cascade
    ((gone ++ w₁.current.dependents.keys.filter w₁.files.isMissing).length + w₁.current.ids.size)
    ⟨gone ++ w₁.current.dependents.keys.filter w₁.files.isMissing, gone⟩
    (ids (dependents w₁).2).2
  obtain ⟨rfl, -⟩ := List.append_eq_nil_iff.mp (hsplit.symm.trans hnil)
  obtain ⟨rfl, hpresent⟩ := hevicted rfl
  simp only [List.nil_append] at hnil
  obtain ⟨hids, hdependents⟩ := cascade_of_nil (c := ⟨_, []⟩) (Nat.le_add_right _ _) hnil
  refine ⟨⟨fun p hp => ?_, fun y hy => ?_⟩, ?_⟩
  · rw [hfiles]
    exact hpresent p (hids p hp)
  · obtain ⟨hkey, hpending⟩ := hdependents y hy
    rw [hfiles, ← Bool.not_eq_true]
    intro hmissing
    exact hpending (List.mem_filter.mpr ⟨hkey, hmissing⟩)
  · obtain ⟨-, -, hcascade⟩ := evictionClosed_loaded.trace.cascade _ _ _
    exact hcascade ⟨rfl, rfl⟩

theorem sweepOnce_of_noneMissing (h : w.NoneMissing) (hloaded : w.Loaded) :
    sweepOnce w = ([], w) := by
  have hmissing : w.current.dependents.keys.filter w.files.isMissing = [] :=
    List.filter_eq_nil_iff.mpr fun y hy => by simp [h.dependencies y hy]
  rw [sweepOnce_eq, hloaded.ids_eq, evictMissing_of_present h.files]
  simp only
  rw [hmissing, hloaded.dependents_eq, hloaded.ids_eq]
  cases w.current.ids.size <;> rfl

theorem swept_of_noneMissing (h : w.NoneMissing) (hloaded : w.Loaded) :
    swept w = (⟨[], 1⟩, w) := by
  rw [swept, sweepPasses_succ, hloaded.ids_eq, sweepOnce_of_noneMissing h hloaded]
  rfl

/-- However many passes it takes, a sweep goes on until nothing is missing. -/
theorem noneMissing_swept (w : Workspace) : (swept w).2.NoneMissing ∧ (swept w).2.Loaded := by
  obtain ⟨v, hlast, hnil⟩ : ∃ v, (sweepPasses (w.current.ids.size + 1) ⟨[], 0⟩ (ids w).2).2 =
      (sweepOnce v).2 ∧ (sweepOnce v).1 = [] :=
    exists_last_pass (Nat.lt_succ_self w.current.ids.size)
  rw [swept, hlast]
  exact sweepOnce_of_nil hnil

end BuildCache.Workspace
