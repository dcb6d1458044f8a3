import BuildCache.Proofs.Workspace.Passes

/-!
# A pass after a pass

Evictions take files of the cache and nothing else, so a lookup that comes by none of these files
ends as before. If that is so of all that is tracked or depended on, a pass finds everything there is
to find.
-/

namespace BuildCache

open FileTree BuildCache.Path

/-- A lookup comes by a file of the cache: the path leads to the file or on from it. -/
def Layout.OnWay (layout : Layout) (p : Path) : Prop :=
  ∃ s : Slot, ∃ front rest, p.segments = front ++ rest ∧ follow [] front = s.location layout

theorem FileTree.SameBut.trans {hidden : Location → Prop} {t t' t'' : FileTree}
    (h : SameBut hidden t t') (h' : SameBut hidden t' t'') : SameBut hidden t t'' :=
  ⟨fun k => (h'.isDirectoryAt k).trans (h.isDirectoryAt k),
    fun k hk => (h'.contentAt k hk).trans (h.contentAt k hk)⟩

namespace Workspace

variable {w w' : Workspace}

theorem isMissing_iff {t : FileTree} {p : Path} :
    t.isMissing p = true ↔ t.exists? p = .ok false := by
  rw [FileTree.isMissing]
  cases t.exists? p with
  | ok found => cases found <;> simp
  | error e => simp

/-- The files differ in those of the cache only. -/
structure SameBeside (w w' : Workspace) : Prop where
  layout : w'.store.layout = w.store.layout
  files : SameBut (fun k => ∃ s : Slot, k = s.location w.store.layout) w.files w'.files

theorem SameBeside.of_inward (h : Inward w w') : SameBeside w w' :=
  ⟨h.layout, by rw [h.files]; exact ⟨fun _ => rfl, fun _ _ => rfl⟩⟩

theorem SameBeside.trans {w'' : Workspace} (h : SameBeside w w') (h' : SameBeside w' w'') :
    SameBeside w w'' :=
  ⟨h'.layout.trans h.layout, h.files.trans (h.layout ▸ h'.files)⟩

theorem SameBeside.exists? (h : SameBeside w w') {p : Path} (hp : ¬w.store.layout.OnWay p) :
    w'.files.exists? p = w.files.exists? p :=
  h.files.exists? fun front rest hsegments ⟨s, hs⟩ => hp ⟨s, front, rest, hsegments, hs⟩

theorem SameBeside.isMissing (h : SameBeside w w') {p : Path} (hp : ¬w.store.layout.OnWay p) :
    w'.files.isMissing p = w.files.isMissing p := by
  rw [FileTree.isMissing, FileTree.isMissing, h.exists? hp]

theorem sameBeside_evict (file : Path) (w : Workspace) : SameBeside w (evict file w).2 := by
  cases h : w.current.ids.get? file with
  | none =>
    rw [evict_of_untracked h]
    exact .of_inward (inward_untrack file w)
  | some id =>
    obtain ⟨hkeeps, hkeeps'⟩ :=
      Slot.keepsDirectories_dropEntry w.store.layout w.store.debug w.files id
    refine ⟨(clears_evict h).layout, ?_⟩
    rw [files_evict h]
    refine ⟨fun k => Bool.eq_iff_iff.mpr ⟨hkeeps' k, hkeeps k⟩, fun k hk => ?_⟩
    exact Slot.contentAt_dropEntry w.store.layout w.store.debug w.files
      fun part hslot => hk ⟨_, hslot⟩

theorem evictionClosed_sameBeside : EvictionClosed SameBeside :=
  .of_dropping (fun w => .of_inward (.refl w)) SameBeside.trans
    (fun w => .of_inward (inward_ids w)) (fun w => .of_inward (inward_dependents w))
    sameBeside_evict fun _ w => .of_inward (inward_changeDependents _ w)

/-- No tracked path and no dependency leads to a file of the cache or through one. -/
structure OffCache (w : Workspace) : Prop where
  files : ∀ p ∈ w.current.ids.keys, ¬w.store.layout.OnWay p
  dependencies : ∀ p ∈ w.current.dependents.keys, ¬w.store.layout.OnWay p

theorem evictMissing_eq {files : List Path} (h : ∀ p ∈ files, ¬w.store.layout.OnWay p) :
    evictMissing files w = evictAll (files.filter w.files.isMissing) w := by
  induction files generalizing w with
  | nil => rfl
  | cons file files ih =>
    obtain ⟨hfile, hfiles⟩ := List.forall_mem_cons.mp h
    rw [evictMissing_cons, List.filter_cons]
    simp only
    split
    · next hmissing =>
      have hsame := sameBeside_evict file w
      have hfilter : files.filter (evict file w).2.files.isMissing =
          files.filter w.files.isMissing :=
        List.filter_congr fun p hp => hsame.isMissing (hfiles p hp)
      have hrest := ih fun p hp => hsame.layout ▸ hfiles p hp
      rw [hrest, hfilter, evictAll_cons]
    · rw [ih hfiles]
      rfl

/-- With enough steps a cascade runs until nothing is pending. -/
theorem cascade_spec {gone : Path → Prop} {b : Books} {n : Nat} {c : Cascade}
    (h : Books.Cascading gone b c w.current) (hn : c.pending.length + w.current.ids.size ≤ n) :
    Books.Cascading gone b ⟨[], (cascade n c w).1.evicted⟩ (cascade n c w).2.current := by
  induction n generalizing c w with
  | zero =>
    obtain ⟨pending, evicted⟩ := c
    obtain rfl : pending = [] := List.eq_nil_of_length_eq_zero (by simp only at hn; omega)
    exact h
  | succ n ih =>
    obtain ⟨pending, evicted⟩ := c
    cases pending with
    | nil => exact h
    | cons y pending =>
      obtain ⟨hevicted, hcurrent⟩ := evictDependents_spec y w
      have hsize := w.current.size_evictDependents y
      rw [cascade_cons]
      simp only [hevicted]
      refine ih ?_ ?_
      · rw [hcurrent]
        exact h.step
      · rw [hcurrent, List.length_append]
        simp only [List.length_cons] at hn
        omega

theorem cascading_sweepOnce (h : w.OffCache) :
    Books.Cascading (fun p => w.files.exists? p = .ok false) w.current ⟨[], (sweepOnce w).1⟩
      (sweepOnce w).2.current := by
  have hfiles : ∀ f, f ∈ w.current.ids.keys.filter w.files.isMissing ↔
      f ∈ w.current.ids.keys ∧ w.files.exists? f = .ok false := by
    intro f
    rw [List.mem_filter, isMissing_iff]
  have hevict : evictMissing w.current.ids.keys (ids w).2 =
      evictAll (w.current.ids.keys.filter w.files.isMissing) (ids w).2 :=
    evictMissing_eq (w := (ids w).2) h.files
  have hsame : SameBeside w (evictMissing w.current.ids.keys (ids w).2).2 :=
    (evictionClosed_sameBeside.ids w).trans (evictionClosed_sameBeside.evictMissing _ _)
  obtain ⟨hgone, hcurrent⟩ :=
    evictAll_spec (w.current.ids.keys.filter w.files.isMissing) (ids w).2
  rw [← hevict, current_ids] at hgone hcurrent
  rw [sweepOnce_eq]
  generalize evictMissing w.current.ids.keys (ids w).2 = first at hgone hcurrent hsame
  have hmissing : ∀ y, y ∈ first.2.current.dependents.keys.filter first.2.files.isMissing ↔
      y ∈ (w.current.evictAll (w.current.ids.keys.filter w.files.isMissing)).dependents.keys ∧
        w.files.exists? y = .ok false := by
    intro y
    rw [List.mem_filter, isMissing_iff, hcurrent]
    refine and_congr_right fun hy => ?_
    rw [hsame.exists? (h.dependencies y (Books.mem_keys_of_evictAll.2 y hy))]
  have hstart := Books.cascading_start hfiles hmissing
  rw [← hcurrent, ← hgone] at hstart
  exact cascade_spec (w := (ids (dependents first.2).2).2) hstart (Nat.le_refl _)

/-- A pass after a pass evicts nothing. -/
theorem sweepOnce_sweepOnce (h : w.OffCache) : (sweepOnce (sweepOnce w).2).1 = [] := by
  have hfirst := cascading_sweepOnce h
  have hsame := evictionClosed_sameBeside.sweepOnce w
  have hfiles (p : Path) (hp : p ∈ (sweepOnce w).2.current.ids.keys) :=
    h.files p (hfirst.fileKeys p hp)
  have hdependencies (p : Path) (hp : p ∈ (sweepOnce w).2.current.dependents.keys) :=
    h.dependencies p (hfirst.dependencyKeys p hp)
  have hoff : (sweepOnce w).2.OffCache :=
    ⟨fun p hp => hsame.layout ▸ hfiles p hp, fun p hp => hsame.layout ▸ hdependencies p hp⟩
  have hsecond := cascading_sweepOnce hoff
  generalize sweepOnce (sweepOnce w).2 = second at hsecond ⊢
  refine List.eq_nil_iff_forall_not_mem.mpr fun e he => ?_
  obtain ⟨f, hf, hfe⟩ := Books.exists_key_of_contains (hsecond.evicted e he)
  have hdoomed := (hsecond.evicted_iff hf).mp ⟨e, he, hfe⟩
  refine hfirst.none_doomed (hdoomed.mono ?_ ?_)
  · exact fun p hp hgone => (hsame.exists? (hfiles p hp)).symm.trans hgone
  · exact fun p hp hgone => (hsame.exists? (hdependencies p hp)).symm.trans hgone

/-- The report of a sweep is that of its first pass, with one more pass if that evicted anything. -/
theorem fst_swept (h : w.OffCache) :
    (swept w).1 = ⟨(sweepOnce (ids w).2).1, if (sweepOnce (ids w).2).1 = [] then 1 else 2⟩ := by
  have hoff : (ids w).2.OffCache := ⟨h.files, h.dependencies⟩
  have hagain := sweepOnce_sweepOnce hoff
  have hsize := evictionTrace_size.sweepOnce (ids w).2
  rw [current_ids] at hsize
  rw [swept, sweepPasses_succ]
  generalize sweepOnce (ids w).2 = first at hagain hsize
  by_cases hnone : first.1 = []
  · simp [hnone]
  · -- a pass that evicted something leaves room for a second one
    have hlength : first.1.length ≠ 0 := by simpa using hnone
    obtain ⟨n, hn⟩ : ∃ n, w.current.ids.size = n + 1 := ⟨w.current.ids.size - 1, by omega⟩
    simp [hnone, hn, sweepPasses_succ, hagain]

end Workspace

end BuildCache
