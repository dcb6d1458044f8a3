import BuildCache.Proofs.Cascade
import BuildCache.Proofs.Workspace.Sweeping
import BuildCache.Proofs.Workspace.Touching
import Mathlib.Data.List.Nodup

/-!
# What evictions and saves leave of other files

Where no two files share an id, an eviction takes nothing of a file that stays tracked, and its
edges in the index stay as well. A save leaves all that is known as it is.
-/

namespace BuildCache.Workspace

open FileTree BuildCache.Path

variable {w w' : Workspace} {evicted : List Path} {f : Path} {id : CacheId}

/-- Different files have different ids. -/
def Unshared (w : Workspace) : Prop := w.current.ids.values.Nodup

instance (w : Workspace) : Decidable w.Unshared := inferInstanceAs (Decidable (List.Nodup _))

theorem Unshared.same (h : w.Unshared) {g : Path} (hf : w.current.ids.get? f = some id)
    (hg : w.current.ids.get? g = some id) : f.same g = true := by
  obtain ⟨k, hk, hfk⟩ := Books.exists_entry hf
  obtain ⟨k', hk', hgk'⟩ := Books.exists_entry hg
  have heq : (k, id) = (k', id) := List.inj_on_of_nodup_map h hk hk' rfl
  rw [← (Prod.mk.inj heq).1] at hgk'
  exact same_trans hfk (same_symm hgk')

/-- The file had the id, and was not evicted. -/
structure Survives (w : Workspace) (evicted : List Path) (f : Path) (id : CacheId) : Prop where
  id : w.current.ids.get? f = some id
  kept : ∀ e ∈ evicted, f.same e = false

/-- What is kept of the files that were not evicted. -/
structure SparesEntries (w : Workspace) (evicted : List Path) (w' : Workspace) : Prop
    extends SameSetup w w' where
  unshared : w.Unshared → w'.Unshared
  ids : ∀ f id, w.Survives evicted f id → w'.current.ids.get? f = some id
  record : w.Unshared → ∀ f id, w.Survives evicted f id →
    w'.current.record id = w.current.record id
  files : w.Unshared → ∀ f id, w.Survives evicted f id → ∀ part,
    w'.files.readText? ((Slot.entry id part).path w.store.layout) =
      w.files.readText? ((Slot.entry id part).path w.store.layout)

theorem Survives.left {evicted' : List Path} (h : w.Survives (evicted ++ evicted') f id) :
    w.Survives evicted f id :=
  ⟨h.id, (List.forall_mem_append.mp h.kept).1⟩

theorem SparesEntries.survives {evicted' : List Path} (h : SparesEntries w evicted w')
    (hf : w.Survives (evicted ++ evicted') f id) : w'.Survives evicted' f id :=
  ⟨h.ids f id hf.left, (List.forall_mem_append.mp hf.kept).2⟩

theorem SparesEntries.trans {w'' : Workspace} {evicted' : List Path} (h : SparesEntries w evicted w')
    (h' : SparesEntries w' evicted' w'') : SparesEntries w (evicted ++ evicted') w'' where
  toSameSetup := h.toSameSetup.trans h'.toSameSetup
  unshared := h'.unshared ∘ h.unshared
  ids f id hf := h'.ids f id (h.survives hf)
  record hu f id hf := (h'.record (h.unshared hu) f id (h.survives hf)).trans
    (h.record hu f id hf.left)
  files hu f id hf part := by
    have hrest := h'.files (h.unshared hu) f id (h.survives hf) part
    rw [h.layout] at hrest
    exact hrest.trans (h.files hu f id hf.left part)

theorem SparesEntries.of_inward (h : Inward w w') (hids : w'.current.ids = w.current.ids)
    (hrecord : w'.current.record = w.current.record) : SparesEntries w [] w' where
  toSameSetup := h.toSameSetup
  unshared hu := by rwa [Unshared, hids]
  ids f id hf := by rw [hids, hf.id]
  record _ f id _ := by rw [hrecord]
  files _ f id _ part := by rw [h.files]

theorem Survives.other {file : Path}
    (h : w.Survives (if (evict file w).1 then [file] else []) f id) : f.same file = false := by
  rw [← Bool.not_eq_true]
  intro hsame
  have hcontains : w.current.ids.contains file = true := by
    rw [OrderedMap.contains, ← Books.get?_same w.current.ids hsame, h.id]
    rfl
  have hother := h.kept file (by simp [fst_evict, hcontains])
  rw [hother] at hsame
  contradiction

theorem sparesEntries_evict (file : Path) (w : Workspace) :
    SparesEntries w (if (evict file w).1 then [file] else []) (evict file w).2 where
  toSameSetup := (sheds_evict file w).toSameSetup
  unshared hu := by
    rw [Unshared, current_evict, Books.ids_evict]
    exact List.Nodup.sublist (List.filter_sublist.map _) hu
  ids f id hf := by
    rw [current_evict, Books.ids_evict, Books.get?_erase_ids, hf.other, hf.id]
    rfl
  record hu f id hf := by
    rw [current_evict, Books.record_evict, if_neg]
    intro hfile
    have hother := hf.other
    rw [hu.same hf.id hfile] at hother
    contradiction
  files hu f id hf part := by
    refine readText?_evict (fun hfile => ?_) part
    have hother := hf.other
    rw [hu.same hf.id hfile] at hother
    contradiction

theorem evictionTrace_entries : EvictionTrace SparesEntries :=
  .of_dropping (fun w => .of_inward (.refl w) rfl rfl) SparesEntries.trans
    (fun w => .of_inward (inward_ids w) rfl rfl) (fun w => .of_inward (inward_dependents w) rfl rfl)
    sparesEntries_evict fun _ w => .of_inward (inward_changeDependents _ w) rfl rfl

/-- The edges of the files that were not evicted are the same. -/
def SparesEdges (w : Workspace) (evicted : List Path) (w' : Workspace) : Prop :=
  ∀ f, w.current.ids.contains f = true → (∀ e ∈ evicted, f.same e = false) →
    w'.current.ids.contains f = true ∧
      ∀ y, w'.current.dependents.Lists y f ↔ w.current.dependents.Lists y f

theorem SparesEdges.trans {w'' : Workspace} {evicted' : List Path} (h : SparesEdges w evicted w')
    (h' : SparesEdges w' evicted' w'') : SparesEdges w (evicted ++ evicted') w'' := by
  intro f hf hkept
  obtain ⟨hkept, hkept'⟩ := List.forall_mem_append.mp hkept
  obtain ⟨hmid, hedges⟩ := h f hf hkept
  obtain ⟨hlast, hedges'⟩ := h' f hmid hkept'
  exact ⟨hlast, fun y => (hedges' y).trans (hedges y)⟩

theorem sparesEdges_evict (file : Path) (w : Workspace) :
    SparesEdges w (if (evict file w).1 then [file] else []) (evict file w).2 := by
  intro f hf hkept
  obtain ⟨id, hid⟩ := Option.isSome_iff_exists.mp hf
  have hother : f.same file = false := Survives.other ⟨hid, hkept⟩
  rw [current_evict, Books.contains_evict, hother, hf]
  exact ⟨rfl, Books.lists_evict_other _ hother⟩

theorem sparesEdges_evictDependents (dependency : Path) (w : Workspace) :
    SparesEdges w (evictDependents dependency w).1 (evictDependents dependency w).2 := by
  obtain ⟨hevicted, hcurrent⟩ := evictDependents_spec dependency w
  intro f hf hkept
  rw [hevicted] at hkept
  have hcontains : (w.current.evictDependents dependency).ids.contains f = true := by
    refine (Books.contains_evictDependents _ _ _).mpr ⟨hf, fun hlists => ?_⟩
    obtain ⟨e, he, hfe⟩ := (Books.exists_mem_evictedUnder hf).mpr hlists
    rw [hkept e he] at hfe
    contradiction
  rw [hcurrent]
  exact ⟨hcontains, Books.lists_evictDependents hcontains⟩

theorem evictionTrace_edges : EvictionTrace SparesEdges where
  refl _ _ hf _ := ⟨hf, fun _ => Iff.rfl⟩
  trans := SparesEdges.trans
  ids _ _ hf _ := ⟨hf, fun _ => Iff.rfl⟩
  dependents _ _ hf _ := ⟨hf, fun _ => Iff.rfl⟩
  evict := sparesEdges_evict
  evictDependents := sparesEdges_evictDependents

/-- What has a record or an artifact in sight lies in a directory whose way is open. -/
theorem settled_of_record {record : CacheRecord} (hunread : w.store.records.loaded.get? id = none)
    (h : w.current.record id = some record) : w.store.layout.Settled w.files := by
  have hread : w.files.readJson? (RecordTable.path w.store.layout.files id) = some record := by
    simpa only [current, RecordTable.get?, hunread] using h
  rw [Slot.path_record, readJson?, Option.bind_eq_some_iff] at hread
  obtain ⟨text, htext, -⟩ := hread
  exact .inl (Slot.open_of_readText? htext)

theorem settled_of_artifact {a : Artifact}
    (h : w.store.artifacts.read? w.files id = some a) : w.store.layout.Settled w.files := by
  rw [Store.artifacts, Slot.read?_artifact, Option.map_eq_some_iff] at h
  obtain ⟨text, htext, -⟩ := h
  exact .inl (Slot.open_of_readText? htext)

theorem Touches.record (h : Touches w w')
    (hsight : w.store.layout.Settled w.files ∨ (w.current.record id).isSome = true) :
    w'.current.record id = w.current.record id := by
  simp only [current, RecordTable.get?, h.loaded, h.layout]
  cases hread : w.store.records.loaded.get? id with
  | some record => rfl
  | none =>
    have hsettled : w.store.layout.Settled w.files := by
      refine hsight.elim (fun h => h) fun hsome => ?_
      obtain ⟨record, hrecord⟩ := Option.isSome_iff_exists.mp hsome
      exact settled_of_record hread hrecord
    simp only [Slot.path_record]
    exact readJson?_congr (h.unread hsettled id hread)

theorem Touches.artifact (h : Touches w w') (hsight : w.store.layout.Settled w.files ∨
      (w.store.artifacts.read? w.files id).isSome = true) :
    w'.store.artifacts.read? w'.files id = w.store.artifacts.read? w.files id := by
  have hsettled : w.store.layout.Settled w.files := by
    refine hsight.elim (fun h => h) fun hsome => ?_
    obtain ⟨a, ha⟩ := Option.isSome_iff_exists.mp hsome
    exact settled_of_artifact ha
  have hpart {part : Part} (hpart : part ≠ .record) :
      w'.files.readText? ((Slot.entry id part).path w.store.layout) =
        w.files.readText? ((Slot.entry id part).path w.store.layout) :=
    h.changes.readText? hsettled fun hrecord => hpart (hrecord id part rfl)
  rw [Store.artifacts, Store.artifacts, h.layout, h.debug, Slot.read?_artifact,
    Slot.read?_artifact, hpart (by simp), hpart (by simp)]

end BuildCache.Workspace
