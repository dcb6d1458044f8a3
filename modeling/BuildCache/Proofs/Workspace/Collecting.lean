import BuildCache.Proofs.Layout.Clearing
import BuildCache.Proofs.Workspace.Effects
import BuildCache.Session

/-!
# Collecting garbage

A collection leaves alone whatever belongs to an id in use. Of the rest it only takes.
-/

namespace BuildCache.Workspace

open FileTree

/-- Some file has the id. -/
def Live (w : Workspace) (id : CacheId) : Prop := ∃ f, w.current.ids.get? f = some id

/-- Only files of ids that are not in use may be gone. -/
structure Collects (w w' : Workspace) : Prop where
  store : w'.store = (ids w).2.store
  changes : w.store.layout.Changes (fun s => ∃ id part, s = .entry id part ∧ ¬w.Live id)
    w.files w'.files
  shrinks : Shrinks w.files w'.files

private theorem contains_ofList {κ α : Type} [Ord κ] [Std.TransOrd κ] {es : List (κ × α)}
    {e : κ × α} (h : e ∈ es) : (OrderedMap.ofList es).contains e.1 = true := by
  have hfold (es : List (κ × α)) (m : OrderedMap κ α) (k : κ)
      (hk : m.contains k = true ∨ ∃ e ∈ es, e.1 = k) :
      (es.foldl (fun m e => m.insert e.1 e.2) m).contains k = true := by
    induction es generalizing m with
    | nil => simpa using hk
    | cons e es ih =>
      refine ih _ ?_
      rw [OrderedMap.contains_insert]
      rcases hk with hk | ⟨e', he', rfl⟩
      · simp [hk]
      · rcases List.mem_cons.mp he' with rfl | he'
        · simp [Std.ReflCmp.compare_self]
        · exact .inr ⟨e', he', rfl⟩
  exact hfold es .empty e.1 (.inr ⟨e, h, rfl⟩)

theorem mem_liveIds {w : Workspace} {id : CacheId} (h : w.Live id) : id ∈ (liveIds w).1 := by
  obtain ⟨f, hf⟩ := h
  obtain ⟨k, hk, -⟩ := OrderedMap.get?_eq_some_iff.mp hf
  have hvalue : id ∈ w.current.ids.values := List.mem_map_of_mem hk
  have hentry : (id, ()) ∈ w.current.ids.values.map fun id => (id, ()) := List.mem_map_of_mem hvalue
  obtain ⟨id', hid', hcmp⟩ := OrderedMap.contains_iff.mp (contains_ofList hentry)
  obtain rfl : id = id' := CacheId.compare_eq_iff.mp hcmp
  exact hid'

theorem live_of_mem_liveIds {w : Workspace} {id : CacheId} (h : id ∈ (liveIds w).1) : w.Live id := by
  have hlive : ∀ id ∈ (OrderedMap.ofList (w.current.ids.values.map fun id => (id, ()))).keys,
      w.Live id := by
    refine OrderedMap.ofList_induction (P := fun m => ∀ id ∈ m.keys, w.Live id) ?_ ?_
    · intro id hid
      cases hid
    · intro m hm e he id hid
      rcases OrderedMap.eq_or_mem_keys_of_insert hid with rfl | hid
      · obtain ⟨id, hvalue, rfl⟩ := List.mem_map.mp he
        obtain ⟨⟨f, id⟩, hentry, rfl⟩ := List.mem_map.mp hvalue
        exact ⟨f, OrderedMap.get?_of_mem_entries hentry⟩
      · exact hm id hid
  exact hlive id h

theorem collectGarbage_eq (w : Workspace) {r : Except StoreError Nat} {t : FileTree}
    (h : ArtifactStore.collect ⟨w.store.layout.files, w.store.debug⟩ w.files (liveIds w).1 =
      (r, t)) :
    collectGarbage w = (r, { files := t, store := (ids w).2.store }) := by
  have heq : collectGarbage w = onFiles (fun t => ArtifactStore.collect
      ⟨w.store.layout.files, w.store.debug⟩ t (liveIds w).1) (ids w).2 := rfl
  have hfiles : (ids w).2.files = w.files := rfl
  rw [heq, onFiles, hfiles, h]

theorem collects_collectGarbage {w : Workspace} (hh : w.store.layout.Housed w.files) :
    Collects w (collectGarbage w).2 := by
  obtain ⟨r, t, h⟩ : ∃ r t, ArtifactStore.collect ⟨w.store.layout.files, w.store.debug⟩ w.files
      (liveIds w).1 = (r, t) := ⟨_, _, rfl⟩
  obtain ⟨hchanges, hshrinks⟩ := Layout.changes_of_collect hh h
  rw [collectGarbage_eq w h]
  refine ⟨rfl, hchanges.mono ?_, hshrinks⟩
  rintro s ⟨id, part, hs, hid⟩
  exact ⟨id, part, hs, mt mem_liveIds hid⟩

variable {w w' : Workspace}

theorem Collects.setup (h : Collects w w') : SameSetup w w' := by
  constructor <;> rw [h.store] <;> rfl

theorem Collects.readText? (h : Collects w w') (hsettled : w.store.layout.Settled w.files)
    {s : Slot} (hs : ∀ id part, s = .entry id part → w.Live id) :
    w'.files.readText? (s.path w.store.layout) = w.files.readText? (s.path w.store.layout) :=
  h.changes.readText? hsettled (by
    rintro ⟨id, part, heq, hid⟩
    exact hid (hs id part heq))

theorem Collects.of_live (h : Collects w w') (hsettled : w.store.layout.Settled w.files)
    {id : CacheId} (hid : w.Live id) :
    w'.saved.record id = w.saved.record id ∧ w'.current.record id = w.current.record id ∧
      w'.store.artifacts.read? w'.files id = w.store.artifacts.read? w.files id := by
  have hread (part : Part) := h.readText? hsettled (s := .entry id part) (by simp [hid])
  refine ⟨?_, ?_, ?_⟩
  · rw [record_saved, record_saved, h.setup.layout]
    exact readJson?_congr (hread .record)
  · simp only [Workspace.current, h.store]
    show w.store.records.get? w'.files w.store.layout.files id = _
    simp only [RecordTable.get?, Slot.path_record, readJson?_congr (hread .record)]
  · rw [h.store]
    show ArtifactStore.read? ⟨w.store.layout.files, w.store.debug⟩ w'.files id = _
    rw [Store.artifacts, Slot.read?_artifact, Slot.read?_artifact, hread, hread]

theorem Collects.tables (h : Collects w w') (hsettled : w.store.layout.Settled w.files) :
    (w'.saved.ids = w.saved.ids ∧ w'.saved.dependents = w.saved.dependents) ∧
      w'.current.ids = w.current.ids ∧ w'.current.dependents = w.current.dependents := by
  have hids := h.readText? hsettled (s := .ids) (by simp)
  have hdependents := h.readText? hsettled (s := .dependents) (by simp)
  refine ⟨⟨?_, ?_⟩, ?_, ?_⟩
  · simp only [saved, Layout.books, h.setup.layout]
    exact Table.tableAt_congr hids
  · simp only [saved, Layout.books, h.setup.layout]
    exact Table.tableAt_congr hdependents
  · simp only [Workspace.current, h.store]
    rfl
  · simp only [Workspace.current, h.store]
    exact Table.get_congr w.store.dependents hdependents

theorem Collects.records (h : Collects w w') (hsettled : w.store.layout.Settled w.files)
    (id : CacheId) : w'.saved.record id = w.saved.record id ∨ w'.saved.record id = none := by
  rw [record_saved, record_saved, h.setup.layout]
  rcases h.shrinks.contentAt ((Slot.entry id .record).location w.store.layout) with hc | hc
  · exact .inl (readJson?_congr (Slot.readText?_path_congr hsettled (h.changes.settled hsettled) hc))
  · refine .inr ?_
    rw [RecordTable.onDisk, readJson?, Slot.readText?_path_eq_none hc, Option.bind_none]

/-- Where the ids of records in memory are in use, memory stays true to the disk. -/
theorem Collects.linked_of_loaded (h : Collects w w') (hsettled : w.store.layout.Settled w.files)
    {P : CacheId → Prop} (hP : w.Linked P)
    (howned : ∀ id r, P id → w.store.records.loaded.get? id = some (some r) → w.Live id) :
    w'.Linked P := by
  obtain ⟨t, s⟩ := w'
  obtain rfl : s = (ids w).2.store := h.store
  have hlinked : (ids w).2.Linked P := (inward_ids w).linked P hP
  refine hlinked.of_texts (h.readText? hsettled (by simp)) (h.readText? hsettled (by simp))
    hP.waiting fun id hid hnone r hr => ?_
  have hclean := hP.clean id hid hnone r hr
  show r = RecordTable.onDisk w.store.layout t id
  by_cases hlive : w.Live id
  · rw [hclean]
    exact (readJson?_congr (h.readText? hsettled (s := .entry id .record) (by simp [hlive]))).symm
  · have hr : r = none := by
      rw [← Option.not_isSome_iff_eq_none, Option.isSome_iff_exists]
      rintro ⟨r', rfl⟩
      exact hlive (howned id r' hid hr)
    subst hr
    rcases h.records hsettled id with hrecord | hrecord
    · exact hclean.trans hrecord.symm
    · exact hrecord.symm

theorem Collects.linked (h : Collects w w') (hsettled : w.store.layout.Settled w.files)
    {P : CacheId → Prop} (hP : w.Linked P)
    (howned : ∀ id, P id → (w.current.record id).isSome = true → w.Live id) : w'.Linked P := by
  refine h.linked_of_loaded hsettled hP fun id r hid hr => howned id hid ?_
  simp [Workspace.current, RecordTable.get?, hr]

theorem Collects.current (h : Collects w w') (hsettled : w.store.layout.Settled w.files)
    (howned : ∀ id, (w.current.record id).isSome = true → w.Live id) : w'.current = w.current := by
  obtain ⟨-, hids, hdependents⟩ := h.tables hsettled
  refine books_ext hids hdependents fun id => ?_
  by_cases hlive : w.Live id
  · exact (h.of_live hsettled hlive).2.1
  · have hnone : w.current.record id = none := by
      rw [← Option.not_isSome_iff_eq_none]
      exact mt (howned id) hlive
    rw [hnone]
    have hrecords := h.records hsettled id
    have hget : w'.current.record id =
        w.store.records.get? w'.files w.store.layout.files id := by
      rw [Workspace.current, h.store]
      rfl
    simp only [Workspace.current] at hnone
    rw [hget]
    rw [RecordTable.get?] at hnone ⊢
    cases hloaded : w.store.records.loaded.get? id with
    | some record => rwa [hloaded] at hnone
    | none =>
      rw [hloaded] at hnone
      have hsaved : w.saved.record id = none := hnone
      rw [hsaved, or_self, record_saved, h.setup.layout] at hrecords
      exact hrecords

end BuildCache.Workspace
