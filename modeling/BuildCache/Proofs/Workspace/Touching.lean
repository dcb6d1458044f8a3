import BuildCache.Proofs.Workspace.Saving

/-!
# The files that a save touches

Whatever is in memory and however a save ends, it touches the marker, the tables and the records
only. Once the marker does not have to be written any more, it says the version in use.
-/

namespace BuildCache

open FileTree

theorem Table.changes_of_saveUnless {α : Type} [JsonForm α] {table table' : Table α}
    {layout : Layout} {s : Slot} {t t' : FileTree} {pretty : Bool} {fault : Option StoreError}
    {r : Except StoreError Bool}
    (h : table.saveUnless fault t pretty (s.path layout) = (r, t', table')) :
    layout.Changes (· = s) t t' := by
  rw [Table.saveUnless] at h
  split at h
  · split at h
    · next hwrite =>
      cases h
      exact (Slot.changes_of_writeJsonUnless_ok hwrite).1
    · next hwrite =>
      cases h
      exact (Slot.changes_of_writeJsonUnless_error hwrite).mono fun _ => False.elim
  · cases h
    exact .refl _ _ _

namespace RecordTable

variable {layout : Layout} {table table' : RecordTable} {t t' : FileTree} {pretty : Bool}
  {faults : CacheId → Option StoreError} {r : Except StoreError Nat}

theorem WrittenInTurn.changes {entries : List (CacheId × CacheRecord)}
    (h : WrittenInTurn faults pretty layout.files entries t t') :
    layout.Changes (fun s => ∃ e ∈ entries, s = .entry e.1 .record) t t' := by
  induction h with
  | nil => exact .refl _ _ _
  | @cons id record rest _ _ _ hwrite _ ih =>
    rw [Slot.path_record] at hwrite
    have hchanges := (Slot.changes_of_writeJsonUnless_ok hwrite).1
    refine (hchanges.mono fun s hs => ⟨(id, record), List.mem_cons_self, hs⟩).trans (ih.mono ?_)
    rintro s ⟨e, he, hs⟩
    exact ⟨e, List.mem_cons_of_mem _ he, hs⟩

theorem changes_of_saveUnless
    (h : table.saveUnless faults t pretty layout.files = (r, t', table')) :
    layout.Changes (fun s => ∃ id, s = .entry id .record ∧ table.holds id = true) t t' ∧
      table'.loaded = table.loaded := by
  obtain ⟨written, waiting, t₁, hentries, hwritten, hend⟩ := writeAllUnless_cases _ _ h
  have hwrites : layout.Changes (fun s => ∃ id, s = .entry id .record ∧ table.holds id = true)
      t t₁ := by
    refine hwritten.changes.mono ?_
    rintro s ⟨e, he, hs⟩
    have hmem := List.mem_append_left waiting he
    rw [← hentries] at hmem
    exact ⟨e.1, hs, (List.mem_filter.mp hmem).2⟩
  cases hend with
  | all n => exact ⟨hwrites, rfl⟩
  | stopped hwrite =>
    exact ⟨hwrites.trans (Slot.changes_of_writeJsonUnless_error hwrite), rfl⟩

theorem unsaved_of_saveUnless {dir : Path} {n : Nat}
    (h : table.saveUnless faults t pretty dir = (.ok n, t', table')) :
    table'.unsaved = .empty := by
  obtain ⟨written, waiting, t₁, -, -, hend⟩ := writeAllUnless_cases _ _ h
  cases hend
  rfl

end RecordTable

theorem Table.dirty_of_saveUnless {α : Type} [JsonForm α] {table table' : Table α}
    {t t' : FileTree} {pretty written : Bool} {fault : Option StoreError} {p : Path}
    (hloaded : table.dirty = true → table.value.isSome = true)
    (h : table.saveUnless fault t pretty p = (.ok written, t', table')) :
    table'.dirty = false := by
  rw [Table.saveUnless] at h
  split at h
  · split at h
    · cases h
      rfl
    · cases h
  · next hcases =>
    cases h
    rw [← Bool.not_eq_true]
    intro hdirty
    obtain ⟨a, ha⟩ := Option.isSome_iff_exists.mp (hloaded hdirty)
    exact hcases a ha hdirty

theorem Table.value_of_saveUnless {α : Type} [JsonForm α] {table table' : Table α}
    {t t' : FileTree} {pretty : Bool} {fault : Option StoreError} {p : Path}
    {r : Except StoreError Bool} (h : table.saveUnless fault t pretty p = (r, t', table')) :
    table'.value = table.value := by
  rw [Table.saveUnless] at h
  split at h
  · split at h <;> cases h <;> rfl
  · cases h
    rfl

theorem Store.unmarked_of_saveMarkerUnless {fault : Option StoreError} {s s' : Store}
    {t t' : FileTree} (h : s.saveMarkerUnless fault t = (.ok (), t', s')) :
    s'.unmarked = false := by
  rw [saveMarkerUnless] at h
  split at h
  · split at h
    · cases h
      rfl
    · cases h
  · next hmarked =>
    cases h
    exact Bool.eq_false_iff.mpr hmarked

namespace Workspace

/-- What a save may do to the files, and what it leaves of the marker, of the tables and of the
records that were read. -/
structure Touches (w w' : Workspace) : Prop extends SameSetup w w' where
  changes : w.store.layout.Changes (fun s => ∀ id part, s = .entry id part → part = .record)
    w.files w'.files
  tables : w'.store.ids.value = w.store.ids.value ∧
    w'.store.dependents.value = w.store.dependents.value
  loaded : w'.store.records.loaded = w.store.records.loaded
  unread : w.store.layout.Settled w.files → ∀ id, w.store.records.loaded.get? id = none →
    w'.files.readText? ((Slot.entry id .record).path w.store.layout) =
      w.files.readText? ((Slot.entry id .record).path w.store.layout)
  marker : w.store.layout.Settled w.files →
    (w'.store.unmarked = w.store.unmarked ∧ w'.files.readText? (Slot.marker.path w.store.layout) =
      w.files.readText? (Slot.marker.path w.store.layout)) ∨
    (w'.store.unmarked = false ∧
      w'.files.readText? (Slot.marker.path w.store.layout) = some w.store.version)

theorem touches_saveUnless (faults : Faults) (w : Workspace) :
    Touches w (saveUnless faults w).2 := by
  have happly : (saveUnless faults w).2 =
      ⟨(w.store.saveUnless faults w.files).2.1, (w.store.saveUnless faults w.files).2.2⟩ := rfl
  have hresult := w.store.saveResult faults w.files
  rw [happly]
  generalize w.store.saveUnless faults w.files = result at hresult ⊢
  cases hresult with
  | parts hmarked hids hdependents hrecords =>
    have hM := Store.changes_of_saveMarkerUnless hmarked
    have hI := Table.changes_of_saveUnless hids
    have hD := Table.changes_of_saveUnless hdependents
    obtain ⟨hR, hloaded⟩ := RecordTable.changes_of_saveUnless hrecords
    have hparts : w.store.layout.InTurn _ _ _ _ _ :=
      ⟨hM, hI, hD, hR.mono fun s ⟨id, hs, _⟩ => ⟨id, hs⟩⟩
    refine ⟨⟨rfl, rfl, rfl⟩, hparts.changes, ⟨Table.value_of_saveUnless hids,
      Table.value_of_saveUnless hdependents⟩, hloaded, fun hsettled id hunread => ?_,
      fun hsettled => ?_⟩
    · have hsettled₁ := hM.settled hsettled
      have hsettled₂ := hI.settled hsettled₁
      rw [hR.readText? (hD.settled hsettled₂), hD.readText? hsettled₂ (by simp),
        hI.readText? hsettled₁ (by simp), hM.readText? hsettled (by simp)]
      rintro ⟨id', hs, hholds⟩
      cases hs
      simp [RecordTable.holds, hunread] at hholds
    · have htext := hparts.readText?_marker (hM.settled hsettled)
      rcases Store.saveMarkerUnless_cases hmarked with ⟨hsame, hchanges⟩ | ⟨hsame, -, hread⟩
      · have hunmarked := congrArg Store.unmarked hsame
        exact .inl ⟨hunmarked, htext.trans (hchanges.readText? hsettled fun h => h)⟩
      · have hunmarked := congrArg Store.unmarked hsame
        exact .inr ⟨hunmarked, htext.trans hread⟩

theorem touches_save (w : Workspace) : Touches w (save w).2 := by
  rw [← saveUnless_none]
  exact touches_saveUnless .none w

theorem isDirty_saveUnless {faults : Faults} {w : Workspace}
    (hids : w.store.ids.dirty = true → w.store.ids.value.isSome = true)
    (hdependents : w.store.dependents.dirty = true → w.store.dependents.value.isSome = true)
    (hok : (saveUnless faults w).1.isOk = true) :
    (saveUnless faults w).2.store.isDirty = false := by
  have hdone : ∃ u, (w.store.saveUnless faults w.files).1 = .ok u := exists_ok_of_isOk hok
  have hresult := w.store.saveResult faults w.files
  show (w.store.saveUnless faults w.files).2.2.isDirty = false
  generalize w.store.saveUnless faults w.files = result at hdone hresult ⊢
  cases hresult with
  | @parts _ unmarked _ _ _ _ _ _ _ ids dependents records hmarked hids' hdependents' hrecords =>
    obtain ⟨rfl, ⟨b, rfl⟩, ⟨b', rfl⟩, n, rfl⟩ := Store.all_ok hdone
    have hunmarked : unmarked = false := Store.unmarked_of_saveMarkerUnless hmarked
    have hidsClean : ids.dirty = false := Table.dirty_of_saveUnless hids hids'
    have hdependentsClean : dependents.dirty = false :=
      Table.dirty_of_saveUnless hdependents hdependents'
    have hunsaved : records.unsaved = .empty := RecordTable.unsaved_of_saveUnless hrecords
    simp [Store.isDirty, hunmarked, hidsClean, hdependentsClean, hunsaved, OrderedMap.isEmpty,
      OrderedMap.empty]

theorem isDirty_save {w : Workspace}
    (hids : w.store.ids.dirty = true → w.store.ids.value.isSome = true)
    (hdependents : w.store.dependents.dirty = true → w.store.dependents.value.isSome = true)
    (hok : (save w).1.isOk = true) : (save w).2.store.isDirty = false := by
  rw [← saveUnless_none] at hok ⊢
  exact isDirty_saveUnless hids hdependents hok

end Workspace

end BuildCache
