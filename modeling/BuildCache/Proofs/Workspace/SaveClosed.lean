import BuildCache.Proofs.Path.Parents
import BuildCache.Proofs.Workspace.Saving

/-!
# What a save does to files

A save makes directories on the way to the cache, replaces files of the layout and writes the
marker. Whatever holds across each of these holds across the save.
-/

namespace BuildCache

open FileTree BuildCache.Path

/-- A relation between trees that holds across the changes a save is made of. -/
structure Layout.SaveClosed (layout : Layout) (R : FileTree → FileTree → Prop) : Prop where
  refl : ∀ t, R t t
  trans : ∀ {t t' t''}, R t t' → R t' t'' → R t t''
  prepare : ∀ {t t' dir r} (s : Slot), (∀ k, OnWay dir.segments k → OnWay (s.dir layout).segments k) →
    t.prepare dir = (r, t') → R t t'
  replace : ∀ {t t' c r} (s : Slot), t.replace (s.path layout) c = (r, t') → R t t'
  write : ∀ {t t' c} (s : Slot), t.write (s.path layout) c = .ok t' → R t t'

namespace Layout.SaveClosed

variable {layout : Layout} {R : FileTree → FileTree → Prop} {t t' : FileTree} {pretty : Bool}

theorem writeJson (hR : layout.SaveClosed R) {α : Type} [JsonForm α] {a : α} {s : Slot}
    {r : Except StoreError Unit} (h : t.writeJson pretty (s.path layout) a = (r, t')) : R t t' := by
  have hparent {prepared : Except StoreError Unit} {t₁ : FileTree}
      (h : t.prepareParent (s.path layout) = (prepared, t₁)) : R t t₁ := by
    rw [prepareParent] at h
    split at h
    · next hparent =>
      refine hR.prepare s (fun k hk => ?_) h
      have hk := hk.mono (segments_parent? hparent)
      rwa [Slot.segments_path, List.dropLast_concat] at hk
    · cases h
      exact hR.refl t
  rw [FileTree.writeJson] at h
  split at h
  · next hprepare =>
    cases h
    exact hparent hprepare
  · next hprepare =>
    split at h
    · cases h
      exact hparent hprepare
    · exact hR.trans (hparent hprepare) (hR.replace s h)

theorem table (hR : layout.SaveClosed R) {α : Type} [JsonForm α] {table table' : Table α}
    {s : Slot} {r : Except StoreError Bool}
    (h : table.save t pretty (s.path layout) = (r, t', table')) : R t t' := by
  rw [Table.save] at h
  split at h
  · split at h <;> next hwrite => cases h; exact hR.writeJson hwrite
  · cases h
    exact hR.refl _

theorem writeAll (hR : layout.SaveClosed R) {entries : List (CacheId × CacheRecord)}
    {table table' : RecordTable} {count : Nat} {r : Except StoreError Nat}
    (h : table.writeAll t pretty layout.files count entries = (r, t', table')) : R t t' := by
  induction entries generalizing t count with
  | nil =>
    cases h
    exact hR.refl _
  | cons e rest ih =>
    obtain ⟨id, record⟩ := e
    rw [RecordTable.writeAll, Slot.path_record] at h
    split at h
    · split at h
      · next hwrite => exact hR.trans (hR.writeJson hwrite) (ih h)
      · next hwrite =>
        cases h
        exact hR.writeJson hwrite
    · exact ih h

theorem saveMarker {s s' : Store} (hR : s.layout.SaveClosed R) {r : Except StoreError Unit}
    (h : s.saveMarker t = (r, t', s')) : R t t' := by
  have hprepared {r : Except StoreError Unit} {t' : FileTree}
      (h : t.prepare s.layout.dir = (r, t')) : R t t' := hR.prepare .marker (fun _ => id) h
  have hmarker {r : Except StoreError Unit} {t' : FileTree} (h : s.writeMarker t = (r, t')) :
      R t t' := by
    rw [Store.writeMarker] at h
    split at h
    · next hprepare =>
      cases h
      exact hprepared hprepare
    · next hprepare =>
      split at h
      · next hwrite =>
        cases h
        rw [Slot.path_marker] at hwrite
        exact hR.trans (hprepared hprepare) (hR.write .marker hwrite)
      · cases h
        exact hprepared hprepare
  rw [Store.saveMarker] at h
  split at h
  · split at h <;> next hwrite => cases h; exact hmarker hwrite
  · cases h
    exact hR.refl _

theorem save {s s' : Store} (hR : s.layout.SaveClosed R) {r : Except StoreError Unit}
    (h : s.save t = (r, t', s')) : R t t' := by
  have hresult := s.saveResult .none t
  rw [Store.saveUnless_none, h] at hresult
  obtain @⟨marked, unmarked, idsSaved, dependentsSaved, recordsSaved, t₁, t₂, t₃, t₄, ids,
    dependents, records, hmarked, hids, hdependents, hrecords⟩ := hresult
  rw [Faults.none_apply, Store.saveMarkerUnless_none] at hmarked
  rw [Faults.none_apply, Table.saveUnless_none] at hids hdependents
  simp only [Faults.none_apply] at hrecords
  rw [RecordTable.saveUnless_none] at hrecords
  exact hR.trans (hR.trans (hR.trans (hR.saveMarker hmarked) (hR.table hids))
    (hR.table hdependents)) (hR.writeAll hrecords)

end Layout.SaveClosed

namespace Workspace

theorem snd_save (w : Workspace) : (save w).2 =
    ⟨(w.store.save w.files).2.1, (w.store.save w.files).2.2⟩ := rfl

theorem files_save {R : FileTree → FileTree → Prop} {w : Workspace}
    (hR : w.store.layout.SaveClosed R) : R w.files (save w).2.files := by
  obtain ⟨r, t, s, hsave⟩ : ∃ r t s, w.store.save w.files = (r, t, s) := ⟨_, _, _, rfl⟩
  rw [snd_save, hsave]
  exact hR.save hsave

end Workspace

end BuildCache
