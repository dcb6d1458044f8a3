import BuildCache.Proofs.Workspace.Effects

/-!
# Saving a workspace

A save changes no books. One that succeeds leaves on disk what is known, and one that fails leaves
each part of the disk as it was or as it is known.
-/

namespace BuildCache

open FileTree

theorem exists_ok_of_isOk {ε α : Type} {x : Except ε α} (h : x.isOk = true) : ∃ a, x = .ok a := by
  cases x with
  | ok a => exact ⟨a, rfl⟩
  | error e => cases h

theorem eq_ok_iff_toOption {ε α : Type} {x : Except ε α} {a : α} :
    x = .ok a ↔ x.toOption = some a := by
  cases x <;> simp [Except.toOption]

/-- What a step leaves behind goes with its result. Said of any step, so that no step has to be taken
to see it. -/
theorem eq_mk_of_fst_eq {α β : Type} {x : α × β} {a : α} (h : x.1 = a) : x = (a, x.2) := by
  rw [← h]

namespace Store

theorem changes_of_writeMarkerUnless_ok {fault : Option StoreError} {s : Store}
    {t t' : FileTree} (h : s.writeMarkerUnless fault t = (.ok (), t')) :
    s.layout.Changes (· = .marker) t t' ∧
      t'.readText? (Slot.marker.path s.layout) = some s.version := by
  cases fault with
  | some e => cases h
  | none =>
    rw [writeMarkerUnless, writeMarker] at h
    split at h
    · simp at h
    · next t₁ hprepare =>
      have hprepared : s.layout.Changes (· = .marker) t t₁ :=
        Layout.changes_of_addsDirectories (addsDirectories_prepare hprepare)
      split at h
      · next t₂ hwrite =>
        obtain rfl : t₂ = t' := by simpa using h
        rw [Slot.path_marker] at hwrite
        obtain ⟨hchanges, hread⟩ := Slot.changes_of_write hwrite
        exact ⟨hprepared.trans hchanges, hread⟩
      · simp at h

theorem changes_of_writeMarkerUnless_error {fault : Option StoreError} {s : Store}
    {t t' : FileTree} {e : StoreError} (h : s.writeMarkerUnless fault t = (.error e, t')) :
    s.layout.Changes (fun _ => False) t t' := by
  cases fault with
  | some e' =>
    cases h
    exact .refl _ _ _
  | none =>
    rw [writeMarkerUnless, writeMarker] at h
    split at h
    · next t₁ hprepare =>
      obtain rfl : t₁ = t' := (Prod.mk.inj h).2
      exact Layout.changes_of_addsDirectories (addsDirectories_prepare hprepare)
    · next t₁ hprepare =>
      have hprepared : s.layout.Changes (fun _ => False) t t₁ :=
        Layout.changes_of_addsDirectories (addsDirectories_prepare hprepare)
      split at h
      · simp at h
      · simp only [Prod.mk.injEq] at h
        exact h.2 ▸ hprepared

theorem saveMarkerUnless_cases {fault : Option StoreError} {s s' : Store} {t t' : FileTree}
    {r : Except StoreError Unit} (h : s.saveMarkerUnless fault t = (r, t', s')) :
    (s' = s ∧ s.layout.Changes (fun _ => False) t t') ∨
      (s' = { s with unmarked := false } ∧ s.layout.Changes (· = .marker) t t' ∧
        t'.readText? (Slot.marker.path s.layout) = some s.version) := by
  rw [saveMarkerUnless] at h
  split at h
  · cases hmarker : s.writeMarkerUnless fault t with
    | mk written t₁ =>
      rw [hmarker] at h
      cases written with
      | ok u =>
        simp only [Prod.mk.injEq] at h
        obtain ⟨-, rfl, rfl⟩ := h
        obtain ⟨hchanges, hread⟩ := changes_of_writeMarkerUnless_ok hmarker
        exact .inr ⟨rfl, hchanges, hread⟩
      | error e =>
        simp only [Prod.mk.injEq] at h
        obtain ⟨rfl, rfl, rfl⟩ := h
        exact .inl ⟨rfl, changes_of_writeMarkerUnless_error hmarker⟩
  · simp only [Prod.mk.injEq] at h
    obtain ⟨-, rfl, rfl⟩ := h
    exact .inl ⟨rfl, .refl _ _ _⟩

theorem changes_of_saveMarkerUnless {fault : Option StoreError} {s s' : Store} {t t' : FileTree}
    {r : Except StoreError Unit} (h : s.saveMarkerUnless fault t = (r, t', s')) :
    s.layout.Changes (· = .marker) t t' := by
  rcases saveMarkerUnless_cases h with ⟨-, hchanges⟩ | ⟨-, hchanges, -⟩
  · exact hchanges.mono fun _ => False.elim
  · exact hchanges

end Store

/-- The parts of a save are written one after the other, each to files of its own. -/
structure Layout.InTurn (layout : Layout) (t t₁ t₂ t₃ t' : FileTree) : Prop where
  marker : layout.Changes (· = .marker) t t₁
  ids : layout.Changes (· = .ids) t₁ t₂
  dependents : layout.Changes (· = .dependents) t₂ t₃
  records : layout.Changes (fun s => ∃ id, s = .entry id .record) t₃ t'

namespace Layout.InTurn

variable {layout : Layout} {t t₁ t₂ t₃ t' : FileTree}

theorem changes (h : layout.InTurn t t₁ t₂ t₃ t') :
    layout.Changes (fun s => ∀ id part, s = .entry id part → part = .record) t t' := by
  refine ((h.marker.mono ?_).trans (h.ids.mono ?_)).trans
    ((h.dependents.mono ?_).trans (h.records.mono ?_))
  · rintro s rfl
    simp
  · rintro s rfl
    simp
  · rintro s rfl
    simp
  · rintro s ⟨id, rfl⟩
    simp

/-! What was written for one part is left alone by the next. -/

theorem readText?_dependents (h : layout.InTurn t t₁ t₂ t₃ t') (hsettled : layout.Settled t₃) :
    t'.readText? (Slot.dependents.path layout) = t₃.readText? (Slot.dependents.path layout) :=
  h.records.readText? hsettled (by simp)

theorem readText?_ids (h : layout.InTurn t t₁ t₂ t₃ t') (hsettled : layout.Settled t₂) :
    t'.readText? (Slot.ids.path layout) = t₂.readText? (Slot.ids.path layout) := by
  rw [h.records.readText? (h.dependents.settled hsettled) (by simp),
    h.dependents.readText? hsettled (by simp)]

theorem readText?_marker (h : layout.InTurn t t₁ t₂ t₃ t') (hsettled : layout.Settled t₁) :
    t'.readText? (Slot.marker.path layout) = t₁.readText? (Slot.marker.path layout) := by
  have hsettled₂ := h.ids.settled hsettled
  rw [h.records.readText? (h.dependents.settled hsettled₂) (by simp),
    h.dependents.readText? hsettled₂ (by simp), h.ids.readText? hsettled (by simp)]

end Layout.InTurn

namespace Store

/-- How a save proceeds: the marker comes first, then each part is tried. -/
inductive SaveResult (faults : Faults) (s : Store) (t : FileTree) :
    Except StoreError Unit × FileTree × Store → Prop where
  | parts {marked : Except StoreError Unit} {unmarked : Bool}
      {idsSaved dependentsSaved : Except StoreError Bool} {recordsSaved : Except StoreError Nat}
      {t₁ t₂ t₃ t₄ : FileTree} {ids : Table IdTable} {dependents : Table Dependents}
      {records : RecordTable}
      (hmarked : s.saveMarkerUnless (faults .marker) t = (marked, t₁, { s with unmarked }))
      (hids : s.ids.saveUnless (faults .ids) t₁ s.debug (Slot.ids.path s.layout) =
        (idsSaved, t₂, ids))
      (hdependents : s.dependents.saveUnless (faults .dependents) t₂ s.debug
        (Slot.dependents.path s.layout) = (dependentsSaved, t₃, dependents))
      (hrecords : s.records.saveUnless (fun id => faults (.entry id .record)) t₃ s.debug
        s.layout.files = (recordsSaved, t₄, records)) :
    SaveResult faults s t
      (do marked; let _ ← idsSaved; let _ ← dependentsSaved; let _ ← recordsSaved, t₄,
        { s with unmarked, ids, dependents, records })

theorem saveResult (faults : Faults) (s : Store) (t : FileTree) :
    s.SaveResult faults t (s.saveUnless faults t) := by
  obtain ⟨marked, t₁, s₁, hmarked⟩ :
      ∃ r t₁ s₁, s.saveMarkerUnless (faults .marker) t = (r, t₁, s₁) := ⟨_, _, _, rfl⟩
  obtain ⟨unmarked, rfl⟩ : ∃ unmarked, s₁ = { s with unmarked } := by
    rcases saveMarkerUnless_cases hmarked with ⟨rfl, -⟩ | ⟨rfl, -⟩
    · exact ⟨s₁.unmarked, rfl⟩
    · exact ⟨false, rfl⟩
  obtain ⟨idsSaved, t₂, ids, hids⟩ : ∃ r t ids,
      s.ids.saveUnless (faults .ids) t₁ s.debug s.layout.ids = (r, t, ids) := ⟨_, _, _, rfl⟩
  obtain ⟨dependentsSaved, t₃, dependents, hdependents⟩ : ∃ r t dependents,
      s.dependents.saveUnless (faults .dependents) t₂ s.debug s.layout.dependents =
        (r, t, dependents) := ⟨_, _, _, rfl⟩
  obtain ⟨recordsSaved, t₄, records, hrecords⟩ : ∃ r t records,
      s.records.saveUnless (fun id => faults (.entry id .record)) t₃ s.debug s.layout.files =
        (r, t, records) := ⟨_, _, _, rfl⟩
  simp only [saveUnless, hmarked, hids, hdependents, hrecords]
  exact .parts hmarked (Slot.path_ids s.layout ▸ hids) (Slot.path_dependents s.layout ▸ hdependents)
    hrecords

theorem all_ok {marked : Except StoreError Unit}
    {idsSaved dependentsSaved : Except StoreError Bool} {recordsSaved : Except StoreError Nat}
    (h : ∃ u, (do
      marked
      let _ ← idsSaved
      let _ ← dependentsSaved
      let _ ← recordsSaved : Except StoreError Unit) = .ok u) :
    marked = .ok () ∧ (∃ b, idsSaved = .ok b) ∧ (∃ b, dependentsSaved = .ok b) ∧
      ∃ n, recordsSaved = .ok n := by
  cases marked <;> cases idsSaved <;> cases dependentsSaved <;> cases recordsSaved <;>
    simp_all [bind, Except.bind]

theorem error_of_parts {marked : Except StoreError Unit}
    {idsSaved dependentsSaved : Except StoreError Bool} {recordsSaved : Except StoreError Nat}
    {e : StoreError}
    (h : (do
      marked
      let _ ← idsSaved
      let _ ← dependentsSaved
      let _ ← recordsSaved : Except StoreError Unit) = .error e) :
    marked = .error e ∨ idsSaved = .error e ∨ dependentsSaved = .error e ∨
      recordsSaved = .error e := by
  cases marked <;> cases idsSaved <;> cases dependentsSaved <;> cases recordsSaved <;>
    simp_all [bind, Except.bind, pure, Except.pure]

/-- What a save leaves of a store. -/
structure SaveSteps (s : Store) (t : FileTree) (s' : Store) (t' : FileTree) (done : Prop) :
    Prop where
  setup : s'.layout = s.layout ∧ s'.version = s.version ∧ s'.debug = s.debug
  changes : s.layout.Changes (fun s => ∀ id part, s = .entry id part → part = .record) t t'
  ids : s.ids.Brings (Slot.ids.path s.layout) s'.ids t t' done
  dependents : s.dependents.Brings (Slot.dependents.path s.layout) s'.dependents t t' done
  records : s.records.Brings s.layout s'.records t t' done
  text : t'.readText? (Slot.marker.path s.layout) = t.readText? (Slot.marker.path s.layout) ∨
    t'.readText? (Slot.marker.path s.layout) = some s.version

theorem saveSteps {faults : Faults} {s s' : Store} {t t' : FileTree}
    {r : Except StoreError Unit} (hsettled : s.layout.Settled t)
    (hids : s.ids.Linked (t.tableAt s.layout.ids))
    (hdependents : s.dependents.Linked (t.tableAt s.layout.dependents))
    (hwaiting : s.records.Waiting) (h : s.saveUnless faults t = (r, t', s')) :
    s.SaveSteps t s' t' (∃ u, r = .ok u) := by
  have hresult := s.saveResult faults t
  rw [h] at hresult
  obtain @⟨marked, unmarked, idsSaved, dependentsSaved, recordsSaved, t₁, t₂, t₃, t₄, ids,
    dependents, records, hmarked, hsaveIds, hsaveDependents, hsaveRecords⟩ := hresult
  have hmarker := changes_of_saveMarkerUnless hmarked
  rw [Slot.path_ids] at hids
  rw [Slot.path_dependents] at hdependents
  -- what one part writes is not read by the next
  have hsettled₁ := hmarker.settled hsettled
  have hids₁ := hmarker.readText? hsettled (s := .ids) (by simp)
  have hI := Table.saves_of_saveUnless hsettled₁ (by rwa [Table.tableAt_congr hids₁]) hsaveIds
  have hsettled₂ := hI.changes.settled hsettled₁
  have hdependents₂ : t₂.readText? (Slot.dependents.path s.layout) =
      t.readText? (Slot.dependents.path s.layout) := by
    rw [hI.changes.readText? hsettled₁ (by simp), hmarker.readText? hsettled (by simp)]
  have hD := Table.saves_of_saveUnless hsettled₂ (by rwa [Table.tableAt_congr hdependents₂])
    hsaveDependents
  have hsettled₃ := hD.changes.settled hsettled₂
  have hrecords₃ (id : CacheId) : t₃.readText? ((Slot.entry id .record).path s.layout) =
      t.readText? ((Slot.entry id .record).path s.layout) := by
    rw [hD.changes.readText? hsettled₂ (by simp), hI.changes.readText? hsettled₁ (by simp),
      hmarker.readText? hsettled (by simp)]
  have hR := RecordTable.saves_of_saveUnless hsettled₃ hwaiting hsaveRecords
  have hparts : s.layout.InTurn t t₁ t₂ t₃ t' := ⟨hmarker, hI.changes, hD.changes, hR.changes⟩
  refine ⟨⟨rfl, rfl, rfl⟩, hparts.changes,
    hI.between hids₁ (hparts.readText?_ids hsettled₂) fun hdone => (all_ok hdone).2.1,
    hD.between hdependents₂ (hparts.readText?_dependents hsettled₃) fun hdone =>
      (all_ok hdone).2.2.1,
    hR.after hrecords₃ fun hdone => (all_ok hdone).2.2.2, ?_⟩
  rw [hparts.readText?_marker hsettled₁]
  rcases saveMarkerUnless_cases hmarked with ⟨-, hchanges⟩ | ⟨-, -, hread⟩
  · exact .inl (hchanges.readText? hsettled fun h => h)
  · exact .inr hread

end Store

namespace Workspace

/-- What a save leaves of a workspace whose records agree with the disk for some ids. -/
structure Saves (P : CacheId → Prop) (w w' : Workspace) (done : Prop) : Prop
    extends SameSetup w w' where
  changes : w.store.layout.Changes (fun s => ∀ id part, s = .entry id part → part = .record)
    w.files w'.files
  current : w'.current = w.current
  linked : w'.Linked P
  saved : done → w'.saved.ids = w.current.ids ∧ w'.saved.dependents = w.current.dependents ∧
    ∀ id, P id → w'.saved.record id = w.current.record id
  ids : w'.saved.ids = w.saved.ids ∨ w'.saved.ids = w.current.ids
  records : ∀ id, w'.saved.record id = w.saved.record id ∨
    w'.saved.record id = w.current.record id
  text : w'.files.readText? (Slot.marker.path w.store.layout) =
      w.files.readText? (Slot.marker.path w.store.layout) ∨
    w'.files.readText? (Slot.marker.path w.store.layout) = some w.store.version

theorem saves_saveUnless (faults : Faults) {P : CacheId → Prop} {w : Workspace}
    (hsettled : w.store.layout.Settled w.files) (h : w.Linked P) :
    Saves P w (saveUnless faults w).2 (∃ u, (saveUnless faults w).1 = .ok u) := by
  obtain ⟨r, t', s', hsave⟩ : ∃ r t' s', w.store.saveUnless faults w.files = (r, t', s') :=
    ⟨_, _, _, rfl⟩
  have heq : saveUnless faults w = (r, ⟨t', s'⟩) := by
    rw [saveUnless, hsave]
  obtain ⟨⟨hlayout, hversion, hdebug⟩, hchanges, hI, hD, hR, htext⟩ :=
    Store.saveSteps hsettled h.ids h.dependents h.waiting hsave
  have hids : (saved ⟨t', s'⟩).ids = t'.tableAt w.store.layout.ids := by rw [← hlayout]; rfl
  have hdependents : (saved ⟨t', s'⟩).dependents = t'.tableAt w.store.layout.dependents := by
    rw [← hlayout]
    rfl
  have hrecord (id : CacheId) :
      (saved ⟨t', s'⟩).record id = RecordTable.onDisk w.store.layout t' id := by
    rw [record_saved, hlayout]
  have hcurrent : current ⟨t', s'⟩ = w.current := by
    rw [current, hlayout]
    exact books_ext hI.get hD.get hR.get?
  have hlinked : Linked P ⟨t', s'⟩ := by
    refine ⟨?_, ?_, hR.waiting, fun id hid => ?_⟩ <;> rw [hlayout]
    · exact hI.linked
    · exact hD.linked
    · exact hR.clean id (h.clean id hid)
  rw [heq]
  exact {
    layout := hlayout
    version := hversion
    debug := hdebug
    changes := hchanges
    current := hcurrent
    linked := hlinked
    saved := fun hdone => ⟨hids.trans (hI.saved hdone), hdependents.trans (hD.saved hdone),
      fun id hid => (hrecord id).trans (hR.saved hdone id (h.clean id hid))⟩
    ids := by
      rw [hids]
      exact hI.partly
    records := fun id => by
      rw [hrecord]
      exact hR.partly id
    text := htext }

theorem saves_save {P : CacheId → Prop} {w : Workspace}
    (hsettled : w.store.layout.Settled w.files) (h : w.Linked P) :
    Saves P w (save w).2 (∃ u, (save w).1 = .ok u) := by
  rw [← saveUnless_none]
  exact saves_saveUnless .none hsettled h

/-- What a save that succeeds leaves on disk is what is known. -/
theorem saved_save {w : Workspace} (hsettled : w.store.layout.Settled w.files)
    (h : w.Linked fun _ => True) (hok : (save w).1.isOk = true) : (save w).2.saved = w.current := by
  obtain ⟨hids, hdependents, hrecords⟩ := (saves_save hsettled h).saved (exists_ok_of_isOk hok)
  exact books_ext hids hdependents fun id => hrecords id trivial

end Workspace

end BuildCache
