import BuildCache.Proofs.Workspace.Collecting
import BuildCache.Proofs.Workspace.Committing
import BuildCache.Proofs.Workspace.Respecting
import BuildCache.Proofs.Workspace.Sweeping

/-!
# Workspaces that cannot be told apart

Two workspaces over the same files where the same changes wait know the same, however much each of
them has read so far. A step answers the same from both and leaves two that are again alike.
-/

namespace BuildCache

open FileTree

namespace Table

variable {α : Type} {table table' : Table α}

/-- The same changes wait. -/
structure Agrees (table table' : Table α) : Prop where
  dirty : table'.dirty = table.dirty
  value : table.dirty = true → table'.value = table.value

theorem Agrees.refl (table : Table α) : table.Agrees table := ⟨rfl, fun _ => rfl⟩

variable [JsonForm α]

theorem Agrees.save {disk : α} (h : table.Agrees table') (hlinked : table.Linked disk)
    (t : FileTree) (pretty : Bool) (p : Path) :
    (table'.save t pretty p).1 = (table.save t pretty p).1 ∧
      (table'.save t pretty p).2.1 = (table.save t pretty p).2.1 ∧
      (table.save t pretty p).2.2.Agrees (table'.save t pretty p).2.2 := by
  cases hdirty : table.dirty with
  | false =>
    have hclean (table : Table α) (hdirty : table.dirty = false) :
        table.save t pretty p = (.ok false, t, table) := by
      rw [Table.save]
      split
      · next hdirty' => rw [hdirty] at hdirty'; contradiction
      · rfl
    rw [hclean table hdirty, hclean table' (h.dirty.trans hdirty)]
    exact ⟨rfl, rfl, h⟩
  | true =>
    obtain ⟨a, ha⟩ := Option.isSome_iff_exists.mp (hlinked.loaded hdirty)
    have hvalue' : table'.value = some a := (h.value hdirty).trans ha
    simp only [Table.save, ha, hvalue', hdirty, h.dirty]
    cases t.writeJson pretty p a with
    | mk r t => cases r with
      | ok u => exact ⟨rfl, rfl, rfl, fun hdirty => by cases hdirty⟩
      | error e => exact ⟨rfl, rfl, h⟩

variable [EmptyCollection α]

theorem Agrees.get {t : FileTree} {p : Path} (h : table.Agrees table')
    (hlinked : table.Linked (t.tableAt p)) (hlinked' : table'.Linked (t.tableAt p)) :
    table'.get t p = table.get t p := by
  cases hdirty : table.dirty with
  | true => rw [Table.get, Table.get, h.value hdirty]
  | false => rw [hlinked.get_eq hdirty, hlinked'.get_eq (h.dirty.trans hdirty)]

theorem Agrees.load {t : FileTree} {p : Path} (h : table.Agrees table')
    (hget : table'.get t p = table.get t p) : (table.load t p).Agrees (table'.load t p) :=
  ⟨h.dirty, fun _ => congrArg some hget⟩

theorem agrees_update {t : FileTree} {p : Path} (hget : table'.get t p = table.get t p)
    (change : α → α) : (table.update t p change).Agrees (table'.update t p change) :=
  ⟨rfl, fun _ => congrArg (fun a => some (change a)) hget⟩

end Table

namespace RecordTable

variable {table table' : RecordTable} {t : FileTree}

theorem get?_of_waiting {id : CacheId} {r : CacheRecord} (hwaiting : table.Waiting)
    (hr : table.unsaved.get? id = some r) (dir : Path) : table.get? t dir id = some r := by
  rw [RecordTable.get?, hwaiting id r hr]

theorem unsaved_load (table : RecordTable) (t : FileTree) (dir : Path) (id : CacheId) :
    (table.load t dir id).unsaved = table.unsaved := by
  rw [load]
  split <;> rfl

/-- Writing depends on what waits only, as long as what waits is held. -/
theorem writeAll_congr (pretty : Bool) (dir : Path) {entries : List (CacheId × CacheRecord)}
    (hholds : ∀ e ∈ entries, table.holds e.1 = true)
    (hholds' : ∀ e ∈ entries, table'.holds e.1 = true)
    (hunsaved : table'.unsaved = table.unsaved) (t : FileTree) (count : Nat) :
    (table'.writeAll t pretty dir count entries).1 = (table.writeAll t pretty dir count entries).1 ∧
      (table'.writeAll t pretty dir count entries).2.1 =
        (table.writeAll t pretty dir count entries).2.1 ∧
      (table'.writeAll t pretty dir count entries).2.2.unsaved =
        (table.writeAll t pretty dir count entries).2.2.unsaved := by
  induction entries generalizing t count with
  | nil => exact ⟨rfl, rfl, hunsaved⟩
  | cons e rest ih =>
    obtain ⟨id, record⟩ := e
    have hrest := ih (fun e he => hholds e (List.mem_cons_of_mem _ he))
      (fun e he => hholds' e (List.mem_cons_of_mem _ he))
    rw [writeAll, writeAll, if_pos (hholds _ List.mem_cons_self),
      if_pos (hholds' _ List.mem_cons_self)]
    cases t.writeJson pretty (path dir id) record with
    | mk r t => cases r with
      | ok u => exact hrest t (count + 1)
      | error e =>
        refine ⟨rfl, rfl, ?_⟩
        simp only [List.filter_eq_self.mpr hholds, List.filter_eq_self.mpr hholds']

theorem save_congr (hwaiting : table.Waiting) (hwaiting' : table'.Waiting)
    (hunsaved : table'.unsaved = table.unsaved) (t : FileTree) (pretty : Bool) (dir : Path) :
    (table'.save t pretty dir).1 = (table.save t pretty dir).1 ∧
      (table'.save t pretty dir).2.1 = (table.save t pretty dir).2.1 ∧
      (table'.save t pretty dir).2.2.unsaved = (table.save t pretty dir).2.2.unsaved := by
  have hheld {table : RecordTable} (hwaiting : table.Waiting) {e : CacheId × CacheRecord}
      (he : e ∈ table.unsaved.entries) :
      RecordTable.holds { table with unsaved := .empty } e.1 = true := by
    have hloaded := hwaiting e.1 e.2 (OrderedMap.get?_of_mem_entries he)
    simp [holds, hloaded]
  rw [save, save, hunsaved]
  exact writeAll_congr pretty dir (fun e he => hheld hwaiting he)
    (fun e he => hheld hwaiting' (hunsaved ▸ he)) rfl t 0

end RecordTable

namespace Store

/-- The same changes wait in stores of the same cache. -/
structure Agrees (s s' : Store) : Prop where
  layout : s'.layout = s.layout
  version : s'.version = s.version
  debug : s'.debug = s.debug
  unmarked : s'.unmarked = s.unmarked
  ids : s.ids.Agrees s'.ids
  dependents : s.dependents.Agrees s'.dependents
  unsaved : s'.records.unsaved = s.records.unsaved

theorem Agrees.refl (s : Store) : s.Agrees s := ⟨rfl, rfl, rfl, rfl, .refl _, .refl _, rfl⟩

variable {s s' : Store}

theorem Agrees.artifacts (h : s.Agrees s') : s'.artifacts = s.artifacts := by
  rw [Store.artifacts, Store.artifacts, h.layout, h.debug]

theorem Agrees.saveMarker (h : s.Agrees s') (t : FileTree) :
    (s'.saveMarker t).1 = (s.saveMarker t).1 ∧ (s'.saveMarker t).2.1 = (s.saveMarker t).2.1 ∧
      (s.saveMarker t).2.2.Agrees (s'.saveMarker t).2.2 := by
  have hwrite : s'.writeMarker t = s.writeMarker t := by
    simp only [writeMarker, h.layout, h.version]
  rw [Store.saveMarker, Store.saveMarker, h.unmarked, hwrite]
  split
  · cases s.writeMarker t with
    | mk r t => cases r with
      | ok u => exact ⟨rfl, rfl, { h with unmarked := rfl }⟩
      | error e => exact ⟨rfl, rfl, h⟩
  · exact ⟨rfl, rfl, h⟩

theorem Agrees.save (h : s.Agrees s') {t : FileTree} (hids : ∃ disk, s.ids.Linked disk)
    (hdependents : ∃ disk, s.dependents.Linked disk) (hwaiting : s.records.Waiting)
    (hwaiting' : s'.records.Waiting) :
    (s'.save t).1 = (s.save t).1 ∧ (s'.save t).2.1 = (s.save t).2.1 ∧
      (s.save t).2.2.Agrees (s'.save t).2.2 := by
  have hresult := s.saveResult .none t
  have hresult' := s'.saveResult .none t
  rw [saveUnless_none] at hresult hresult'
  generalize s.save t = result at hresult ⊢
  generalize s'.save t = result' at hresult' ⊢
  cases hresult with
  | @parts marked unmarked r₂ r₃ r₄ t₁ t₂ t₃ t₄ ids dependents records hmarked hsaveIds
      hsaveDependents hsaveRecords =>
  cases hresult' with
  | @parts marked' unmarked' r₂' r₃' r₄' t₁' t₂' t₃' t₄' ids' dependents' records' hmarked'
      hsaveIds' hsaveDependents' hsaveRecords' =>
  simp only [Faults.none_apply, saveMarkerUnless_none] at hmarked hmarked'
  simp only [Faults.none_apply, Table.saveUnless_none] at hsaveIds hsaveIds'
  simp only [Faults.none_apply, Table.saveUnless_none] at hsaveDependents hsaveDependents'
  simp only [Faults.none_apply, RecordTable.saveUnless_none] at hsaveRecords hsaveRecords'
  -- each part is written to the same files, with the same outcome
  have hM := h.saveMarker t
  rw [hmarked, hmarked'] at hM
  obtain ⟨rfl, rfl, hM⟩ : marked' = marked ∧ t₁' = t₁ ∧
    Store.Agrees { s with unmarked } { s' with unmarked := unmarked' } := hM
  rw [h.debug, h.layout] at hsaveIds' hsaveDependents' hsaveRecords'
  have hI := h.ids.save hids.choose_spec t₁' s.debug (Slot.ids.path s.layout)
  rw [hsaveIds, hsaveIds'] at hI
  obtain ⟨rfl, rfl, hI⟩ : r₂' = r₂ ∧ t₂' = t₂ ∧ ids.Agrees ids' := hI
  have hD := h.dependents.save hdependents.choose_spec t₂' s.debug (Slot.dependents.path s.layout)
  rw [hsaveDependents, hsaveDependents'] at hD
  obtain ⟨rfl, rfl, hD⟩ : r₃' = r₃ ∧ t₃' = t₃ ∧ dependents.Agrees dependents' := hD
  have hR := RecordTable.save_congr hwaiting hwaiting' h.unsaved t₃' s.debug s.layout.files
  rw [hsaveRecords, hsaveRecords'] at hR
  obtain ⟨rfl, rfl, hR⟩ : r₄' = r₄ ∧ t₄' = t₄ ∧ records'.unsaved = records.unsaved := hR
  exact ⟨rfl, rfl, h.layout, h.version, h.debug, hM.unmarked, hI, hD, hR⟩

end Store

namespace Workspace

/-- Workspaces that differ at most in what they have read from disk. -/
structure Twin (w w' : Workspace) : Prop where
  files : w'.files = w.files
  store : w.store.Agrees w'.store
  settled : w.store.layout.Settled w.files
  linked : w.Linked fun _ => True
  linked' : w'.Linked fun _ => True

variable {w w' v v' : Workspace}

theorem Twin.current (h : Twin w w') : w'.current = w.current := by
  have hids := h.linked'.ids
  have hdependents := h.linked'.dependents
  have hclean := h.linked'.clean
  rw [h.store.layout, h.files] at hids hdependents hclean
  refine books_ext ?_ ?_ fun id => ?_
  · simp only [Workspace.current, h.files, h.store.layout, h.store.ids.get h.linked.ids hids]
  · simp only [Workspace.current, h.files, h.store.layout,
      h.store.dependents.get h.linked.dependents hdependents]
  · simp only [Workspace.current, h.files, h.store.layout]
    cases hr : w.store.records.unsaved.get? id with
    | none =>
      rw [RecordTable.get?_of_clean (h.linked.clean id trivial) hr,
        RecordTable.get?_of_clean (hclean id trivial) (h.store.unsaved ▸ hr)]
    | some r =>
      rw [RecordTable.get?_of_waiting h.linked.waiting hr,
        RecordTable.get?_of_waiting h.linked'.waiting (h.store.unsaved ▸ hr)]

theorem Twin.refl (hsettled : w.store.layout.Settled w.files) (h : w.Linked fun _ => True) :
    Twin w w :=
  ⟨rfl, .refl _, hsettled, h, h⟩

theorem Twin.inward (h : Twin w w') (hv : Inward w v) (hv' : Inward w' v')
    (hstore : v.store.Agrees v'.store) : Twin v v' where
  files := by rw [hv'.files, hv.files, h.files]
  store := hstore
  settled := by rw [hv.layout, hv.files]; exact h.settled
  linked := hv.linked _ h.linked
  linked' := hv'.linked _ h.linked'

theorem Twin.ids_get (h : Twin w w') :
    w'.store.ids.get w'.files w'.store.layout.ids = w.store.ids.get w.files w.store.layout.ids :=
  congrArg Books.ids h.current

theorem Twin.dependents_get (h : Twin w w') :
    w'.store.dependents.get w'.files w'.store.layout.dependents =
      w.store.dependents.get w.files w.store.layout.dependents :=
  congrArg Books.dependents h.current

theorem reads_twin {γ : Type} (g : FileTree → γ) : Reads Twin g := fun _ _ h => congrArg g h.files

private theorem Twin.respects_ids : Respects Twin ids := by
  intro w w' h
  have hget := h.ids_get
  refine ⟨hget, h.inward (inward_ids w) (inward_ids w') { h.store with ids := ?_ }⟩
  rw [h.files, h.store.layout] at hget
  simp only [Workspace.ids, h.files, h.store.layout]
  exact h.store.ids.load hget

private theorem Twin.respects_dependents : Respects Twin dependents := by
  intro w w' h
  have hget := h.dependents_get
  refine ⟨hget, h.inward (inward_dependents w) (inward_dependents w')
    { h.store with dependents := ?_ }⟩
  rw [h.files, h.store.layout] at hget
  simp only [Workspace.dependents, h.files, h.store.layout]
  exact h.store.dependents.load hget

private theorem Twin.respects_record? (id : CacheId) : Respects Twin (record? id) := by
  intro w w' h
  refine ⟨congrArg (Books.record · id) h.current,
    h.inward (inward_record? id w) (inward_record? id w') { h.store with unsaved := ?_ }⟩
  simp only [Workspace.record?, RecordTable.unsaved_load, h.store.unsaved]

private theorem Twin.respects_artifact? (id : CacheId) : Respects Twin (artifact? id) := by
  intro w w' h
  refine ⟨?_, h⟩
  show w'.store.artifacts.read? w'.files id = w.store.artifacts.read? w.files id
  rw [h.store.artifacts, h.files]

private theorem Twin.respects_changeIds (change : IdTable → IdTable) :
    Respects Twin (changeIds change) := by
  intro w w' h
  have hget := h.ids_get
  refine ⟨rfl, h.inward (inward_changeIds change w) (inward_changeIds change w')
    { h.store with ids := ?_ }⟩
  rw [h.files, h.store.layout] at hget
  simp only [Workspace.changeIds, h.files, h.store.layout]
  exact Table.agrees_update hget change

private theorem Twin.respects_changeDependents (change : Dependents → Dependents) :
    Respects Twin (changeDependents change) := by
  intro w w' h
  have hget := h.dependents_get
  refine ⟨rfl, h.inward (inward_changeDependents change w) (inward_changeDependents change w')
    { h.store with dependents := ?_ }⟩
  rw [h.files, h.store.layout] at hget
  simp only [Workspace.changeDependents, h.files, h.store.layout]
  exact Table.agrees_update hget change

private theorem Twin.respects_putRecord (id : CacheId) (r : CacheRecord) :
    Respects Twin (putRecord id r) := by
  intro w w' h
  refine ⟨rfl, h.inward (inward_putRecord id r w) (inward_putRecord id r w')
    { h.store with unsaved := ?_ }⟩
  simp only [Workspace.putRecord, RecordTable.insert, h.store.unsaved]

private theorem Twin.respects_removeRecord (id : CacheId) : Respects Twin (removeRecord id) := by
  intro w w' h
  have hanswer : w'.current.record id = w.current.record id := congrArg (Books.record · id) h.current
  have hchanges := Slot.changes_discard w.store.layout (.entry id .record) w.files
  have hlinked := linked_removeRecord h.linked id
  have hlinked' := linked_removeRecord h.linked' id
  simp only [removeRecord_eq] at hlinked hlinked' ⊢
  refine ⟨hanswer, ?_, { h.store with unsaved := ?_ }, hchanges.settled h.settled, hlinked, hlinked'⟩
  · simp only [h.files, h.store.layout]
  · simp only [RecordTable.remove, RecordTable.unsaved_load, h.store.unsaved]

private theorem Twin.respects_removeArtifact (id : CacheId) : Respects Twin (removeArtifact id) := by
  intro w w' h
  have hchanges := Slot.changes_removeArtifact w.store.layout w.store.debug w.files id
  have hremove : w'.store.artifacts.remove w'.files id = w.store.artifacts.remove w.files id := by
    rw [h.store.artifacts, h.files]
  have hlinked := linked_removeArtifact h.linked id
  have hlinked' := linked_removeArtifact h.linked' id
  exact ⟨rfl, hremove, h.store, hchanges.settled h.settled, hlinked, hlinked'⟩

private theorem Twin.respects_writeArtifact (id : CacheId) (a : Artifact) :
    Respects Twin (writeArtifact id a) := by
  intro w w' h
  have hbuilds := builds_writeArtifact id a w
  have hbuilds' := builds_writeArtifact id a w'
  have hsettled' : w'.store.layout.Settled w'.files := by
    rw [h.store.layout, h.files]
    exact h.settled
  have hwrite : w'.store.artifacts.write w'.files id a = w.store.artifacts.write w.files id a := by
    rw [h.store.artifacts, h.files]
  cases hw : w.store.artifacts.write w.files id a with
  | mk r t =>
    rw [writeArtifact_eq hw] at hbuilds ⊢
    rw [writeArtifact_eq (hwrite.trans hw)] at hbuilds' ⊢
    exact ⟨rfl, rfl, h.store, hbuilds.changes.settled h.settled, hbuilds.linked h.settled h.linked,
      hbuilds'.linked hsettled' h.linked'⟩

private theorem Twin.respects_save : Respects Twin save := by
  intro w w' h
  have hsettled' : w'.store.layout.Settled w'.files := by
    rw [h.store.layout, h.files]
    exact h.settled
  have hsaves := saves_save h.settled h.linked
  have hsaves' := saves_save hsettled' h.linked'
  obtain ⟨hanswer, hfiles, hstore⟩ := h.store.save (t := w.files) ⟨_, h.linked.ids⟩
    ⟨_, h.linked.dependents⟩ h.linked.waiting h.linked'.waiting
  have happly (w : Workspace) : save w = ((w.store.save w.files).1,
      { files := (w.store.save w.files).2.1, store := (w.store.save w.files).2.2 }) := rfl
  have hsettled : (save w).2.store.layout.Settled (save w).2.files := by
    rw [hsaves.layout]
    exact hsaves.changes.settled h.settled
  have hlinked := hsaves.linked
  have hlinked' := hsaves'.linked
  rw [happly] at hsettled hlinked hlinked' ⊢
  rw [happly]
  simp only [h.files] at hlinked' ⊢
  exact ⟨hanswer, hfiles, hstore, hsettled, hlinked, hlinked'⟩

/-- No step tells workspaces apart that are alike. -/
theorem steps_twin : Steps Twin :=
  Primitives.steps
    { ids := Twin.respects_ids
      dependents := Twin.respects_dependents
      record? := Twin.respects_record?
      artifact? := Twin.respects_artifact?
      changeIds := Twin.respects_changeIds
      changeDependents := Twin.respects_changeDependents
      putRecord := Twin.respects_putRecord
      removeRecord := Twin.respects_removeRecord
      removeArtifact := Twin.respects_removeArtifact
      writeArtifact := Twin.respects_writeArtifact
      save := Twin.respects_save }

end Workspace

end BuildCache
