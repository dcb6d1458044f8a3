import BuildCache.Proofs.Consistency
import BuildCache.Proofs.Workspace.Touching

/-!
# Saves that fail in part

A save tries the marker and both tables whatever becomes of the others. The records are written one
after the other until the first that cannot be: that one and all after it go on waiting.
-/

namespace BuildCache

open FileTree

/-- The error of a step that failed. -/
def failure? {α : Type} : Except StoreError α → Option StoreError
  | .ok _ => none
  | .error e => some e

/-- How a step ends that goes on after failures and answers the first. -/
def answerOf : Option StoreError → Except StoreError Unit
  | none => .ok ()
  | some e => .error e

/-- What a save does with the marker: nothing, if it does not have to be written, or what its own
write does. -/
inductive Store.MarkerFate (fault : Option StoreError) (s : Store) (t : FileTree) :
    Option StoreError → FileTree → Bool → Prop where
  | idle (hmarked : s.unmarked = false) : MarkerFate fault s t none t false
  | written {t' : FileTree} (hpending : s.unmarked = true)
      (hwrite : s.writeMarkerUnless fault t = (.ok (), t')) : MarkerFate fault s t none t' false
  | failed {t' : FileTree} {e : StoreError} (hpending : s.unmarked = true)
      (hwrite : s.writeMarkerUnless fault t = (.error e, t')) :
      MarkerFate fault s t (some e) t' true

/-- What a save does with a table: nothing, if it does not wait, or what its own write does. -/
inductive Table.Fate {α : Type} [JsonForm α] (fault : Option StoreError) (table : Table α)
    (t : FileTree) (pretty : Bool) (p : Path) : Option StoreError → FileTree → Table α → Prop where
  | idle (hidle : table.value = none ∨ table.dirty = false) :
      Fate fault table t pretty p none t table
  | written {a : α} {t' : FileTree} (hvalue : table.value = some a) (hdirty : table.dirty = true)
      (hwrite : t.writeJsonUnless fault pretty p a = (.ok (), t')) :
      Fate fault table t pretty p none t' { table with dirty := false }
  | failed {a : α} {t' : FileTree} {e : StoreError} (hvalue : table.value = some a)
      (hdirty : table.dirty = true) (hwrite : t.writeJsonUnless fault pretty p a = (.error e, t')) :
      Fate fault table t pretty p (some e) t' table

theorem Store.MarkerFate.changes {fault : Option StoreError} {s : Store} {t t' : FileTree}
    {failure : Option StoreError} {unmarked : Bool} (h : s.MarkerFate fault t failure t' unmarked) :
    s.layout.Changes (· = .marker) t t' := by
  cases h with
  | idle => exact .refl _ _ _
  | written _ hwrite => exact (changes_of_writeMarkerUnless_ok hwrite).1
  | failed _ hwrite =>
    exact (changes_of_writeMarkerUnless_error hwrite).mono fun _ => False.elim

theorem Store.markerFate_of_saveMarkerUnless {fault : Option StoreError} {s : Store}
    {t t' : FileTree} {unmarked : Bool} {r : Except StoreError Unit}
    (h : s.saveMarkerUnless fault t = (r, t', { s with unmarked })) :
    s.MarkerFate fault t (failure? r) t' unmarked := by
  rw [saveMarkerUnless] at h
  split at h
  · next hpending =>
    split at h
    · next hwrite =>
      cases h
      exact .written hpending hwrite
    · next e t₁ hwrite =>
      simp only [Prod.mk.injEq] at h
      obtain ⟨rfl, rfl, hs⟩ := h
      obtain rfl : s.unmarked = unmarked := congrArg Store.unmarked hs
      rw [hpending]
      exact .failed hpending hwrite
  · next hmarked =>
    simp only [Prod.mk.injEq] at h
    obtain ⟨rfl, rfl, hs⟩ := h
    obtain rfl : s.unmarked = unmarked := congrArg Store.unmarked hs
    rw [Bool.not_eq_true] at hmarked
    rw [hmarked]
    exact .idle hmarked

namespace Table

variable {α : Type} [JsonForm α] {fault : Option StoreError} {table table' : Table α}
  {t t' : FileTree} {pretty : Bool}

theorem fate_of_saveUnless {p : Path} {r : Except StoreError Bool}
    (h : table.saveUnless fault t pretty p = (r, t', table')) :
    table.Fate fault t pretty p (failure? r) t' table' := by
  rw [saveUnless] at h
  split at h
  · next a hvalue hdirty =>
    split at h
    · next hwrite =>
      cases h
      exact .written hvalue hdirty hwrite
    · next hwrite =>
      cases h
      exact .failed hvalue hdirty hwrite
  · next hcases =>
    cases h
    refine .idle ?_
    cases hvalue : table.value with
    | none => exact .inl rfl
    | some a =>
      refine .inr ?_
      rw [← Bool.not_eq_true]
      exact hcases a hvalue

theorem Fate.changes {layout : Layout} {s : Slot} {failure : Option StoreError}
    (h : table.Fate fault t pretty (s.path layout) failure t' table') :
    layout.Changes (· = s) t t' := by
  cases h with
  | idle => exact .refl _ _ _
  | written _ _ hwrite => exact (Slot.changes_of_writeJsonUnless_ok hwrite).1
  | failed _ _ hwrite =>
    exact (Slot.changes_of_writeJsonUnless_error hwrite).mono fun _ => False.elim

theorem Fate.tableAt [EmptyCollection α] [LawfulForm α] {layout : Layout} {s : Slot}
    {failure : Option StoreError} (h : table.Fate fault t pretty (s.path layout) failure t' table')
    {a : α} (hvalue : table.value = some a) (hdirty : table.dirty = true)
    (hclean : table'.dirty = false) : layout.Open t' ∧ t'.tableAt (s.path layout) = a := by
  cases h with
  | idle hidle => simp [hvalue, hdirty] at hidle
  | written hvalue' _ hwrite =>
    obtain ⟨-, text, hrender, hread⟩ := Slot.changes_of_writeJsonUnless_ok hwrite
    rw [hvalue, Option.some.injEq] at hvalue'
    exact ⟨Slot.open_of_readText? hread, hvalue' ▸ tableAt_of_readText? hrender hread⟩
  | failed =>
    rw [hdirty] at hclean
    contradiction

theorem Fate.eq_none_of_clean {p : Path} {failure : Option StoreError}
    (h : table.Fate fault t pretty p failure t' table') (hclean : table'.dirty = false) :
    failure = none := by
  cases h with
  | idle => rfl
  | written => rfl
  | failed _ hdirty =>
    rw [hdirty] at hclean
    contradiction

end Table

namespace RecordTable

variable {layout : Layout} {faults : CacheId → Option StoreError} {pretty : Bool}
  {t t' : FileTree}

theorem WrittenInTurn.onDisk {entries : List (CacheId × CacheRecord)}
    (h : WrittenInTurn faults pretty layout.files entries t t')
    (hdistinct : entries.Pairwise fun a b => a.1 ≠ b.1) {id : CacheId} {record : CacheRecord}
    (hmem : (id, record) ∈ entries) :
    layout.Open t' ∧ onDisk layout t' id = some record := by
  induction h with
  | nil => cases hmem
  | @cons id' record' rest t t₁ t' hwrite hrest ih =>
    obtain ⟨hhead, htail⟩ := List.pairwise_cons.mp hdistinct
    rcases List.mem_cons.mp hmem with heq | hmem
    · cases heq
      rw [Slot.path_record] at hwrite
      obtain ⟨-, text, hrender, hread⟩ := Slot.changes_of_writeJsonUnless_ok hwrite
      have hopen := Slot.open_of_readText? hread
      -- the others are written beside it
      have hwrites := hrest.writes (.inl hopen) htail
      have hkept := hwrites.others id fun r hr => hhead (id, r) hr rfl
      have hself : RecordTable.onDisk layout t₁ id = some record := by
        rw [RecordTable.onDisk, readJson?, hread, Option.bind_some, JsonForm.parse?_render? hrender]
      rw [hself] at hkept
      obtain ⟨x, hx, -⟩ := Option.bind_eq_some_iff.mp hkept
      exact ⟨Slot.open_of_readText? hx, hkept⟩
    · exact ih htail hmem

/-- The records of a table that a save tries to write. -/
def heldUnsaved (table : RecordTable) : List (CacheId × CacheRecord) :=
  table.unsaved.entries.filter fun e => table.holds e.1

theorem sublist_heldUnsaved (table : RecordTable) :
    table.heldUnsaved.Sublist table.unsaved.entries := List.filter_sublist

/-- What goes on waiting after a save is what was not written. -/
theorem WriteEnd.unsaved {dir : Path} {table table' : RecordTable} {t t' : FileTree}
    {waiting : List (CacheId × CacheRecord)} {r : Except StoreError Nat}
    (h : WriteEnd faults pretty dir { table with unsaved := .empty } t waiting r t' table')
    (hsorted : waiting.Pairwise fun a b => compare a.1 b.1 = .lt) :
    table'.unsaved.entries = waiting := by
  cases h with
  | all => rfl
  | stopped => exact congrArg OrderedMap.entries (OrderedMap.ofList_entries ⟨_, hsorted⟩)

theorem WriteEnd.changes {dir : Path} {table table' : RecordTable} {t t' : FileTree}
    {waiting : List (CacheId × CacheRecord)} {r : Except StoreError Nat}
    (h : WriteEnd faults pretty dir table t waiting r t' table') :
    layout.Changes (fun _ => False) t t' := by
  cases h with
  | all => exact .refl _ _ _
  | stopped hwrite => exact Slot.changes_of_writeJsonUnless_error hwrite

end RecordTable

/-- The moments of a save, which records it writes and which go on waiting, and how each part
ends. -/
structure SaveCourse where
  afterMarker : FileTree
  afterIds : FileTree
  afterDependents : FileTree
  afterWritten : FileTree
  written : List (CacheId × CacheRecord)
  waiting : List (CacheId × CacheRecord)
  marker : Option StoreError
  ids : Option StoreError
  dependents : Option StoreError
  records : Except StoreError Nat

/-- The course that a save takes: marker and tables meet their own fate, the records are written up
to the first that cannot be, and the first failure is answered. -/
structure SaveCourse.Taken (c : SaveCourse) (faults : Faults) (s : Store) (t : FileTree)
    (r : Except StoreError Unit) (t' : FileTree) (s' : Store) : Prop where
  marker : s.MarkerFate (faults .marker) t c.marker c.afterMarker s'.unmarked
  ids : s.ids.Fate (faults .ids) c.afterMarker s.debug s.layout.ids c.ids c.afterIds s'.ids
  dependents : s.dependents.Fate (faults .dependents) c.afterIds s.debug s.layout.dependents
    c.dependents c.afterDependents s'.dependents
  held : s.records.heldUnsaved = c.written ++ c.waiting
  written : RecordTable.WrittenInTurn (fun id => faults (.entry id .record)) s.debug s.layout.files
    c.written c.afterDependents c.afterWritten
  waiting : RecordTable.WriteEnd (fun id => faults (.entry id .record)) s.debug s.layout.files
    { s.records with unsaved := .empty } c.afterWritten c.waiting c.records t' s'.records
  answer : r = answerOf (c.marker.or (c.ids.or (c.dependents.or (failure? c.records))))

/-- What was written on the way is on disk in the end, and what could not be written waits. -/
structure SavedInPart (faults : Faults) (s : Store) (t : FileTree) (c : SaveCourse)
    (r : Except StoreError Unit) (t' : FileTree) (s' : Store) : Prop
    extends c.Taken faults s t r t' s' where
  unsaved : s'.records.unsaved.entries = c.waiting
  markerOnDisk : s.unmarked = true → s'.unmarked = false →
    t'.readText? s.layout.marker = some s.version
  idsOnDisk : ∀ a, s.ids.value = some a → s.ids.dirty = true → s'.ids.dirty = false →
    t'.tableAt s.layout.ids = a
  dependentsOnDisk : ∀ a, s.dependents.value = some a → s.dependents.dirty = true →
    s'.dependents.dirty = false → t'.tableAt s.layout.dependents = a
  recordsOnDisk : ∀ id record, (id, record) ∈ c.written →
    t'.readJson? (RecordTable.path s.layout.files id) = some record

theorem answerOf_or (marked : Except StoreError Unit)
    (idsSaved dependentsSaved : Except StoreError Bool) (recordsSaved : Except StoreError Nat) :
    (do
      marked
      let _ ← idsSaved
      let _ ← dependentsSaved
      let _ ← recordsSaved : Except StoreError Unit) =
    answerOf ((failure? marked).or
      ((failure? idsSaved).or ((failure? dependentsSaved).or (failure? recordsSaved)))) := by
  cases marked <;> cases idsSaved <;> cases dependentsSaved <;> cases recordsSaved <;> rfl

theorem Store.MarkerFate.readText? {fault : Option StoreError} {s : Store} {t t' : FileTree}
    {failure : Option StoreError} {unmarked : Bool} (h : s.MarkerFate fault t failure t' unmarked)
    (hpending : s.unmarked = true) (hwritten : unmarked = false) :
    t'.readText? (Slot.marker.path s.layout) = some s.version := by
  cases h with
  | idle hmarked =>
    rw [hpending] at hmarked
    contradiction
  | written _ hwrite => exact (Store.changes_of_writeMarkerUnless_ok hwrite).2
  | failed => contradiction

theorem exists_taken (faults : Faults) (s : Store) (t : FileTree) :
    ∃ c : SaveCourse, c.Taken faults s t (s.saveUnless faults t).1 (s.saveUnless faults t).2.1
      (s.saveUnless faults t).2.2 := by
  have hresult := s.saveResult faults t
  generalize s.saveUnless faults t = result at hresult ⊢
  cases hresult with
  | @parts marked unmarked idsSaved dependentsSaved recordsSaved t₁ t₂ t₃ t₄ ids dependents records
      hmarked hids hdependents hrecords =>
  obtain ⟨written, waiting, t', hheld, hwritten, hend⟩ :=
    RecordTable.writeAllUnless_cases _ _ hrecords
  refine ⟨⟨t₁, t₂, t₃, t', written, waiting, failure? marked, failure? idsSaved,
    failure? dependentsSaved, recordsSaved⟩, ?_⟩
  exact
    { marker := Store.markerFate_of_saveMarkerUnless hmarked
      ids := Table.fate_of_saveUnless hids
      dependents := Table.fate_of_saveUnless hdependents
      held := hheld
      written := hwritten
      waiting := hend
      answer := answerOf_or marked idsSaved dependentsSaved recordsSaved }

/-- No write of a save failed. -/
structure SaveCourse.NoneFailed (c : SaveCourse) : Prop where
  marker : c.marker = none
  ids : c.ids = none
  dependents : c.dependents = none
  records : failure? c.records = none

theorem isOk_answerOf {failure : Option StoreError} :
    (answerOf failure).isOk = true ↔ failure = none := by
  cases failure with
  | none => exact ⟨fun _ => rfl, fun _ => rfl⟩
  | some e => exact ⟨fun h => by contradiction, fun h => by contradiction⟩

namespace SaveCourse.Taken

variable {faults : Faults} {s s' : Store} {t t' : FileTree} {c : SaveCourse}
  {r : Except StoreError Unit}

theorem inTurn (h : c.Taken faults s t r t' s') :
    s.layout.InTurn t c.afterMarker c.afterIds c.afterDependents t' :=
  ⟨h.marker.changes, h.ids.changes, h.dependents.changes,
    (h.written.changes.mono fun _ ⟨e, _, hs⟩ => ⟨e.1, hs⟩).trans
      (h.waiting.changes.mono fun _ => False.elim)⟩

theorem sorted (h : c.Taken faults s t r t' s') :
    (c.written ++ c.waiting).Pairwise fun a b => compare a.1 b.1 = .lt :=
  h.held ▸ s.records.unsaved.sorted.sublist s.records.sublist_heldUnsaved

theorem unsaved (h : c.Taken faults s t r t' s') :
    s'.records.unsaved.entries = c.waiting :=
  h.waiting.unsaved (List.pairwise_append.mp h.sorted).2.1

theorem savedInPart (h : c.Taken faults s t r t' s') : SavedInPart faults s t c r t' s' where
  toTaken := h
  unsaved := h.unsaved
  markerOnDisk hpending hdone := by
    have hread := h.marker.readText? hpending hdone
    rw [Slot.path_marker, h.inTurn.readText?_marker (.inl (Slot.open_of_readText? hread)), hread]
  idsOnDisk a hvalue hdirty hclean := by
    obtain ⟨hopen, htable⟩ := h.ids.tableAt (s := .ids) hvalue hdirty hclean
    rw [Slot.path_ids, Table.tableAt_congr (h.inTurn.readText?_ids (.inl hopen)), htable]
  dependentsOnDisk a hvalue hdirty hclean := by
    obtain ⟨hopen, htable⟩ := h.dependents.tableAt (s := .dependents) hvalue hdirty hclean
    rw [Slot.path_dependents,
      Table.tableAt_congr (h.inTurn.readText?_dependents (.inl hopen)), htable]
  recordsOnDisk id record hmem := by
    have hdistinct : c.written.Pairwise fun a b => a.1 ≠ b.1 :=
      (List.pairwise_append.mp h.sorted).1.imp fun hlt heq => by
        simp [heq, Std.ReflCmp.compare_self] at hlt
    obtain ⟨hopen, hrecord⟩ := h.written.onDisk hdistinct hmem
    have hkept := h.waiting.changes.readText? (.inl hopen) (s := .entry id .record) fun h => h
    rw [Slot.path_record, Workspace.readJson?_congr hkept]
    exact hrecord

theorem isOk_iff (h : c.Taken faults s t r t' s') : r.isOk = true ↔ c.NoneFailed := by
  rw [h.answer, isOk_answerOf, Option.or_eq_none_iff, Option.or_eq_none_iff,
    Option.or_eq_none_iff]
  constructor
  · rintro ⟨hmarker, hids, hdependents, hrecords⟩
    exact ⟨hmarker, hids, hdependents, hrecords⟩
  · rintro ⟨hmarker, hids, hdependents, hrecords⟩
    exact ⟨hmarker, hids, hdependents, hrecords⟩

theorem noneFailed_of_clean (h : c.Taken faults s t r t' s')
    (hclean : s'.isDirty = false) : c.NoneFailed := by
  simp only [Store.isDirty, Bool.or_eq_false_iff, Bool.not_eq_false'] at hclean
  obtain ⟨⟨⟨hmarked, hids⟩, hdependents⟩, hrecords⟩ := hclean
  rw [OrderedMap.isEmpty, h.unsaved, List.isEmpty_iff] at hrecords
  refine ⟨?_, h.ids.eq_none_of_clean hids, h.dependents.eq_none_of_clean hdependents, ?_⟩
  · have hfate := h.marker
    rw [hmarked] at hfate
    generalize c.marker = failure at hfate
    cases hfate <;> rfl
  · have hend := h.waiting
    rw [hrecords] at hend
    generalize c.records = result, s'.records = records at hend
    cases hend
    rfl

end SaveCourse.Taken

/-- A save tries every part, but of the records only those up to the first that cannot be
written. Without faults of its own it is `Store.save`. -/
theorem exists_savedInPart (faults : Faults) (s : Store) (t : FileTree) :
    ∃ c, SavedInPart faults s t c (s.saveUnless faults t).1 (s.saveUnless faults t).2.1
      (s.saveUnless faults t).2.2 := by
  obtain ⟨c, htaken⟩ := exists_taken faults s t
  exact ⟨c, htaken.savedInPart⟩

namespace Sample

open Workspace

def recordPath (file : Path) : Path := RecordTable.path (Layout.mk cacheDir).files (.forPath file)

/-- Two records that wait, and a directory where the first of them is to be kept. -/
def stuck : Workspace :=
  let empty : Workspace := ⟨withDirectory tree (recordPath importer), (started cacheDir).store⟩
  (commitRecord other plainRecord (commitRecord importer plainRecord empty).2).2

end Sample

open Sample Workspace

/-- A record that could be written goes on waiting behind one that cannot. -/
theorem unwritten_behind_stuck :
    (save stuck).1 = .error (.io (recordPath importer) .isDirectory) ∧
      ((save stuck).2.files.writeJson false (recordPath other) plainRecord).1 = .ok () ∧
      (save stuck).2.files.exists? (recordPath other) = .ok false ∧
      (save stuck).2.store.records.unsaved.contains (.forPath other) = true := by
  decide +kernel

end BuildCache
