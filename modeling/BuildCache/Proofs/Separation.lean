import BuildCache.Proofs.Collection

/-!
# What is kept apart

Artifacts and records of all ids lie in one directory. What is kept of an id is changed by steps on
that id alone, and its artifact in each mode and its record by steps on them alone. The order of
steps on different things does not matter.
-/

namespace BuildCache

open FileTree

/-- What is kept of an id: the artifact in each mode, and the record as it is known, as it waits for
a save, and as it is on disk. -/
@[ext]
structure Holding where
  artifact : Bool → Option Artifact
  record : Option CacheRecord
  waiting : Option CacheRecord
  stored : Option CacheRecord

/-- The artifacts and the record are the same, and where the record did not wait for a save, it is
also the same on disk. -/
structure Holding.SameAs (h h' : Holding) : Prop where
  artifact : h.artifact = h'.artifact
  record : h.record = h'.record
  eq_of_saved : h'.waiting = none → h = h'

theorem Holding.SameAs.of_eq {h h' : Holding} (heq : h = h') : h.SameAs h' := by
  subst heq
  exact ⟨rfl, rfl, fun _ => rfl⟩

theorem Holding.SameAs.trans {h h' h'' : Holding} (h₁ : h.SameAs h') (h₂ : h'.SameAs h'') :
    h.SameAs h'' where
  artifact := h₁.artifact.trans h₂.artifact
  record := h₁.record.trans h₂.record
  eq_of_saved hsaved := by
    have heq := h₂.eq_of_saved hsaved
    exact (h₁.eq_of_saved (heq ▸ hsaved)).trans heq

/-- A step on what is kept. Artifacts are written and removed in one of the modes, and records are
written with or without indentation. -/
inductive StorageStep where
  | writeArtifact (debug : Bool) (id : CacheId) (a : Artifact)
  | removeArtifact (debug : Bool) (id : CacheId)
  | putRecord (id : CacheId) (r : CacheRecord)
  | saveRecords (debug : Bool)
  | removeRecord (id : CacheId)
  | lookUp (id : CacheId)

namespace StorageStep

/-- The id that a step is about. A save is about every id. -/
def id? : StorageStep → Option CacheId
  | writeArtifact _ id _ => some id
  | removeArtifact _ id => some id
  | putRecord id _ => some id
  | saveRecords _ => none
  | removeRecord id => some id
  | lookUp id => some id

/-- What a step makes of what is kept of an id that it is about. -/
def effect : StorageStep → Holding → Holding
  | writeArtifact debug _ a, h => { h with artifact := Function.update h.artifact debug (some a) }
  | removeArtifact debug _, h => { h with artifact := Function.update h.artifact debug none }
  | putRecord _ r, h => { h with record := some r, waiting := some r }
  | saveRecords _, h => { h with stored := h.waiting.or h.stored, waiting := none }
  | removeRecord _, h => { h with record := none, waiting := none, stored := none }
  | lookUp _, h => h

/-- What a step makes of what is kept of an id. -/
def on (id : CacheId) (s : StorageStep) (h : Holding) : Holding :=
  if s.id?.all (id = ·) then s.effect h else h

def act : StorageStep → Action Unit
  | writeArtifact debug id a => fun w => Workspace.writeArtifact id a (w.inMode debug)
  | removeArtifact debug id => fun w =>
    (.ok (), (Workspace.removeArtifact id (w.inMode debug)).2)
  | putRecord id r => Workspace.putRecord id r
  | saveRecords debug => fun w =>
    (do let _ ← Workspace.saveRecords : Action Unit) (w.inMode debug)
  | removeRecord id => do let _ ← Workspace.removeRecord id
  | lookUp id => do let _ ← Workspace.record? id

/-- Runs steps one after the other, up to the first that fails. -/
def actAll : List StorageStep → Action Unit
  | [] => pure ()
  | s :: rest => do
    s.act
    actAll rest

end StorageStep

namespace Workspace

variable {w w' : Workspace} {id id' : CacheId}

def holding (w : Workspace) (id : CacheId) : Holding where
  artifact debug := (artifact? id (w.inMode debug)).1
  record := (record? id w).1
  waiting := w.store.records.unsaved.get? id
  stored := RecordTable.onDisk w.store.layout w.files id

theorem holding_artifact_congr {t : FileTree} {debug : Bool}
    (hcode : t.readText? ((Slot.entry id (.code debug)).path w.store.layout) =
      w.files.readText? ((Slot.entry id (.code debug)).path w.store.layout))
    (hmap : t.readText? ((Slot.entry id (.sourceMap debug)).path w.store.layout) =
      w.files.readText? ((Slot.entry id (.sourceMap debug)).path w.store.layout)) :
    (holding { w with files := t } id).artifact debug = (w.holding id).artifact debug := by
  show ArtifactStore.read? ⟨w.store.layout.files, debug⟩ t id =
    ArtifactStore.read? ⟨w.store.layout.files, debug⟩ w.files id
  rw [Slot.read?_artifact, Slot.read?_artifact, hcode, hmap]

theorem holding_stored_congr {t : FileTree}
    (h : t.readText? ((Slot.entry id .record).path w.store.layout) =
      w.files.readText? ((Slot.entry id .record).path w.store.layout)) :
    (holding { w with files := t } id).record = (w.holding id).record ∧
      (holding { w with files := t } id).stored = (w.holding id).stored := by
  have hstored : (t.readJson? ((Slot.entry id .record).path w.store.layout) : Option CacheRecord) =
      w.files.readJson? ((Slot.entry id .record).path w.store.layout) := readJson?_congr h
  refine ⟨?_, hstored⟩
  show w.store.records.get? t w.store.layout.files id =
    w.store.records.get? w.files w.store.layout.files id
  rw [RecordTable.get?, RecordTable.get?, Slot.path_record, hstored]

theorem holding_of_artifact {t : FileTree} {debug : Bool}
    (h : ∀ s, ¬Slot.ArtifactIn id debug s →
      t.readText? (s.path w.store.layout) = w.files.readText? (s.path w.store.layout))
    (id' : CacheId) :
    holding { w with files := t } id' =
      if id' = id then
        { w.holding id' with
          artifact := Function.update (w.holding id').artifact debug
            (ArtifactStore.read? ⟨w.store.layout.files, debug⟩ t id) }
      else w.holding id' := by
  obtain ⟨hrecord, hstored⟩ :=
    holding_stored_congr (h (.entry id' .record) (by simp [Slot.ArtifactIn]))
  split
  · next heq =>
    subst heq
    refine Holding.ext (funext fun mode => ?_) hrecord rfl hstored
    show _ = Function.update (w.holding id').artifact debug _ mode
    by_cases hmode : mode = debug
    · rw [hmode, Function.update_self]
      rfl
    · rw [Function.update_of_ne hmode]
      exact holding_artifact_congr (h _ (by simp [Slot.ArtifactIn, hmode]))
        (h _ (by simp [Slot.ArtifactIn, hmode]))
  · next hne =>
    exact Holding.ext (funext fun mode =>
      holding_artifact_congr (h _ (by simp [Slot.ArtifactIn, hne]))
        (h _ (by simp [Slot.ArtifactIn, hne]))) hrecord rfl hstored

theorem holding_putRecord (id : CacheId) (r : CacheRecord) (w : Workspace) (id' : CacheId) :
    (putRecord id r w).2.holding id' =
      if id' = id then { w.holding id' with record := some r, waiting := some r }
      else w.holding id' := by
  have hrecord : ((putRecord id r w).2.holding id').record =
      (w.current.withRecord id (some r)).record id' := by
    rw [← current_putRecord]
    rfl
  have hwaiting : ((putRecord id r w).2.holding id').waiting =
      if id' = id then some r else w.store.records.unsaved.get? id' := CacheId.get?_insert _ _ _ _
  rw [Books.record_withRecord] at hrecord
  split
  · next heq =>
    rw [if_pos heq] at hrecord hwaiting
    exact Holding.ext rfl hrecord hwaiting rfl
  · next hne =>
    rw [if_neg hne] at hrecord hwaiting
    exact Holding.ext rfl hrecord hwaiting rfl

theorem holding_record? (id : CacheId) (w : Workspace) (id' : CacheId) :
    (record? id w).2.holding id' = w.holding id' := by
  have hrecord : (record? id w).2.current.record id' = w.current.record id' := by
    rw [current_record?]
  have hwaiting : (w.store.records.load w.files w.store.layout.files id).unsaved.get? id' =
      w.store.records.unsaved.get? id' := by rw [RecordTable.unsaved_load]
  exact Holding.ext rfl hrecord hwaiting rfl

theorem holding_removeRecord (id : CacheId) (w : Workspace) (id' : CacheId) :
    (removeRecord id w).2.holding id' =
      if id' = id then { w.holding id' with record := none, waiting := none, stored := none }
      else w.holding id' := by
  have hfiles {s : Slot} (hs : s ≠ .entry id .record) :=
    Slot.readText?_discard w.store.layout hs w.files
  have hrecord : ((removeRecord id w).2.holding id').record =
      (w.current.withRecord id none).record id' := by
    rw [← current_removeRecord]
    rfl
  have hwaiting : ((removeRecord id w).2.holding id').waiting =
      if id' = id then none else w.store.records.unsaved.get? id' := by
    show OrderedMap.get? (OrderedMap.erase _ id) id' = _
    rw [CacheId.get?_erase]
    exact congrArg (fun unsaved => if id' = id then none else OrderedMap.get? unsaved id')
      (RecordTable.unsaved_load _ _ _ id)
  have hartifact : ((removeRecord id w).2.holding id').artifact = (w.holding id').artifact :=
    funext fun debug => holding_artifact_congr (hfiles (by simp)) (hfiles (by simp))
  rw [Books.record_withRecord] at hrecord
  split
  · next heq =>
    subst heq
    have hstored : ((removeRecord id' w).2.holding id').stored = none := by
      show FileTree.readJson? _ _ = none
      rw [removeRecord_eq, readJson?, Slot.readText?_discard_self]
      rfl
    rw [if_pos rfl] at hrecord hwaiting
    exact Holding.ext hartifact hrecord hwaiting hstored
  · next hne =>
    have hstored := (holding_stored_congr (hfiles (s := .entry id' .record) (by simpa using hne))).2
    rw [if_neg hne] at hrecord hwaiting
    exact Holding.ext hartifact hrecord hwaiting hstored

/-- What steps do that end in some way: what is kept of each id in the end if all went well, and
which ids they leave alone in any case. -/
structure Performs (on : CacheId → Holding → Holding) (touched : CacheId → Prop) (w : Workspace)
    (r : Except StoreError Unit) (w' : Workspace) : Prop where
  layout : w'.store.layout = w.store.layout
  settled : w.store.layout.Settled w'.files
  waiting : w'.store.records.Waiting
  done : r = .ok () → ∀ id, w'.holding id = on id (w.holding id)
  others : ∀ id, ¬touched id → (w'.holding id).SameAs (w.holding id)

variable {r : Except StoreError Unit} {s : StorageStep} {steps : List StorageStep}

theorem performs_own (hid : s.id? = some id) (hlayout : w'.store.layout = w.store.layout)
    (hsettled : w.store.layout.Settled w'.files) (hwaiting : w'.store.records.Waiting)
    (hothers : ∀ id', id' ≠ id → w'.holding id' = w.holding id')
    (hown : r = .ok () → w'.holding id = s.effect (w.holding id)) :
    Performs (s.on ·) (s.id? = some ·) w r w' where
  layout := hlayout
  settled := hsettled
  waiting := hwaiting
  done hok id' := by
    rw [StorageStep.on, hid, Option.all_some]
    by_cases heq : id' = id
    · rw [if_pos (decide_eq_true heq), heq, hown hok]
    · rw [if_neg (by simpa using heq), hothers id' heq]
  others id' hne := .of_eq (hothers id' fun heq => hne (heq ▸ hid))

private theorem performs_writeArtifact {debug : Bool} {a : Artifact}
    (hsettled : w.store.layout.Settled w.files) (hwaiting : w.store.records.Waiting)
    (h : (StorageStep.writeArtifact debug id a).act w = (r, w')) :
    Performs ((StorageStep.writeArtifact debug id a).on ·) (some id = some ·) w r w' := by
  cases hwrite : ArtifactStore.write ⟨w.store.layout.files, debug⟩ w.files id a with
  | mk result t =>
    have hact : (StorageStep.writeArtifact debug id a).act w =
        (result, { w.inMode debug with files := t }) := writeArtifact_eq hwrite
    rw [hact] at h
    cases h
    rw [← ArtifactStore.writeUnless_none] at hwrite
    have hchanges := Slot.changes_of_writeArtifactUnless_in hwrite
    have hholding := holding_of_artifact (w := w) fun s hs => hchanges.readText? hsettled hs
    refine performs_own rfl rfl (hchanges.settled hsettled) hwaiting
      (fun id' hne => (hholding id').trans (if_neg hne)) fun hok => ?_
    subst hok
    have hread := Slot.read?_of_writeArtifactUnless hwrite
    exact (hholding id).trans ((if_pos rfl).trans (by rw [hread]; rfl))

private theorem performs_removeArtifact {debug : Bool}
    (hsettled : w.store.layout.Settled w.files) (hwaiting : w.store.records.Waiting)
    (h : (StorageStep.removeArtifact debug id).act w = (r, w')) :
    Performs ((StorageStep.removeArtifact debug id).on ·) (some id = some ·) w r w' := by
  cases h
  have hother (s : Slot) (hs : ¬Slot.ArtifactIn id debug s) :=
    Slot.readText?_removeArtifact_in w.store.layout debug w.files hs
  have hholding := holding_of_artifact (w := w) hother
  have hread := Slot.read?_removeArtifact w.store.layout debug w.files id
  have hchanges := Slot.changes_removeArtifact w.store.layout debug w.files id
  exact performs_own rfl rfl (hchanges.settled hsettled) hwaiting
    (fun id' hne => (hholding id').trans (if_neg hne))
    fun _ => (hholding id).trans ((if_pos rfl).trans (by rw [hread]; rfl))

private theorem performs_saveRecords {debug : Bool}
    (hsettled : w.store.layout.Settled w.files) (hwaiting : w.store.records.Waiting)
    (h : (StorageStep.saveRecords debug).act w = (r, w')) :
    Performs ((StorageStep.saveRecords debug).on ·) (none = some ·) w r w' := by
  cases hsave : w.store.records.save w.files debug w.store.layout.files with
  | mk result rest =>
    obtain ⟨t, records⟩ := rest
    have hrun : saveRecords (w.inMode debug) =
        (result, { w.inMode debug with files := t, store.records := records }) := by
      simp only [saveRecords, inMode, hsave]
    have hact : (StorageStep.saveRecords debug).act w =
        (result.map fun _ => (), { w.inMode debug with files := t, store.records := records }) := by
      show (saveRecords >>= fun _ => pure ()) (w.inMode debug) = _
      rw [bind_apply, hrun]
      cases result <;> rfl
    rw [hact] at h
    cases h
    rw [← RecordTable.saveUnless_none] at hsave
    obtain ⟨written, left, hparted⟩ := RecordTable.exists_parted hsettled hwaiting hsave
    have hchanges := hparted.writes.changes
    have hartifact (id : CacheId) : (holding { w with files := t } id).artifact =
        (w.holding id).artifact := funext fun debug =>
      holding_artifact_congr (hchanges.readText? hsettled (by simp))
        (hchanges.readText? hsettled (by simp))
    refine ⟨rfl, hchanges.settled hsettled, hparted.waits hwaiting, fun hok id => ?_,
      fun id _ => ⟨hartifact id, hparted.get? hwaiting id, fun hsaved => ?_⟩⟩
    · have hdone : ∃ n, result = .ok n := by
        cases result with
        | error e => contradiction
        | ok n => exact ⟨n, rfl⟩
      obtain ⟨hunsaved, hstored⟩ := hparted.onDisk_of_done hdone id
      exact Holding.ext (hartifact id) (hparted.get? hwaiting id) hunsaved hstored
    · obtain ⟨hunsaved, hstored⟩ := hparted.eq_of_unsaved hsaved
      exact Holding.ext (hartifact id) (hparted.get? hwaiting id) (hunsaved.trans hsaved.symm)
        hstored

theorem performs_act (hsettled : w.store.layout.Settled w.files)
    (hwaiting : w.store.records.Waiting) (h : s.act w = (r, w')) :
    Performs (s.on ·) (s.id? = some ·) w r w' := by
  cases s with
  | writeArtifact debug id a => exact performs_writeArtifact hsettled hwaiting h
  | removeArtifact debug id => exact performs_removeArtifact hsettled hwaiting h
  | saveRecords debug => exact performs_saveRecords hsettled hwaiting h
  | putRecord id record =>
    cases h
    have hholding := holding_putRecord id record w
    exact performs_own rfl rfl hsettled (hwaiting.insert id record)
      (fun id' hne => (hholding id').trans (if_neg hne))
      fun _ => (hholding id).trans (if_pos rfl)
  | removeRecord id =>
    cases h
    have hholding := holding_removeRecord id w
    have hchanges := Slot.changes_discard w.store.layout (.entry id .record) w.files
    exact performs_own rfl rfl (hchanges.settled hsettled) ((hwaiting.load _ _ id).remove id)
      (fun id' hne => (hholding id').trans (if_neg hne))
      fun _ => (hholding id).trans (if_pos rfl)
  | lookUp id =>
    cases h
    exact performs_own rfl rfl hsettled (hwaiting.load _ _ id)
      (fun id' _ => holding_record? id w id') fun _ => holding_record? id w id

theorem performs_actAll (hsettled : w.store.layout.Settled w.files)
    (hwaiting : w.store.records.Waiting) (h : StorageStep.actAll steps w = (r, w')) :
    Performs (fun id h => steps.foldl (fun h s => s.on id h) h)
      (fun id => ∃ s ∈ steps, s.id? = some id) w r w' := by
  induction steps generalizing w with
  | nil =>
    cases h
    exact ⟨rfl, hsettled, hwaiting, fun _ _ => rfl, fun _ _ => .of_eq rfl⟩
  | cons s rest ih =>
    rw [StorageStep.actAll, bind_apply] at h
    cases hact : s.act w with
    | mk r₁ w₁ =>
      have hfirst := performs_act hsettled hwaiting hact
      rw [hact] at h
      cases r₁ with
      | error e =>
        cases h
        refine ⟨hfirst.layout, hfirst.settled, hfirst.waiting, fun hok => (nomatch hok),
          fun id hne => hfirst.others id fun hid => hne ⟨s, List.mem_cons_self, hid⟩⟩
      | ok u =>
        have hrest := ih (hfirst.layout ▸ hfirst.settled) hfirst.waiting h
        refine ⟨hrest.layout.trans hfirst.layout, hfirst.layout ▸ hrest.settled, hrest.waiting,
          fun hok id => ?_, fun id hne => ?_⟩
        · rw [List.foldl_cons, hrest.done hok id, hfirst.done rfl id]
        · have hsame := hfirst.others id fun hid => hne ⟨s, List.mem_cons_self, hid⟩
          have hsame' := hrest.others id fun ⟨s', hs', hid⟩ =>
            hne ⟨s', List.mem_cons_of_mem s hs', hid⟩
          exact hsame'.trans hsame

/-- Where the way to the cache directory is open or none of its files is there, what is kept of an
id after steps that went well is what the steps on that id make of it. Whatever becomes of the
steps, an id that none of them is about keeps its artifacts and its record. -/
theorem holding_actAll (hsettled : w.store.layout.Settled w.files)
    (hwaiting : w.store.records.Waiting) (h : StorageStep.actAll steps w = (r, w')) :
    (r = .ok () → ∀ id, w'.holding id = steps.foldl (fun h s => s.on id h) (w.holding id)) ∧
      ∀ id, (∀ s ∈ steps, s.id? ≠ some id) → (w'.holding id).SameAs (w.holding id) := by
  have hperforms := performs_actAll hsettled hwaiting h
  exact ⟨hperforms.done, fun id hne => hperforms.others id fun ⟨s, hs, hid⟩ => hne s hs hid⟩

end Workspace

namespace Sample

open Workspace

def idA : CacheId := ⟨"a", by decide⟩

def idB : CacheId := ⟨"b", by decide⟩

/-- Steps on two ids, in both modes. -/
def interleaved : List StorageStep :=
  [.writeArtifact false idA { code := "1", sourceMap := some "m" }, .putRecord idA record,
    .writeArtifact true idA { code := "2" }, .saveRecords true,
    .writeArtifact false idB { code := "3" }, .putRecord idB plainRecord,
    .writeArtifact false idA { code := "4" }, .removeArtifact true idA, .removeRecord idB,
    .lookUp idA]

/-- What the other way to the cache directory shows of an artifact while it is closed. -/
def veiled : Workspace :=
  ⟨(StorageStep.actAll [.writeArtifact false idB { code := "b" }] (started cacheDir)).2.files,
    (started detour).store⟩

end Sample

open Sample Workspace in
theorem holding_actAll_of_interleaved :
    (StorageStep.actAll interleaved (started cacheDir)).1 = .ok () ∧
      let w' := (StorageStep.actAll interleaved (started cacheDir)).2
      (w'.holding idA).artifact false = some { code := "4" } ∧
        (w'.holding idA).artifact true = none ∧ (w'.holding idA).record = some record ∧
        (w'.holding idA).stored = some record ∧
        (w'.holding idB).artifact false = some { code := "3" } ∧
        (w'.holding idB).record = none := by
  have hok : (StorageStep.actAll interleaved (started cacheDir)).1 = .ok () := by decide +kernel
  have hwaiting : (started cacheDir).store.records.Waiting := fun _ _ h => nomatch h
  obtain ⟨hdone, -⟩ := holding_actAll vacant_cacheDir.settled hwaiting (Prod.ext hok rfl)
  refine ⟨hok, ?_⟩
  simp only [hdone rfl]
  decide +kernel

open Sample Workspace in
/-- Where the way to the cache directory is closed, the first file that is written opens it, and
with it comes to light what was there of other ids. -/
theorem holding_ne_of_closed_way :
    idA ≠ idB ∧
      Store.openAt veiled.files detour Session.defaultVersion false =
        (.ok veiled.store, veiled.files) ∧
      (artifact? idB veiled).1 = none ∧
      (writeArtifact idA { code := "a" } veiled).1 = .ok () ∧
      (artifact? idB (writeArtifact idA { code := "a" } veiled).2).1 = some { code := "b" } := by
  decide +kernel

end BuildCache
