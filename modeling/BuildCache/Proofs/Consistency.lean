import BuildCache.Proofs.Sessions

/-!
# The reverse index over runs

In memory and on disk the index is true to the records, whatever sessions do and however often one
ends without a save: records and artifacts go from disk at once, tables only with a save.
-/

namespace BuildCache

open FileTree Workspace

/-- The reverse index is true to the ids and records. -/
structure Books.TrueIndex (b : Books) : Prop where
  noneEmpty : ∀ y files, b.dependents.get? y = some files → files.isEmpty = false
  tracked : ∀ y f, b.dependents.Lists y f → b.ids.contains f = true
  exact : ∀ f id r, b.ids.get? f = some id → b.record id = some r →
    ∀ y, b.dependents.Lists y f ↔ r.dependencySet.contains y = true

theorem Books.Consistent.trueIndex {S : Path → Prop} {b : Books} (h : Books.Consistent S b) :
    b.TrueIndex where
  noneEmpty := h.noneEmpty
  tracked := h.tracked
  exact f id r hid hr y := ⟨h.sound f id r y hid hr, h.complete f id r y hid hr fun h => h⟩

namespace Workspace

/-- The index is true to the records, in memory and on disk. -/
structure Kept (S : Path → Prop) (w : Workspace) : Prop where
  grounded : w.Grounded
  linked : w.Linked fun _ => True
  current : Books.Consistent S w.current
  saved : Books.Consistent S w.saved

variable {S : Path → Prop} {w w' : Workspace}

theorem Kept.inward (h : w.Kept S) (hw : Inward w w') (hcurrent : Books.Consistent S w'.current) :
    w'.Kept S :=
  ⟨h.grounded.inward hw, hw.linked _ h.linked, hcurrent, hw.saved ▸ h.saved⟩

theorem Kept.builds {built : CacheId → Prop} (h : w.Kept S) (hw : Builds built w w') : w'.Kept S where
  grounded := h.grounded.of_changes (by rw [hw.store]) hw.changes
  linked := hw.linked h.grounded.settled h.linked
  current := hw.current h.grounded.settled ▸ h.current
  saved := hw.saved h.grounded.settled ▸ h.saved

theorem Kept.sheds (h : w.Kept S) (hw : Sheds w w') (hcurrent : Books.Consistent S w'.current) :
    w'.Kept S where
  grounded := h.grounded.of_changes hw.layout hw.changes
  linked := hw.linked _ h.linked
  current := hcurrent
  saved := h.saved.of_fewer_records hw.tables.1 hw.tables.2 hw.records

theorem Kept.live (h : w.Kept S) (id : CacheId) (hid : (w.current.record id).isSome = true) :
    w.Live id := h.current.owned id hid

theorem Kept.collects (h : w.Kept S) (hw : Collects w w') : w'.Kept S where
  grounded := h.grounded.of_changes hw.setup.layout hw.changes
  linked := hw.linked h.grounded.settled h.linked fun id _ => h.live id
  current := hw.current h.grounded.settled h.live ▸ h.current
  saved := by
    obtain ⟨⟨hids, hdependents⟩, -⟩ := hw.tables h.grounded.settled
    exact h.saved.of_fewer_records hids hdependents (hw.records h.grounded.settled)

theorem Kept.save (h : w.Kept S) (hok : (save w).1.isOk = true) : (save w).2.Kept S := by
  have hsaves := saves_save h.grounded.settled h.linked
  have hsaved := saved_save h.grounded.settled h.linked hok
  exact ⟨h.grounded.of_changes hsaves.layout hsaves.changes, hsaves.linked,
    hsaves.current ▸ h.current, hsaved ▸ h.current⟩

theorem Kept.reopens {version : String} {debug : Bool} (h : w.Kept S)
    (hw : Reopens version debug w w') : w'.Kept S := by
  have hsaved : Books.Consistent S w'.saved := by
    rcases hw.saved with hsame | hempty
    · exact hsame ▸ h.saved
    · exact hempty ▸ Books.consistent_empty S
  exact ⟨hw.grounded, hw.linked _, hw.current ▸ hsaved, hsaved⟩

theorem Kept.evict (h : w.Kept S) (file : Path) : (evict file w).2.Kept S :=
  h.sheds (sheds_evict file w) (current_evict file w ▸ h.current.evict file)

theorem Kept.evictDependents (h : w.Kept S) (dependency : Path) :
    (evictDependents dependency w).2.Kept S := by
  refine h.sheds (evictionClosed_sheds.evictDependents dependency w) ?_
  rw [(evictDependents_spec dependency w).2]
  exact Books.Consistent.evictDependents h.current dependency

theorem evictionClosed_kept (S : Path → Prop) :
    EvictionClosed fun w w' => w.Kept S → w'.Kept S where
  refl _ h := h
  trans h h' hw := h' (h hw)
  ids w h := h.inward (inward_ids w) h.current
  dependents w h := h.inward (inward_dependents w) h.current
  evict file _ h := h.evict file
  evictDependents dependency _ h := h.evictDependents dependency

theorem Kept.sweep (h : w.Kept S) (hok : (sweep w).1.isOk = true) : (sweep w).2.Kept S := by
  have hswept := (evictionClosed_kept S).swept w h
  have hsaved := hswept.save (isOk_save_of_sweep hok)
  rw [snd_sweep]
  exact hsaved

theorem Kept.assignId (h : w.Kept S) (hS : Books.Distinct S) {file : Path} (hfile : S file) :
    (assignId file w).2.Kept S := by
  refine h.inward (inward_assignId file w) ?_
  rcases assignId_spec file w with ⟨e, -, hcurrent⟩ | ⟨id, -, hcurrent, -⟩
  · exact hcurrent ▸ h.current
  · exact hcurrent ▸ h.current.assign hS hfile

theorem Kept.replaceRecord (h : w.Kept S) (hS : Books.Distinct S) {file : Path} {id : CacheId}
    (hid : w.current.ids.get? file = some id) (r : CacheRecord) :
    (replaceRecord file id r w).Kept S :=
  h.inward (inward_replaceRecord file id r w)
    (current_replaceRecord file id r w ▸ h.current.put hS hid r)

theorem Kept.commitRecord (h : w.Kept S) (hS : Books.Distinct S) {file : Path} (hfile : S file)
    (r : CacheRecord) : (commitRecord file r w).2.Kept S := by
  refine h.inward (inward_commitRecord file r w) ?_
  rcases commitRecord_spec file r w with ⟨e, -, hcurrent⟩ | ⟨id, -, hcurrent, hid⟩
  · exact hcurrent ▸ h.current
  · exact hcurrent ▸ (h.current.assign hS hfile).put hS hid r

theorem Kept.setDependencies (h : w.Kept S) (hS : Books.Distinct S) (file : Path)
    (dependencies : PathSet) : (setDependencies file dependencies w).2.Kept S := by
  refine h.inward (inward_setDependencies file dependencies w) ?_
  rcases setDependencies_spec file dependencies w with ⟨e, -, hcurrent⟩ | ⟨id, r, -, hid, hcurrent⟩
  · exact hcurrent ▸ h.current
  · exact hcurrent ▸ h.current.put hS hid r

theorem Kept.commit (h : w.Kept S) (hS : Books.Distinct S) (s : Session) {file : Path}
    (hfile : S file) (specifiers : List String) (artifact : Artifact) :
    (s.commit file specifiers artifact w).2.Kept S := by
  have hassigned := h.assignId hS hfile
  have hresult := s.commitResult file specifiers artifact w
  generalize s.commit file specifiers artifact w = result at hresult ⊢
  cases hresult with
  | rejected e => exact h
  | unwritten e id w' hbuilds => exact hassigned.builds hbuilds
  | done stamp id w' hstamp hbuilds hartifact hid =>
    have hwritten := hassigned.builds hbuilds
    exact (hwritten.inward (inward_ids w') hwritten.current).replaceRecord hS hid _

theorem Kept.run (h : w.Kept S) (hS : Books.Distinct S) {op : Operation} (horderly : op.Orderly S w)
    (hguarded : op.Guarded w) : (op.run w).2.Kept S := by
  cases op with
  | commit s file specifiers artifact => exact h.commit hS s horderly specifiers artifact
  | commitRecord file record => exact h.commitRecord hS horderly record
  | assignId file => exact h.assignId hS horderly
  | setDependencies file dependencies => exact h.setDependencies hS file dependencies
  | evict file => exact h.evict file
  | evictDependents dependency => exact h.evictDependents dependency
  | sweep =>
    rw [Operation.snd_run_sweep]
    exact h.sweep hguarded
  | collectGarbage => exact h.collects (collects_collectGarbage h.grounded.housed)
  | save => exact h.save horderly
  | check s file =>
    obtain ⟨hinward, hcurrent⟩ := inward_check s.fingerprint file w
    exact h.inward hinward (hcurrent ▸ h.current)
  | reopen version debug => exact h.reopens (reopens_reopen h.grounded horderly)
  | edit files => exact h.builds (builds_edit ⟨horderly, hguarded⟩)

theorem kept_of_open {dir : Path} {version : String} {debug : Bool} {t : FileTree}
    (hvacant : (Layout.mk dir).Vacant t)
    (hopen : Store.openAt t dir version debug = (.ok w.store, w.files)) : w.Kept S := by
  obtain ⟨hgrounded, hlinked, hcurrent, hsaved, -⟩ := blank_of_open hvacant hopen
  exact ⟨hgrounded, hlinked _, hcurrent ▸ Books.consistent_empty S,
    hsaved ▸ Books.consistent_empty S⟩

end Workspace

/-- Over every run of sessions on a cache directory that was empty, the reverse index is true to the
records, as long as the way to the directory stays open and no sweep fails to save. -/
theorem trueIndex_after {S : Path → Prop} (hS : Books.Distinct S) {dir : Path} {version : String}
    {debug : Bool} {t : FileTree} (hvacant : (Layout.mk dir).Vacant t) {w : Workspace}
    (hopen : Store.openAt t dir version debug = (.ok w.store, w.files)) {ops : List Operation}
    (hops : w.Permits (fun w op => op.Orderly S w ∧ op.Guarded w) ops) :
    (w.after ops).current.TrueIndex := by
  have hkept : (w.after ops).Kept S :=
    after_of_step (fun w op h hop => h.run hS hop.1 hop.2) (kept_of_open hvacant hopen) hops
  exact hkept.current.trueIndex

namespace Sample

def plainRecord : CacheRecord := { stamp := ⟨.ofBytes [], 0⟩, fingerprint := "" }

def record : CacheRecord :=
  { plainRecord with dependencies := some (OrderedMap.empty.insert dependency {}) }

/-- A session that drops an eviction. -/
def droppedEviction : List Operation :=
  [.commitRecord importer record, .sweep, .evict importer, restart]

/-- The files of a saved session without the directory that the way leads through. -/
def closedWay : FileTree :=
  (((started detour).after [.commitRecord importer record, .save]).files.removeTree
    (.ofString "/proj")).2

/-- A session that cannot see the cache writes over its ids. -/
def closingTheWay : List Operation :=
  [.commitRecord importer record, .save, .edit closedWay, restart,
    .commitRecord other plainRecord, .save, restart]

/-- A cache directory whose way leads through the place of its table of ids. -/
def blocked : Path := .ofString "/c/cache_id_map.json/.."

/-- A sweep that writes the reverse index and not the ids. -/
def failingSweep : List Operation := [.commitRecord importer record, .sweep, restart]

end Sample

open Sample

theorem trueIndex_of_droppedEviction :
    ((started cacheDir).after droppedEviction).current.TrueIndex :=
  trueIndex_after distinct_named vacant_cacheDir (openAt_cacheDir _) (by decide +kernel)

/-- Without either of the two conditions the index may list a file that has no id. -/
theorem not_trueIndex_of_closingTheWay_and_failingSweep :
    Books.Distinct Named ∧
    ((Layout.mk detour).Vacant tree ∧
      Store.openAt tree detour Session.defaultVersion false = (.ok (started detour).store, tree) ∧
      (started detour).Permits (fun w op => op.Orderly Named w) closingTheWay ∧
      ¬((started detour).after closingTheWay).current.TrueIndex) ∧
    ((Layout.mk blocked).Vacant tree ∧
      Store.openAt tree blocked Session.defaultVersion false = (.ok (started blocked).store, tree) ∧
      (started blocked).Permits (fun w op => op.Orderly Named w) failingSweep ∧
      ¬((started blocked).after failingSweep).current.TrueIndex) := by
  have hclosing : (started detour).Permits (fun w op => op.Orderly Named w) closingTheWay ∧
      ((started detour).after closingTheWay).current.dependents.Lists dependency importer ∧
      ((started detour).after closingTheWay).current.ids.contains importer = false := by
    decide +kernel
  have hfailing : (Layout.mk blocked).Vacant tree ∧
      (started blocked).Permits (fun w op => op.Orderly Named w) failingSweep ∧
      ((started blocked).after failingSweep).current.dependents.Lists dependency importer ∧
      ((started blocked).after failingSweep).current.ids.contains importer = false := by
    decide +kernel
  obtain ⟨hpermits, hlists, huntracked⟩ := hclosing
  obtain ⟨hblocked, hpermits', hlists', huntracked'⟩ := hfailing
  refine ⟨distinct_named,
    ⟨vacant_detour, openAt_of_vacant vacant_detour _ _, hpermits, fun h => ?_⟩,
    ⟨hblocked, openAt_of_vacant hblocked _ _, hpermits', fun h => ?_⟩⟩
  · rw [h.tracked _ _ hlists] at huntracked
    contradiction
  · rw [h.tracked _ _ hlists'] at huntracked'
    contradiction

end BuildCache
