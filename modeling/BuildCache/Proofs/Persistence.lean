import BuildCache.Proofs.PartialSaves
import BuildCache.Proofs.Reopening

/-!
# What does not wait is on disk

However many writes fail in a run, what does not wait for a save is on disk, and the first save that
succeeds brings there whatever did wait.
-/

namespace BuildCache

open FileTree Workspace

/-- What a step does where some files cannot be written. -/
def Operation.runUnless (faults : Faults) :
    Operation → Workspace → Except StoreError Unit × Workspace
  | .commit s file specifiers artifact, w =>
    (s.commitUnless faults file specifiers artifact w).map (·.map fun _ => ()) id
  | .sweep, w => (sweepUnless faults w).map (·.map fun _ => ()) id
  | .save, w => saveUnless faults w
  | op, w => op.run w

theorem Operation.snd_runUnless_sweep (faults : Faults) (w : Workspace) :
    (sweep.runUnless faults w).2 = (sweepUnless faults w).2 := rfl

theorem Operation.runUnless_none (op : Operation) (w : Workspace) :
    op.runUnless .none w = op.run w := by
  cases op with
  | commit s file specifiers artifact =>
    rw [runUnless, Session.commitUnless_none]
    rfl
  | sweep =>
    rw [runUnless, sweepUnless_none]
    rfl
  | save =>
    rw [runUnless, saveUnless_none]
    rfl
  | _ => rfl

namespace Workspace

/-- Where a run leads in which each step meets its own faults. -/
def afterUnless (w : Workspace) : List (Faults × Operation) → Workspace
  | [] => w
  | (faults, op) :: steps => (op.runUnless faults w).2.afterUnless steps

def PermitsUnless (allowed : Workspace → Operation → Prop) (w : Workspace) :
    List (Faults × Operation) → Prop
  | [] => True
  | (faults, op) :: steps => allowed w op ∧ (op.runUnless faults w).2.PermitsUnless allowed steps

instance decidablePermitsUnless (allowed : Workspace → Operation → Prop)
    [∀ w op, Decidable (allowed w op)] (w : Workspace) :
    (steps : List (Faults × Operation)) → Decidable (w.PermitsUnless allowed steps)
  | [] => .isTrue trivial
  | (faults, op) :: steps =>
    have := decidablePermitsUnless allowed (op.runUnless faults w).2 steps
    inferInstanceAs (Decidable (_ ∧ _))

variable {w w' : Workspace} {S : Path → Prop}

/-- Without faults a run is that of the cache. -/
theorem afterUnless_none (ops : List Operation) (w : Workspace) :
    w.afterUnless (ops.map fun op => (.none, op)) = w.after ops := by
  induction ops generalizing w with
  | nil => rfl
  | cons op ops ih =>
    rw [List.map_cons, afterUnless, Operation.runUnless_none]
    exact ih (op.run w).2

theorem Tidy.runUnless (h : Tidy w) (faults : Faults) {op : Operation} (husual : op.Usual S w) :
    Tidy (op.runUnless faults w).2 := by
  cases op with
  | commit s file specifiers artifact => exact h.commitUnless faults s file specifiers artifact
  | sweep =>
    rw [Operation.snd_runUnless_sweep]
    exact h.sweepUnless faults
  | save => exact h.saveUnless faults
  | _ => exact h.run husual

theorem Tidy.afterUnless (h : Tidy w) {steps : List (Faults × Operation)}
    (hsteps : w.PermitsUnless (fun w op => op.Usual S w) steps) : Tidy (w.afterUnless steps) := by
  induction steps generalizing w with
  | nil => exact h
  | cons step steps ih =>
    obtain ⟨faults, op⟩ := step
    exact ih (h.runUnless faults hsteps.1) hsteps.2

/-- What does not wait is on disk. A save succeeds if none of its writes fails, which is if nothing
waits after it, and then whoever opens the cache anew knows all that was known. -/
structure Persisted (w : Workspace) : Prop where
  ids : w.store.ids.dirty = false → ∀ ids, w.store.ids.value = some ids →
    w.files.tableAt w.store.layout.ids = ids
  dependents : w.store.dependents.dirty = false → ∀ dependents,
    w.store.dependents.value = some dependents →
    w.files.tableAt w.store.layout.dependents = dependents
  records : ∀ id, w.store.records.unsaved.get? id = none → ∀ record?,
    w.store.records.loaded.get? id = some record? →
    w.files.readJson? (RecordTable.path w.store.layout.files id) = record?
  written : ∀ faults, ∃ c : SaveCourse, c.Taken faults w.store w.files (saveUnless faults w).1
    (saveUnless faults w).2.files (saveUnless faults w).2.store ∧
      ((saveUnless faults w).1.isOk = true ↔ c.NoneFailed)
  saved : ∀ faults, (saveUnless faults w).1.isOk = true ↔
    (saveUnless faults w).2.store.isDirty = false
  reopened : trimBlanks w.store.version = w.store.version →
    ∀ faults, (saveUnless faults w).1.isOk = true → ∀ debug, ∃ w',
      reopen w.store.version debug (saveUnless faults w).2 = (.ok (), w') ∧
        w'.current = w.current ∧ w'.flags = ⟨false, false, false, 0⟩

theorem isOk_saveUnless_iff (h : Tidy w) (faults : Faults) :
    (saveUnless faults w).1.isOk = true ↔ (saveUnless faults w).2.store.isDirty = false := by
  constructor
  · exact isDirty_saveUnless h.linked.ids.loaded h.linked.dependents.loaded
  · intro hclean
    obtain ⟨c, hcourse⟩ := exists_taken faults w.store w.files
    exact hcourse.isOk_iff.mpr (hcourse.noneFailed_of_clean hclean)

theorem exists_reopen_of_isOk_saveUnless (h : Tidy w) {faults : Faults}
    (htrim : trimBlanks w.store.version = w.store.version)
    (hok : (saveUnless faults w).1.isOk = true) (debug : Bool) :
    ∃ w', reopen w.store.version debug (saveUnless faults w).2 = (.ok (), w') ∧
      w'.current = w.current ∧ w'.flags = ⟨false, false, false, 0⟩ := by
  have hsaves := saves_saveUnless faults h.grounded.settled h.linked
  have hversion : (saveUnless faults w).2.store.version = w.store.version := hsaves.version
  obtain ⟨hreopen, -, hcurrent⟩ := (h.saveUnless faults).reopen_of_clean
    ((isOk_saveUnless_iff h faults).mp hok) (by rwa [hversion]) debug
  rw [hversion] at hreopen hcurrent
  exact ⟨_, hreopen, hcurrent.trans hsaves.current, rfl⟩

theorem Tidy.persisted (h : Tidy w) : w.Persisted where
  ids hclean ids hvalue := (h.linked.ids.clean hclean ids hvalue).symm
  dependents hclean dependents hvalue :=
    (h.linked.dependents.clean hclean dependents hvalue).symm
  records id hnone record? hloaded := (h.linked.clean id trivial hnone record? hloaded).symm
  written faults := by
    obtain ⟨c, hcourse⟩ := exists_taken faults w.store w.files
    exact ⟨c, hcourse, hcourse.isOk_iff⟩
  saved := isOk_saveUnless_iff h
  reopened htrim _ hok debug := exists_reopen_of_isOk_saveUnless h htrim hok debug

end Workspace

/-- Whatever lay in the cache directory at first and whichever writes fail in a run, nothing is lost
as long as the way to the directory stays open. -/
theorem persisted_afterUnless {dir : Path} {version : String} {debug : Bool} {t : FileTree}
    (hsettled : (Layout.mk dir).Settled t) (hhoused : (Layout.mk dir).Housed t) {w : Workspace}
    (hopen : Store.openAt t dir version debug = (.ok w.store, w.files))
    {steps : List (Faults × Operation)}
    (hsteps : w.PermitsUnless (fun w op => op.Usual (fun _ => True) w) steps) :
    (w.afterUnless steps).Persisted :=
  ((tidy_of_openAt hsettled hhoused hopen).afterUnless hsteps).persisted

namespace Sample

/-- Some files cannot be written, for want of space. -/
def full (slots : List Slot) : Faults := fun s =>
  if s ∈ slots then some (.io cacheDir (.other "No space left on device")) else none

/-- A save, a commit and a sweep fail, each at another file. -/
def failing : List (Faults × Operation) :=
  [(.none, .commitRecord importer record),
    (full [.ids, .entry (.forPath importer) .record], .save),
    (full [.entry (.forPath other) (.code false)], .commit session other [] { code := "g" }),
    (full [.dependents], .sweep), (.none, .evict other)]

def shutOut : Workspace := ⟨closedWay, (started detour).store⟩

/-- A commit and a save without any failure. -/
def simple : List Operation := [.commitRecord other plainRecord, .save]

end Sample

open Sample

theorem persisted_of_failing :
    ((started cacheDir).afterUnless failing).store.isDirty = true ∧
      (save ((started cacheDir).afterUnless failing)).1.isOk = true ∧
      ((started cacheDir).afterUnless failing).Persisted := by
  have hfacts : ((started cacheDir).afterUnless failing).store.isDirty = true ∧
      (save ((started cacheDir).afterUnless failing)).1.isOk = true ∧
      (started cacheDir).PermitsUnless (fun w op => op.Usual (fun _ => True) w) failing := by
    decide +kernel
  obtain ⟨hdirty, hok, hsteps⟩ := hfacts
  exact ⟨hdirty, hok, persisted_afterUnless vacant_cacheDir.settled vacant_cacheDir.housed
    (openAt_cacheDir _) hsteps⟩

/-- Where the way to the cache directory is closed at first, a table in memory is not the one on
disk and does not wait, and a version with a blank before it does not find what it saved. -/
theorem not_persisted_of_shutOut_and_blank :
    (Store.openAt closedWay detour Session.defaultVersion false = (.ok shutOut.store, closedWay) ∧
      (save (commitRecord other plainRecord shutOut).2).1.isOk = true ∧
      ¬(shutOut.after simple).Persisted) ∧
    (Store.openAt tree cacheDir " 1" false = (.ok (opened cacheDir " 1").store, tree) ∧
      (save (commitRecord other plainRecord (opened cacheDir " 1")).2).1.isOk = true ∧
      ((opened cacheDir " 1").after simple).current.ids.contains other = true ∧
      (reopen " 1" false ((opened cacheDir " 1").after simple)).1.isOk = true ∧
      (reopen " 1" false ((opened cacheDir " 1").after simple)).2.current.ids.contains other =
        false) := by
  have hfacts : closedWay.readText? (Slot.marker.path ⟨detour⟩) = none ∧
      (save (commitRecord other plainRecord shutOut).2).1.isOk = true ∧
      (shutOut.after simple).store.dependents.dirty = false ∧
      (shutOut.after simple).store.dependents.value = some .empty ∧
      Dependents.Lists ((shutOut.after simple).files.tableAt
        (shutOut.after simple).store.layout.dependents) dependency importer := by
    decide +kernel
  obtain ⟨hmarker, hok, hclean, hvalue, hlists⟩ := hfacts
  have hopen : Store.openAt closedWay detour Session.defaultVersion false =
      (.ok shutOut.store, closedWay) := by
    rw [Store.openAt, Slot.path_marker, hmarker]
    rfl
  refine ⟨⟨hopen, hok, fun h => ?_⟩, openAt_cacheDir _, ?_⟩
  · rw [h.dependents hclean _ hvalue] at hlists
    revert hlists
    decide
  · decide +kernel

end BuildCache
