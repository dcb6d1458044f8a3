import BuildCache.Proofs.Sessions
import BuildCache.Proofs.Workspace.Touching

/-!
# Tidy workspaces

What every step keeps, whether it succeeds or fails and whatever lay in the cache directory before:
memory is true to the disk where nothing waits, records in memory are of ids in use, and a marker
that does not have to be written is there.
-/

namespace BuildCache

open FileTree

namespace Workspace

/-- Each record in memory belongs to an id in use. -/
def Owned (w : Workspace) : Prop :=
  ∀ id r, w.store.records.loaded.get? id = some (some r) → w.Live id

/-- A marker that does not have to be written says the version in use. -/
def Marked (w : Workspace) : Prop :=
  trimBlanks w.store.version = w.store.version → w.store.unmarked = false →
    ∃ x, w.files.readText? (Slot.marker.path w.store.layout) = some x ∧
      trimBlanks x = w.store.version

structure Tidy (w : Workspace) : Prop where
  grounded : w.Grounded
  linked : w.Linked fun _ => True
  owned : w.Owned
  marked : w.Marked

/-- The same is remembered of records, under the same ids, and the marker is as before. -/
structure Recalls (w w' : Workspace) : Prop where
  loaded : w'.store.records.loaded = w.store.records.loaded
  ids : w'.current.ids = w.current.ids
  unmarked : w'.store.unmarked = w.store.unmarked

variable {w w' : Workspace}

theorem Recalls.refl (w : Workspace) : Recalls w w := ⟨rfl, rfl, rfl⟩

theorem Recalls.trans {w'' : Workspace} (h : Recalls w w') (h' : Recalls w' w'') : Recalls w w'' :=
  ⟨h'.loaded.trans h.loaded, h'.ids.trans h.ids, h'.unmarked.trans h.unmarked⟩

theorem Recalls.owned (h : Recalls w w') (hw : w.Owned) : w'.Owned := by
  intro id r hr
  rw [h.loaded] at hr
  rw [Live, h.ids]
  exact hw id r hr

theorem recalls_ids (w : Workspace) : Recalls w (ids w).2 := ⟨rfl, rfl, rfl⟩

theorem recalls_dependents (w : Workspace) : Recalls w (dependents w).2 := ⟨rfl, rfl, rfl⟩

theorem recalls_changeDependents (change : Dependents → Dependents) (w : Workspace) :
    Recalls w (changeDependents change w).2 := ⟨rfl, rfl, rfl⟩

theorem recalls_forgetFile (file : Path) (w : Workspace) : Recalls w (forgetFile file w).2 := by
  rw [forgetFile_eq]
  split
  · exact (recalls_dependents w).trans (recalls_changeDependents _ _)
  · exact recalls_dependents w

theorem recalls_moveFile (file : Path) (previous next : PathSet) (w : Workspace) :
    Recalls w (moveFile file previous next w).2 := by
  rw [moveFile]
  cases previous.sameKeys next
  · exact recalls_changeDependents _ w
  · exact .refl w

theorem recalls_unlist (file : Path) (record : Option CacheRecord) (w : Workspace) :
    Recalls w (unlist file record w) := by
  cases record with
  | some r => exact recalls_moveFile _ _ _ w
  | none => exact recalls_forgetFile _ w

theorem recalls_relist (file : Path) (previous : Option CacheRecord) (next : PathSet)
    (w : Workspace) : Recalls w (relist file previous next w) := by
  cases previous with
  | some previous => exact recalls_moveFile _ _ _ w
  | none => exact (recalls_forgetFile _ w).trans (recalls_moveFile _ _ _ _)

theorem loaded_load (table : RecordTable) (t : FileTree) (dir : Path) {id id' : CacheId}
    (hne : id' ≠ id) : (table.load t dir id).loaded.get? id' = table.loaded.get? id' := by
  rw [RecordTable.load]
  split
  · rfl
  · exact (CacheId.get?_insert _ _ _ _).trans (if_neg hne)

theorem Owned.record? (h : w.Owned) {id : CacheId} (hid : w.Live id) : (record? id w).2.Owned := by
  intro id' r hr
  rw [Live, current_record?]
  by_cases heq : id' = id
  · exact heq ▸ hid
  · exact h id' r ((loaded_load w.store.records w.files _ heq).symm.trans hr)

theorem Owned.putRecord (h : w.Owned) {id : CacheId} (hid : w.Live id) (r : CacheRecord) :
    (putRecord id r w).2.Owned := by
  intro id' r' hr'
  show w.Live id'
  simp only [Workspace.putRecord, RecordTable.insert, CacheId.get?_insert] at hr'
  split at hr'
  · next heq => exact heq ▸ hid
  · exact h id' r' hr'

theorem Owned.replaceRecord (h : w.Owned) {file : Path} {id : CacheId}
    (hid : w.current.ids.get? file = some id) (r : CacheRecord) :
    (replaceRecord file id r w).Owned := by
  have hrelisted := recalls_relist file (w.current.record id) r.dependencySet
    (Workspace.record? id w).2
  have hloaded := hrelisted.owned (h.record? ⟨file, hid⟩)
  refine hloaded.putRecord ⟨file, ?_⟩ r
  rw [hrelisted.ids, current_record?, hid]

theorem Owned.changeIds (h : w.Owned) {change : IdTable → IdTable}
    (hkept : ∀ id, w.Live id → (changeIds change w).2.Live id) : (changeIds change w).2.Owned :=
  fun id r hr => hkept id (h id r hr)

theorem unmarked_replaceRecord (file : Path) (id : CacheId) (r : CacheRecord) (w : Workspace) :
    (replaceRecord file id r w).store.unmarked = w.store.unmarked :=
  (recalls_relist file (w.current.record id) r.dependencySet (record? id w).2).unmarked

theorem Owned.assignId (h : w.Owned) (file : Path) :
    (assignId file w).2.Owned ∧ (assignId file w).2.store.unmarked = w.store.unmarked := by
  cases hid : w.current.ids.get? file with
  | some id =>
    rw [assignId_of_tracked hid]
    exact ⟨(recalls_ids w).owned h, rfl⟩
  | none =>
    rw [assignId_of_untracked hid]
    cases StoreError.ensureText [file] with
    | error e => exact ⟨(recalls_ids w).owned h, rfl⟩
    | ok u =>
      refine ⟨((recalls_ids w).owned h).changeIds fun id hlive => ?_, rfl⟩
      obtain ⟨f, hf⟩ := hlive
      have hf : w.current.ids.get? f = some id := hf
      refine ⟨f, ?_⟩
      rw [current_changeIds, current_ids]
      simp only [Books.get?_insert_ids]
      rw [if_neg, hf]
      intro hsame
      rw [Books.get?_same w.current.ids hsame, hid] at hf
      contradiction

theorem Owned.evict (h : w.Owned) (file : Path) :
    (Workspace.evict file w).2.Owned ∧ (Workspace.evict file w).2.store.unmarked = w.store.unmarked := by
  cases hid : w.current.ids.get? file with
  | none =>
    rw [evict_of_untracked hid]
    refine ⟨((recalls_ids w).owned h).changeIds fun id hlive => ?_, rfl⟩
    obtain ⟨f, hf⟩ := hlive
    have hf : w.current.ids.get? f = some id := hf
    refine ⟨f, ?_⟩
    rw [current_changeIds, current_ids]
    simp only [Books.get?_erase_ids]
    rw [if_neg, hf]
    intro hsame
    rw [Books.get?_same w.current.ids hsame, hid] at hf
    contradiction
  | some id =>
    have hunlisted := recalls_unlist file (w.current.record id) (removeRecord id (untrack file w)).2
    have hunmarked : (Workspace.evict file w).2.store.unmarked = w.store.unmarked := by
      rw [evict_of_tracked hid]
      exact hunlisted.unmarked
    have hloaded : (Workspace.evict file w).2.store.records.loaded =
        (w.store.records.load w.files w.store.layout.files id).loaded.insert id none := by
      rw [evict_of_tracked hid]
      exact hunlisted.loaded
    refine ⟨fun id' r hr => ?_, hunmarked⟩
    rw [hloaded, CacheId.get?_insert] at hr
    by_cases heq : id' = id
    · simp [heq] at hr
    · rw [if_neg heq, loaded_load w.store.records w.files _ heq] at hr
      rw [Live, current_evict]
      refine Books.live_evict ?_ (h id' r hr)
      rw [hid]
      exact fun hother => heq (Option.some.inj hother).symm

theorem Tidy.inward (h : Tidy w) (hw : Inward w w')
    (hrecalls : w'.Owned ∧ w'.store.unmarked = w.store.unmarked) : Tidy w' where
  grounded := h.grounded.inward hw
  linked := hw.linked _ h.linked
  owned := hrecalls.1
  marked := by
    rw [Marked, hw.version, hw.files, hw.layout, hrecalls.2]
    exact h.marked

theorem Tidy.recalls (h : Tidy w) (hw : Inward w w') (hrecalls : Recalls w w') : Tidy w' :=
  h.inward hw ⟨hrecalls.owned h.owned, hrecalls.unmarked⟩

theorem Tidy.of_changes {touched : Slot → Prop} (h : Tidy w) (hsetup : SameSetup w w')
    (hchanges : w.store.layout.Changes touched w.files w'.files) (hmarker : ¬touched .marker)
    (hlinked : w'.Linked fun _ => True)
    (hrecalls : w'.Owned ∧ w'.store.unmarked = w.store.unmarked) : Tidy w' where
  grounded := h.grounded.of_changes hsetup.layout hchanges
  linked := hlinked
  owned := hrecalls.1
  marked := by
    rw [Marked, hsetup.version, hsetup.layout, hrecalls.2,
      hchanges.readText? h.grounded.settled hmarker]
    exact h.marked

theorem Tidy.builds {built : CacheId → Prop} (h : Tidy w) (hw : Builds built w w') : Tidy w' := by
  have hsettled := h.grounded.settled
  refine h.of_changes (by constructor <;> rw [hw.store]) hw.changes ?_
    (hw.linked hsettled h.linked) ⟨fun id r hr => ?_, by rw [hw.store]⟩
  · rintro ⟨id, -, part, -, heq⟩
    cases heq
  · rw [hw.store] at hr
    rw [Live, hw.current hsettled]
    exact h.owned id r hr

theorem Tidy.assignId (h : Tidy w) (file : Path) : Tidy (assignId file w).2 :=
  h.inward (inward_assignId file w) (h.owned.assignId file)

theorem Tidy.replaceRecord (h : Tidy w) {file : Path} {id : CacheId}
    (hid : w.current.ids.get? file = some id) (r : CacheRecord) :
    Tidy (replaceRecord file id r w) :=
  h.inward (inward_replaceRecord file id r w)
    ⟨h.owned.replaceRecord hid r, unmarked_replaceRecord file id r w⟩

theorem Tidy.commitRecord (h : Tidy w) (file : Path) (r : CacheRecord) :
    Tidy (commitRecord file r w).2 := by
  rw [commitRecord_eq]
  cases StoreError.ensureText r.dependencyPaths with
  | error e => exact h
  | ok u =>
    have hassigned := h.assignId file
    have hspec := assignId_spec file w
    simp only
    cases hassign : Workspace.assignId file w with
    | mk result w₁ =>
      rw [hassign] at hassigned hspec
      rcases hspec with ⟨e, rfl, -⟩ | ⟨id, rfl, hcurrent, hid⟩
      · exact hassigned
      · exact hassigned.replaceRecord (hcurrent ▸ hid) r

theorem Tidy.record? (h : Tidy w) {id : CacheId} (hid : w.Live id) : Tidy (record? id w).2 :=
  h.inward (inward_record? id w) ⟨h.owned.record? hid, rfl⟩

theorem Tidy.ids (h : Tidy w) : Tidy (ids w).2 := h.recalls (inward_ids w) (recalls_ids w)

theorem Tidy.setDependencies (h : Tidy w) (file : Path) (dependencies : PathSet) :
    Tidy (setDependencies file dependencies w).2 := by
  rw [setDependencies_eq]
  cases StoreError.ensureText dependencies.toList with
  | error e => exact h
  | ok u =>
    simp only
    cases hid : w.current.ids.get? file with
    | none => exact h.ids
    | some id =>
      have hloaded : Tidy (Workspace.record? id (Workspace.ids w).2).2 := h.ids.record? ⟨file, hid⟩
      simp only
      cases w.current.record id with
      | none => exact hloaded
      | some r =>
        have hmoved := recalls_moveFile file r.dependencySet dependencies
          (Workspace.record? id (Workspace.ids w).2).2
        refine (hloaded.recalls (inward_moveFile _ _ _ _) hmoved).inward (inward_putRecord _ _ _)
          ⟨(hmoved.owned hloaded.owned).putRecord ⟨file, ?_⟩ _, rfl⟩
        rw [hmoved.ids, current_record?, current_ids, hid]

theorem Tidy.check (h : Tidy w) (fingerprint : Fingerprint) (file : Path) :
    Tidy (check fingerprint file w).2 := by
  cases hid : w.current.ids.get? file with
  | none =>
    rw [check_of_untracked hid]
    exact h.ids
  | some id =>
    rw [check_of_tracked hid]
    exact h.ids.record? ⟨file, hid⟩

theorem Tidy.commitUnless (h : Tidy w) (faults : Faults) (s : Session) (file : Path)
    (specifiers : List String) (artifact : Artifact) :
    Tidy (s.commitUnless faults file specifiers artifact w).2 := by
  have hassigned := h.assignId file
  have hresult := s.commitUnlessResult faults file specifiers artifact w
  generalize s.commitUnless faults file specifiers artifact w = result at hresult ⊢
  cases hresult with
  | rejected e => exact h
  | unwritten e id w' hbuilds => exact hassigned.builds hbuilds
  | done stamp id w' hstamp hbuilds hartifact hid =>
    exact (hassigned.builds hbuilds).ids.replaceRecord hid _

theorem Tidy.commit (h : Tidy w) (s : Session) (file : Path) (specifiers : List String)
    (artifact : Artifact) : Tidy (s.commit file specifiers artifact w).2 := by
  rw [← Session.commitUnless_none]
  exact h.commitUnless .none s file specifiers artifact

theorem Tidy.evict (h : Tidy w) (file : Path) : Tidy (evict file w).2 := by
  have hsheds := sheds_evict file w
  refine h.of_changes hsheds.toSameSetup hsheds.changes ?_ (hsheds.linked _ h.linked)
    (h.owned.evict file)
  rintro ⟨id, part, heq⟩
  cases heq

theorem evictionClosed_tidy : EvictionClosed fun w w' => Tidy w → Tidy w' :=
  .of_dropping (fun _ h => h) (fun h h' hw => h' (h hw)) (fun _ h => h.ids)
    (fun w h => h.recalls (inward_dependents w) (recalls_dependents w))
    (fun file _ h => h.evict file)
    fun _ w h => h.recalls (inward_changeDependents _ w) (recalls_changeDependents _ w)

theorem Tidy.collects (h : Tidy w) (hw : Collects w w') : Tidy w' := by
  have hsettled := h.grounded.settled
  obtain ⟨-, hids, -⟩ := hw.tables hsettled
  have hlinked := hw.linked_of_loaded hsettled h.linked fun id r _ => h.owned id r
  refine h.of_changes hw.setup hw.changes ?_ hlinked ⟨fun id r hr => ?_, by rw [hw.store]; rfl⟩
  · rintro ⟨id, part, heq, -⟩
    cases heq
  · rw [hw.store] at hr
    rw [Live, hids]
    exact h.owned id r hr

theorem Tidy.saveUnless (h : Tidy w) (faults : Faults) : Tidy (saveUnless faults w).2 := by
  have hsettled := h.grounded.settled
  have hsaves := saves_saveUnless faults hsettled h.linked
  have htouches := touches_saveUnless faults w
  refine ⟨h.grounded.of_changes hsaves.layout hsaves.changes, hsaves.linked, fun id r hr => ?_,
    fun htrim hunmarked => ?_⟩
  · rw [htouches.loaded] at hr
    rw [Live, hsaves.current]
    exact h.owned id r hr
  · rw [hsaves.version] at htrim ⊢
    rw [hsaves.layout]
    rcases htouches.marker hsettled with ⟨hkept, htext⟩ | ⟨-, htext⟩
    · rw [htext]
      exact h.marked htrim (hkept ▸ hunmarked)
    · exact ⟨_, htext, htrim⟩

theorem Tidy.save (h : Tidy w) : Tidy (save w).2 := by
  rw [← saveUnless_none]
  exact h.saveUnless .none

theorem Tidy.sweepUnless (h : Tidy w) (faults : Faults) : Tidy (sweepUnless faults w).2 := by
  have hsaved := (evictionClosed_tidy.swept w h).saveUnless faults
  rw [snd_sweepUnless]
  exact hsaved

theorem Tidy.sweep (h : Tidy w) : Tidy (sweep w).2 := by
  rw [← sweepUnless_none]
  exact h.sweepUnless .none

end Workspace

/-- A store that does not have to write its marker has found it. -/
theorem Store.marked_of_openAt {t t' : FileTree} {dir : Path} {version : String} {debug : Bool}
    {s : Store} (h : Store.openAt t dir version debug = (.ok s, t')) (hunmarked : s.unmarked = false) :
    ∃ x, t'.readText? (Slot.marker.path ⟨dir⟩) = some x ∧ trimBlanks x = version := by
  rw [openAt, Slot.path_marker] at h
  simp only at h
  split at h
  · cases h
    contradiction
  · next x hx =>
    split at h
    · next hversion =>
      cases h
      exact ⟨x, hx, hversion⟩
    · split at h
      · cases h
        contradiction
      · cases h

namespace Workspace

variable {version : String} {debug : Bool}

theorem tidy_of_openAt {t : FileTree} {dir : Path} (hsettled : (Layout.mk dir).Settled t)
    (hhoused : (Layout.mk dir).Housed t)
    (hopen : Store.openAt t dir version debug = (.ok w.store, w.files)) : Tidy w := by
  have hreopens := reopens_of_openAt hsettled hhoused hopen
  obtain ⟨unmarked, hstore, -⟩ := Store.openAt_cases hopen
  refine ⟨hreopens.grounded, hreopens.linked _, fun id r hr => ?_, fun _ hunmarked => ?_⟩
  · rw [hstore] at hr
    cases hr
  · have hmarked := Store.marked_of_openAt hopen hunmarked
    rwa [hreopens.layout, hreopens.version]

theorem Tidy.reopen (h : Tidy w) (hok : (reopen version debug w).1.isOk = true) :
    Tidy (reopen version debug w).2 := by
  rw [Workspace.reopen] at hok ⊢
  cases hopen : Store.openAt w.files w.store.layout.dir version debug with
  | mk r t =>
    rw [hopen] at hok
    cases r with
    | error e => cases hok
    | ok s => exact tidy_of_openAt h.grounded.settled h.grounded.housed hopen

/-- A cache where nothing waits opens as it is known. -/
theorem Tidy.reopen_of_clean (h : Tidy w) (hclean : w.store.isDirty = false)
    (htrim : trimBlanks w.store.version = w.store.version) (debug : Bool) :
    Workspace.reopen w.store.version debug w =
        (.ok (), ⟨w.files, .fresh w.store.layout w.store.version debug false⟩) ∧
      Tidy ⟨w.files, .fresh w.store.layout w.store.version debug false⟩ ∧
      Workspace.current ⟨w.files, .fresh w.store.layout w.store.version debug false⟩ =
        w.current := by
  have hcurrent := h.linked.current_of_clean hclean
  simp only [Store.isDirty, Bool.or_eq_false_iff] at hclean
  obtain ⟨x, hx, hversion⟩ := h.marked htrim hclean.1.1.1
  have hreopen : Workspace.reopen w.store.version debug w =
      (.ok (), ⟨w.files, .fresh w.store.layout w.store.version debug false⟩) := by
    rw [Workspace.reopen, Store.openAt, Slot.path_marker]
    simp only [hx, hversion]
    rfl
  have htidy : Tidy (Workspace.reopen w.store.version debug w).2 :=
    h.reopen (by rw [hreopen]; rfl)
  rw [hreopen] at htidy
  exact ⟨hreopen, htidy, (current_fresh _).trans hcurrent.symm⟩

end Workspace

end BuildCache
