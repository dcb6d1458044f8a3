import BuildCache.Proofs.Freshness
import BuildCache.Proofs.Sessions

/-!
# Records through runs

The record that a commit made is known until the file is committed anew, stamped anew or evicted,
whatever happens to other files and whatever else fails. From the next save on it is on disk too, so
that later sessions find it.
-/

namespace BuildCache

open FileTree

namespace Operation

/-- A step of any use of a cache, in which much may fail. Files are named by paths of a set, the
cache opens, and edits stay outside of its directory. -/
def Usual (S : Path → Prop) (w : Workspace) : Operation → Prop
  | .commit _ file _ _ | .commitRecord file _ | .assignId file => S file
  | .reopen version debug => (Workspace.reopen version debug w).1.isOk = true
  | .edit files => w.store.layout.Outside w.files files
  | .setDependencies .. | .evict _ | .evictDependents _ | .sweep | .collectGarbage | .save
  | .check .. => True

instance (S : Path → Prop) [DecidablePred S] (w : Workspace) :
    (op : Operation) → Decidable (op.Usual S w)
  | .commit _ file _ _ | .commitRecord file _ | .assignId file => inferInstanceAs (Decidable (S file))
  | .reopen .. => inferInstanceAs (Decidable (_ = true))
  | .edit _ => inferInstanceAs (Decidable (Layout.Outside _ _ _))
  | .setDependencies .. | .evict _ | .evictDependents _ | .sweep | .collectGarbage | .save
  | .check .. => .isTrue trivial

/-- Whether a step saves all that is known. -/
def saves (w : Workspace) : Operation → Bool
  | .save => (Workspace.save w).1.isOk
  | .sweep => (Workspace.sweep w).1.isOk
  | _ => false

/-- A step that does not commit a file with success, stamp it anew or evict it. The cache is opened
anew for its version only, and only if it was saved. -/
def Spares (S : Path → Prop) (file : Path) (saved : Bool) (w : Workspace) : Operation → Prop
  | .commit s g specifiers artifact =>
    S g ∧ (g.same file = true → (s.commit g specifiers artifact w).1.isOk = false)
  | .commitRecord g _ => S g ∧ g.same file = false
  | .assignId g => S g
  | .setDependencies g _ => g.same file = false
  | .evict g => (Workspace.evict g w).2.current.ids.contains file = true
  | .evictDependents g => (Workspace.evictDependents g w).2.current.ids.contains file = true
  | .sweep => (Workspace.sweep w).2.current.ids.contains file = true
  | .reopen version _ =>
    saved = true ∧ version = w.store.version ∧ trimBlanks version = version
  | .edit files => w.store.layout.Outside w.files files
  | .collectGarbage | .save | .check .. => True

instance (S : Path → Prop) [DecidablePred S] (file : Path) (saved : Bool) (w : Workspace) :
    (op : Operation) → Decidable (op.Spares S file saved w)
  | .commit .. | .commitRecord .. | .reopen .. => inferInstanceAs (Decidable (_ ∧ _))
  | .assignId g => inferInstanceAs (Decidable (S g))
  | .setDependencies .. => inferInstanceAs (Decidable (_ = false))
  | .evict _ | .evictDependents _ | .sweep => inferInstanceAs (Decidable (_ = true))
  | .edit _ => inferInstanceAs (Decidable (Layout.Outside _ _ _))
  | .collectGarbage | .save | .check .. => .isTrue trivial

end Operation

namespace Workspace

/-- Each step of a run spares a file. -/
def Spares (S : Path → Prop) (file : Path) (saved : Bool) (w : Workspace) : List Operation → Prop
  | [] => True
  | op :: ops =>
    op.Spares S file saved w ∧ (op.run w).2.Spares S file (saved || op.saves w) ops

instance decidableSpares (S : Path → Prop) [DecidablePred S] (file : Path) (saved : Bool)
    (w : Workspace) : (ops : List Operation) → Decidable (w.Spares S file saved ops)
  | [] => .isTrue trivial
  | op :: ops =>
    have := decidableSpares S file (saved || op.saves w) (op.run w).2 ops
    inferInstanceAs (Decidable (_ ∧ _))

/-- What every use keeps: no two files share an id in memory or on disk, memory agrees with the disk
for some ids, and the marker is that of the version in use. -/
structure Sound (S : Path → Prop) (P : CacheId → Prop) (w : Workspace) : Prop where
  grounded : w.Grounded
  linked : w.Linked P
  separate : Books.Separate S w.current.ids
  separateSaved : Books.Separate S w.saved.ids
  marked : trimBlanks w.store.version = w.store.version → ∀ x,
    w.files.readText? (Slot.marker.path w.store.layout) = some x → trimBlanks x = w.store.version

variable {S : Path → Prop} {P : CacheId → Prop} {w w' : Workspace}

theorem Sound.of_changes {touched : Slot → Prop} (h : Sound S P w) (hsetup : SameSetup w w')
    (hchanges : w.store.layout.Changes touched w.files w'.files) (hmarker : ¬touched .marker)
    (hlinked : w'.Linked P) (hseparate : Books.Separate S w'.current.ids)
    (hids : w'.saved.ids = w.saved.ids) : Sound S P w' where
  grounded := h.grounded.of_changes hsetup.layout hchanges
  linked := hlinked
  separate := hseparate
  separateSaved := hids ▸ h.separateSaved
  marked := by
    rw [hsetup.version, hsetup.layout, hchanges.readText? h.grounded.settled hmarker]
    exact h.marked

theorem Sound.inward (h : Sound S P w) (hw : Inward w w')
    (hseparate : Books.Separate S w'.current.ids) : Sound S P w' := by
  have hchanges : w.store.layout.Changes (fun _ => False) w.files w'.files := by
    rw [hw.files]
    exact .refl _ _ _
  exact h.of_changes hw.toSameSetup hchanges (fun h => h) (hw.linked P h.linked) hseparate
    (by rw [hw.saved])

theorem Sound.builds {built : CacheId → Prop} (h : Sound S P w) (hw : Builds built w w') :
    Sound S P w' := by
  have hsettled := h.grounded.settled
  refine h.of_changes (by constructor <;> rw [hw.store]) hw.changes ?_
    (hw.linked hsettled h.linked) (hw.current hsettled ▸ h.separate) (by rw [hw.saved hsettled])
  rintro ⟨id, -, part, -, heq⟩
  cases heq

theorem Sound.sheds (h : Sound S P w) (hw : Sheds w w')
    (hseparate : Books.Separate S w'.current.ids) : Sound S P w' := by
  refine h.of_changes hw.toSameSetup hw.changes ?_ (hw.linked P h.linked) hseparate hw.tables.1
  rintro ⟨id, part, heq⟩
  cases heq

theorem Sound.collects (h : Sound S P w) (hw : Collects w w')
    (hlive : ∀ id, P id → (w.current.record id).isSome = true → w.Live id) : Sound S P w' := by
  have hsettled := h.grounded.settled
  obtain ⟨⟨hsaved, -⟩, hids, -⟩ := hw.tables hsettled
  refine h.of_changes hw.setup hw.changes ?_ (hw.linked hsettled h.linked hlive) (hids ▸ h.separate)
    hsaved
  rintro ⟨id, part, heq, -⟩
  cases heq

theorem Sound.save (h : Sound S P w) : Sound S P (save w).2 := by
  have hsaves := saves_save h.grounded.settled h.linked
  refine ⟨h.grounded.of_changes hsaves.layout hsaves.changes, hsaves.linked,
    hsaves.current ▸ h.separate, ?_, ?_⟩
  · rcases hsaves.ids with hids | hids
    · exact hids ▸ h.separateSaved
    · exact hids ▸ h.separate
  · rw [hsaves.version, hsaves.layout]
    intro htrim x hx
    rcases hsaves.text with htext | htext
    · exact h.marked htrim x (htext ▸ hx)
    · rw [htext, Option.some.injEq] at hx
      exact hx ▸ htrim

/-- A cache that was opened is sound if no two files shared an id on disk. -/
theorem sound_of_reopens {version : String} {debug : Bool}
    (hseparate : Books.Separate S w.saved.ids) (hw : Reopens version debug w w') :
    Sound S P w' := by
  have hsaved : Books.Separate S w'.saved.ids := by
    rcases hw.saved with hsame | hempty
    · exact hsame ▸ hseparate
    · exact hempty ▸ hseparate.empty
  refine ⟨hw.grounded, hw.linked P, hw.current ▸ hsaved, hsaved, fun _ x hx => ?_⟩
  rw [hw.version]
  exact hw.marked x (hw.layout ▸ hx)

theorem Sound.assignId (h : Sound S P w) {file : Path} (hfile : S file) :
    Sound S P (assignId file w).2 := by
  refine h.inward (inward_assignId file w) ?_
  rcases assignId_spec file w with ⟨e, -, hcurrent⟩ | ⟨id, -, hcurrent, -⟩
  · exact hcurrent ▸ h.separate
  · exact hcurrent ▸ h.separate.assign hfile

theorem Sound.replaceRecord (h : Sound S P w) (file : Path) (id : CacheId) (r : CacheRecord) :
    Sound S P (replaceRecord file id r w) := by
  refine h.inward (inward_replaceRecord file id r w) ?_
  rw [current_replaceRecord, Books.ids_put]
  exact h.separate

theorem Sound.commitRecord (h : Sound S P w) {file : Path} (hfile : S file) (r : CacheRecord) :
    Sound S P (commitRecord file r w).2 := by
  refine h.inward (inward_commitRecord file r w) ?_
  rcases commitRecord_spec file r w with ⟨e, -, hcurrent⟩ | ⟨id, -, hcurrent, -⟩
  · exact hcurrent ▸ h.separate
  · rw [hcurrent, Books.commit, Books.ids_put]
    exact h.separate.assign hfile

theorem Sound.setDependencies (h : Sound S P w) (file : Path) (dependencies : PathSet) :
    Sound S P (setDependencies file dependencies w).2 := by
  refine h.inward (inward_setDependencies file dependencies w) ?_
  rcases setDependencies_spec file dependencies w with ⟨e, -, hcurrent⟩ | ⟨id, r, -, -, hcurrent⟩
  · exact hcurrent ▸ h.separate
  · rw [hcurrent, Books.ids_put]
    exact h.separate

theorem Sound.evict (h : Sound S P w) (file : Path) : Sound S P (evict file w).2 := by
  refine h.sheds (sheds_evict file w) ?_
  rw [current_evict, Books.ids_evict]
  exact h.separate.erase file

theorem evictionClosed_sound (S : Path → Prop) (P : CacheId → Prop) :
    EvictionClosed fun w w' => Sound S P w → Sound S P w' :=
  .of_dropping (fun _ h => h) (fun h h' hw => h' (h hw))
    (fun w h => h.inward (inward_ids w) h.separate)
    (fun w h => h.inward (inward_dependents w) h.separate)
    (fun file _ h => h.evict file)
    fun _ w h => h.inward (inward_changeDependents _ w) h.separate

theorem Sound.commit (h : Sound S P w) (s : Session) {file : Path} (hfile : S file)
    (specifiers : List String) (artifact : Artifact) :
    Sound S P (s.commit file specifiers artifact w).2 := by
  have hassigned := h.assignId hfile
  have hresult := s.commitResult file specifiers artifact w
  generalize s.commit file specifiers artifact w = result at hresult ⊢
  cases hresult with
  | rejected e => exact h
  | unwritten e id w' hbuilds => exact hassigned.builds hbuilds
  | done stamp id w' hstamp hbuilds hartifact hid =>
    have hwritten := hassigned.builds hbuilds
    exact (hwritten.inward (inward_ids w') hwritten.separate).replaceRecord _ _ _

theorem Sound.run (h : Sound S P w) {op : Operation} (husual : op.Usual S w)
    (hlive : ∀ id, P id → (w.current.record id).isSome = true → w.Live id) :
    Sound S P (op.run w).2 := by
  cases op with
  | commit s file specifiers artifact => exact h.commit s husual specifiers artifact
  | commitRecord file record => exact h.commitRecord husual record
  | assignId file => exact h.assignId husual
  | setDependencies file dependencies => exact h.setDependencies file dependencies
  | evict file => exact h.evict file
  | evictDependents dependency => exact (evictionClosed_sound S P).evictDependents dependency w h
  | sweep =>
    have hswept := ((evictionClosed_sound S P).swept w h).save
    rw [Operation.snd_run_sweep, snd_sweep]
    exact hswept
  | collectGarbage => exact h.collects (collects_collectGarbage h.grounded.housed) hlive
  | save => exact h.save
  | check s file =>
    obtain ⟨hinward, hcurrent⟩ := inward_check s.fingerprint file w
    exact h.inward hinward (hcurrent ▸ h.separate)
  | reopen version debug =>
    exact sound_of_reopens h.separateSaved (reopens_reopen h.grounded husual)
  | edit files => exact h.builds (builds_edit husual)

end Workspace

namespace Books

/-- A file has an id and a record. -/
structure Has (file : Path) (id : CacheId) (r : CacheRecord) (b : Books) : Prop where
  tracked : b.ids.get? file = some id
  record : b.record id = some r

variable {file g : Path} {id id' : CacheId} {r r' : CacheRecord} {b : Books}

theorem Has.assign (h : b.Has file id r) (g : Path) : (b.assign g).Has file id r :=
  ⟨get?_assign h.tracked, by rw [record_assign, h.record]⟩

theorem Has.put (h : b.Has file id r) (hne : id' ≠ id) (g : Path) (r' : CacheRecord) :
    (b.put g id' r').Has file id r :=
  ⟨by rw [ids_put, h.tracked], by rw [record_put, if_neg hne.symm, h.record]⟩

variable {S : Path → Prop}

theorem Has.ne_of_same (h : b.Has file id r) (hseparate : Separate S b.ids)
    (hg : b.ids.get? g = some id') (hne : g.same file = false) : id' ≠ id := by
  rintro rfl
  rw [hseparate.same_of_id hg h.tracked] at hne
  contradiction

theorem Has.evict (h : b.Has file id r) (hseparate : Separate S b.ids)
    (htracked : (b.evict g).ids.contains file = true) :
    b.ids.get? g ≠ some id ∧ (b.evict g).Has file id r := by
  rw [ids_evict, contains_erase_ids, Bool.and_eq_true, Bool.not_eq_true'] at htracked
  have hne : b.ids.get? g ≠ some id := by
    intro hg
    rw [hseparate.same_of_id h.tracked hg] at htracked
    exact absurd htracked.1 (by simp)
  refine ⟨hne, ?_, ?_⟩
  · rw [ids_evict, get?_erase_ids, htracked.1, h.tracked]
    rfl
  · rw [record_evict, if_neg hne, h.record]

end Books

namespace Workspace

/-- A file has its record in memory, and on disk too if it was saved. -/
structure Standing (S : Path → Prop) (file : Path) (id : CacheId) (r : CacheRecord) (kept : Bool)
    (w : Workspace) : Prop where
  sound : Sound S (· = id) w
  current : w.current.Has file id r
  saved : kept = true → w.saved.Has file id r

variable {S : Path → Prop} {file : Path} {id : CacheId} {r : CacheRecord} {kept : Bool}
  {w w' : Workspace}

theorem Standing.inward (h : Standing S file id r kept w) (hw : Inward w w')
    (hsound : Sound S (· = id) w') (hcurrent : w'.current.Has file id r) :
    Standing S file id r kept w' :=
  ⟨hsound, hcurrent, hw.saved ▸ h.saved⟩

theorem Standing.builds {built : CacheId → Prop} (h : Standing S file id r kept w)
    (hw : Builds built w w') : Standing S file id r kept w' where
  sound := h.sound.builds hw
  current := hw.current h.sound.grounded.settled ▸ h.current
  saved := hw.saved h.sound.grounded.settled ▸ h.saved

theorem Standing.live (h : Standing S file id r kept w) (id' : CacheId) (hid : id' = id) :
    w.Live id' := ⟨file, hid ▸ h.current.tracked⟩

theorem Standing.assignId (h : Standing S file id r kept w) {g : Path} (hg : S g) :
    Standing S file id r kept (assignId g w).2 := by
  refine h.inward (inward_assignId g w) (h.sound.assignId hg) ?_
  rcases assignId_spec g w with ⟨e, -, hcurrent⟩ | ⟨id', -, hcurrent, -⟩
  · exact hcurrent ▸ h.current
  · exact hcurrent ▸ h.current.assign g

theorem Standing.replaceRecord (h : Standing S file id r kept w) {g : Path} {id' : CacheId}
    (hg : w.current.ids.get? g = some id') (hne : g.same file = false) (r' : CacheRecord) :
    Standing S file id r kept (replaceRecord g id' r' w) := by
  refine h.inward (inward_replaceRecord g id' r' w) (h.sound.replaceRecord g id' r') ?_
  rw [current_replaceRecord]
  exact h.current.put (h.current.ne_of_same h.sound.separate hg hne) g r'

theorem Standing.commitRecord (h : Standing S file id r kept w) {g : Path} (hg : S g)
    (hne : g.same file = false) (r' : CacheRecord) :
    Standing S file id r kept (commitRecord g r' w).2 := by
  refine h.inward (inward_commitRecord g r' w) (h.sound.commitRecord hg r') ?_
  rcases commitRecord_spec g r' w with ⟨e, -, hcurrent⟩ | ⟨id', -, hcurrent, hid⟩
  · exact hcurrent ▸ h.current
  · have hassigned := h.current.assign g
    rw [hcurrent]
    exact hassigned.put (hassigned.ne_of_same (h.sound.separate.assign hg) hid hne) g r'

theorem Standing.setDependencies (h : Standing S file id r kept w) {g : Path}
    (hne : g.same file = false) (dependencies : PathSet) :
    Standing S file id r kept (setDependencies g dependencies w).2 := by
  refine h.inward (inward_setDependencies g dependencies w)
    (h.sound.setDependencies g dependencies) ?_
  rcases setDependencies_spec g dependencies w with ⟨e, -, hcurrent⟩ | ⟨id', r', -, hid, hcurrent⟩
  · exact hcurrent ▸ h.current
  · exact hcurrent ▸ h.current.put (h.current.ne_of_same h.sound.separate hid hne) g r'

theorem Standing.commit (h : Standing S file id r kept w) {s : Session} {g : Path}
    {specifiers : List String} {artifact : Artifact} (hg : S g)
    (hfails : g.same file = true → (s.commit g specifiers artifact w).1.isOk = false) :
    Standing S file id r kept (s.commit g specifiers artifact w).2 := by
  have hassigned := h.assignId hg
  have hresult := s.commitResult g specifiers artifact w
  generalize s.commit g specifiers artifact w = result at hfails hresult ⊢
  cases hresult with
  | rejected e => exact h
  | unwritten e id' w' hbuilds => exact hassigned.builds hbuilds
  | done stamp id' w' hstamp hbuilds hartifact hid =>
    have hne : g.same file = false := by
      rw [← Bool.not_eq_true]
      intro hsame
      cases hfails hsame
    have hwritten := hassigned.builds hbuilds
    have hloaded := hwritten.inward (inward_ids w')
      (hwritten.sound.inward (inward_ids w') hwritten.sound.separate) hwritten.current
    exact hloaded.replaceRecord hid hne _

theorem Standing.evict (h : Standing S file id r kept w) (g : Path)
    (htracked : (evict g w).2.current.ids.contains file = true) :
    Standing S file id r kept (evict g w).2 := by
  rw [current_evict] at htracked
  obtain ⟨hne, hcurrent⟩ := h.current.evict h.sound.separate htracked
  have hsheds := sheds_evict g w
  refine ⟨h.sound.evict g, current_evict g w ▸ hcurrent, fun hkept => ?_⟩
  have hsaved := h.saved hkept
  refine ⟨by rw [hsheds.tables.1, hsaved.tracked], ?_⟩
  rw [record_saved, hsheds.layout, RecordTable.onDisk, readJson?_congr (readText?_evict hne .record)]
  exact hsaved.record

/-- A file that is tracked after a chain of evictions was tracked all along. -/
theorem evictionClosed_standing :
    EvictionClosed fun w w' => w'.current.ids.contains file = true →
      w.current.ids.contains file = true ∧
        (Standing S file id r kept w → Standing S file id r kept w') := by
  refine .of_dropping (fun _ htracked => ⟨htracked, fun h => h⟩) ?_ ?_ ?_ ?_ ?_
  · intro w w' w'' hw hw' htracked
    obtain ⟨htracked', hstanding'⟩ := hw' htracked
    obtain ⟨htracked, hstanding⟩ := hw htracked'
    exact ⟨htracked, fun h => hstanding' (hstanding h)⟩
  · exact fun w htracked => ⟨htracked, fun h => h.inward (inward_ids w)
      (h.sound.inward (inward_ids w) h.sound.separate) h.current⟩
  · exact fun w htracked => ⟨htracked, fun h => h.inward (inward_dependents w)
      (h.sound.inward (inward_dependents w) h.sound.separate) h.current⟩
  · intro g w htracked
    refine ⟨?_, fun h => h.evict g htracked⟩
    rw [current_evict, Books.ids_evict, Books.contains_erase_ids, Bool.and_eq_true] at htracked
    exact htracked.2
  · exact fun dependency w htracked => ⟨htracked, fun h =>
      h.inward (inward_changeDependents _ w)
        (h.sound.inward (inward_changeDependents _ w) h.sound.separate)
        ⟨h.current.tracked, h.current.record⟩⟩

theorem Standing.save (h : Standing S file id r kept w) :
    Standing S file id r (kept || (save w).1.isOk) (save w).2 := by
  have hsaves := saves_save h.sound.grounded.settled h.sound.linked
  refine ⟨h.sound.save, hsaves.current ▸ h.current, fun hkept => ?_⟩
  cases hr : (Workspace.save w).1 with
  | ok u =>
    obtain ⟨hids, -, hrecords⟩ := hsaves.saved ⟨u, hr⟩
    exact ⟨by rw [hids, h.current.tracked], by rw [hrecords id rfl, h.current.record]⟩
  | error e =>
    have hsaved : w.saved.Has file id r := h.saved (by
      simpa [hr, Except.isOk, Except.toBool] using hkept)
    refine ⟨?_, ?_⟩
    · rcases hsaves.ids with hids | hids
      · rw [hids, hsaved.tracked]
      · rw [hids, h.current.tracked]
    · rcases hsaves.records id with hrecord | hrecord
      · rw [hrecord, hsaved.record]
      · rw [hrecord, h.current.record]

theorem Standing.sweep (h : Standing S file id r kept w)
    (htracked : (sweep w).2.current.ids.contains file = true) :
    Standing S file id r (kept || (sweep w).1.isOk) (sweep w).2 := by
  rw [snd_sweep] at htracked ⊢
  have hsound := (evictionClosed_sound S (· = id)).swept w h.sound
  have hsaves := saves_save hsound.grounded.settled hsound.linked
  rw [hsaves.current] at htracked
  have hswept := ((evictionClosed_standing).swept w htracked).2 h
  rw [isOk_sweep]
  exact hswept.save

theorem Standing.reopens {debug : Bool} (h : Standing S file id r true w)
    (htrim : trimBlanks w.store.version = w.store.version)
    (hw : Reopens w.store.version debug w w') : Standing S file id r true w' := by
  have hfiles := hw.kept (h.sound.marked htrim)
  have hsaved : w'.saved = w.saved := by
    rw [Workspace.saved, Workspace.saved, hfiles, hw.layout]
  have hhas : w'.saved.Has file id r := hsaved ▸ h.saved rfl
  exact ⟨sound_of_reopens h.sound.separateSaved hw, hw.current ▸ hhas, fun _ => hhas⟩

theorem Standing.collects (h : Standing S file id r kept w) (hw : Collects w w') :
    Standing S file id r kept w' := by
  have hsettled := h.sound.grounded.settled
  obtain ⟨⟨hsavedIds, -⟩, hids, -⟩ := hw.tables hsettled
  obtain ⟨hsaved, hcurrent, -⟩ := hw.of_live hsettled (h.live id rfl)
  refine ⟨h.sound.collects hw fun id' hid _ => h.live id' hid, ?_, fun hkept => ?_⟩
  · exact ⟨by rw [hids, h.current.tracked], by rw [hcurrent, h.current.record]⟩
  · exact ⟨by rw [hsavedIds, (h.saved hkept).tracked], by rw [hsaved, (h.saved hkept).record]⟩

theorem Standing.run (h : Standing S file id r kept w) {op : Operation}
    (hspares : op.Spares S file kept w) :
    Standing S file id r (kept || op.saves w) (op.run w).2 := by
  have hsame {w' : Workspace} (h : Standing S file id r kept w') :
      Standing S file id r (kept || false) w' := by rwa [Bool.or_false]
  cases op with
  | commit s g specifiers artifact => exact hsame (h.commit hspares.1 hspares.2)
  | commitRecord g record => exact hsame (h.commitRecord hspares.1 hspares.2 record)
  | assignId g => exact hsame (h.assignId hspares)
  | setDependencies g dependencies => exact hsame (h.setDependencies hspares dependencies)
  | evict g => exact hsame (h.evict g hspares)
  | evictDependents dependency =>
    exact hsame (((evictionClosed_standing).evictDependents dependency w hspares).2 h)
  | sweep =>
    rw [Operation.snd_run_sweep]
    exact h.sweep hspares
  | collectGarbage => exact hsame (h.collects (collects_collectGarbage h.sound.grounded.housed))
  | save => exact h.save
  | check s g =>
    obtain ⟨hinward, hcurrent⟩ := inward_check s.fingerprint g w
    exact hsame (h.inward hinward (h.sound.inward hinward (hcurrent ▸ h.sound.separate))
      (hcurrent ▸ h.current))
  | reopen version debug =>
    obtain ⟨rfl, rfl, htrim⟩ := hspares
    exact h.reopens htrim (reopens_reopen h.sound.grounded (isOk_reopen (h.sound.marked htrim)))
  | edit files => exact hsame (h.builds (builds_edit hspares))

theorem Standing.after {ops : List Operation} (h : Standing S file id r kept w)
    (hops : w.Spares S file kept ops) : ∃ kept, Standing S file id r kept (w.after ops) := by
  induction ops generalizing kept w with
  | nil => exact ⟨kept, h⟩
  | cons op ops ih => exact ih (h.run hops.1) hops.2

/-- From a commit on the record stands. -/
theorem standing_of_commit {s : Session} {specifiers : List String} {artifact : Artifact}
    {outcome : CommitOutcome} (h : Sound S (fun _ => False) w) (hfile : S file)
    (hcommit : s.commit file specifiers artifact w = (.ok outcome, w')) :
    ∃ id stamp, w.files.stamp file = .ok stamp ∧
      outcome.imports = s.config.resolver.imports w.files file specifiers ∧
      Standing S file id (s.recordFor w.files stamp outcome.imports) false w' := by
  have hassigned := h.assignId hfile
  have hresult := s.commitResult file specifiers artifact w
  rw [hcommit] at hresult
  cases hresult with
  | done stamp id w₁ hstamp hbuilds hartifact hid =>
    have hwritten := hassigned.builds hbuilds
    have hloaded := hwritten.inward (inward_ids w₁) hwritten.separate
    have hput := hloaded.replaceRecord file id (s.recordFor w.files stamp
      (s.config.resolver.imports w.files file specifiers))
    refine ⟨id, stamp, hstamp, rfl, { hput with linked := ?_ }, ⟨?_, ?_⟩, by simp⟩
    · simpa only [false_or] using linked_replaceRecord hloaded.linked file id _
    · rw [current_replaceRecord, Books.ids_put]
      exact hid
    · rw [current_replaceRecord, Books.record_put, if_pos rfl]

end Workspace

open Workspace

/-- After a commit a file is found fresh exactly while it has its time and content, and each file it
imported then its time or its content. Nothing that happens to other files changes that, nor do
later sessions, once the record was saved. -/
theorem check_eq_fresh_iff {S : Path → Prop} {dir : Path} {version : String} {debug : Bool}
    {t : FileTree} (hsettled : (Layout.mk dir).Settled t) (hhoused : (Layout.mk dir).Housed t)
    (hseparate : Books.Separate S ((Layout.mk dir).books t).ids) {w₀ : Workspace}
    (hopen : Store.openAt t dir version debug = (.ok w₀.store, w₀.files))
    {before : List Operation} (hbefore : w₀.Permits (fun w op => op.Usual S w) before)
    {s : Session} {file : Path} (hfile : S file) {specifiers : List String} {artifact : Artifact}
    {outcome : CommitOutcome} {w : Workspace}
    (hcommit : s.commit file specifiers artifact (w₀.after before) = (.ok outcome, w))
    {ops : List Operation} (hops : w.Spares S file false ops) {s' : Session}
    (hplugins : s'.fingerprint = s.fingerprint) :
    (s'.check file (w.after ops)).1 = .fresh ↔
      (w.after ops).files.timestamp file = (w₀.after before).files.timestamp file ∧
      (w.after ops).files.contentHash file = (w₀.after before).files.contentHash file ∧
      ∀ p ∈ outcome.imports.dependencies,
        Unchanged (w₀.after before).files (w.after ops).files p := by
  have hopened : Sound S (fun _ => False) w₀ :=
    sound_of_reopens (w := ⟨t, .fresh ⟨dir⟩ version debug true⟩) hseparate
      (reopens_of_openAt hsettled hhoused hopen)
  have hsound : Sound S (fun _ => False) (w₀.after before) :=
    after_of_step (fun w op h hop => h.run hop fun _ => False.elim) hopened hbefore
  obtain ⟨id, stamp, hstamp, himports, hstanding⟩ := standing_of_commit hsound hfile hcommit
  obtain ⟨kept, hafter⟩ := hstanding.after hops
  have hcheck : (s'.check file (w.after ops)).1 = .ofReason? ((w.after ops).files.staleReason?
      s'.fingerprint file (s.recordFor (w₀.after before).files stamp outcome.imports)) := by
    rw [Session.check, check_of_tracked hafter.current.tracked, hafter.current.record]
  have hfresh (reason : Option StaleReason) :
      Freshness.ofReason? reason = .fresh ↔ reason = none := by
    cases reason <;> simp [Freshness.ofReason?]
  rw [hcheck, hfresh, hplugins]
  refine staleReason?_recordFor hstamp ?_ ?_
  · rw [himports]
    exact fun p hp => Resolver.isFile_of_mem_dependencies hp
  · rw [himports]
    exact Resolver.pairwise_dependencies _ _ _ _

namespace Sample

def committing (specifiers : List String) (w : Workspace) :
    Except StoreError CommitOutcome × Workspace :=
  session.commit importer specifiers { code := "f" } w

def earlier : List Operation := [.commit session other [] { code := "g" }, .save]

def importing : Except StoreError CommitOutcome × Workspace :=
  committing ["./y.js"] ((started cacheDir).after earlier)

def outcome : CommitOutcome := ⟨.forPath importer, ⟨[dependency], []⟩⟩

def unrelated : List Operation := [.save, restart, .evict other, .collectGarbage]

/-- Other sessions come and go, and the time of the import changes. -/
def later : List Operation :=
  let files := (importing.2.after unrelated).files
  unrelated ++ [.edit ((files.touch dependency 5000000000).toOption.getD files)]

/-- A file without imports is committed and saved, and the cache is opened anew. -/
def renewed (dir : Path) (version : String) : Workspace :=
  (committing [] (opened dir version)).2.after [.save, .reopen version false]

end Sample

open Sample

theorem check_eq_fresh_iff_of_touched_import :
    (session.check importer (importing.2.after later)).1 = .fresh ↔
      (importing.2.after later).files.timestamp importer =
        ((started cacheDir).after earlier).files.timestamp importer ∧
      (importing.2.after later).files.contentHash importer =
        ((started cacheDir).after earlier).files.contentHash importer ∧
      ∀ p ∈ [dependency],
        Unchanged ((started cacheDir).after earlier).files (importing.2.after later).files p := by
  have hfacts : (started cacheDir).Permits (fun w op => op.Usual Named w) earlier ∧
      importing.1.toOption = some outcome ∧ importing.2.Spares Named importer false later := by
    decide +kernel
  obtain ⟨hbefore, hok, hops⟩ := hfacts
  have hcommit : committing ["./y.js"] ((started cacheDir).after earlier) =
      (.ok outcome, importing.2) := Prod.ext (eq_ok_iff_toOption.mpr hok) rfl
  have hsaved : (started cacheDir).saved = .empty :=
    saved_of_contentAt vacant_cacheDir.contentAt_eq_none
  have hids : ((Layout.mk cacheDir).books tree).ids = ∅ := congrArg (·.ids) hsaved
  have hseparate : Books.Separate Named ((Layout.mk cacheDir).books tree).ids := by
    rw [hids]
    exact (Books.named_empty Named).separate distinct_named
  exact check_eq_fresh_iff vacant_cacheDir.settled vacant_cacheDir.housed hseparate
    (openAt_cacheDir _) hbefore (List.mem_cons_self : Named importer) hcommit hops rfl

/-- A file without imports is committed, the cache is saved and opened anew in the same version, and
then the file is found stale among files where it is as it was. -/
def StaleUnchanged (dir : Path) (version : String) (t : FileTree) : Prop :=
  (Layout.mk dir).Vacant tree ∧
    (committing [] (opened dir version)).1 = .ok ⟨.forPath importer, ⟨[], []⟩⟩ ∧
    (committing [] (opened dir version)).2.Permits (fun w op => (op.run w).1.isOk = true)
      [.save, .reopen version false] ∧
    t.timestamp importer = tree.timestamp importer ∧
    t.contentHash importer = tree.contentHash importer ∧
    (session.check importer { renewed dir version with files := t }).1 = .stale .notCached

/-- What of it is found out by running it. -/
private abbrev FoundStale (dir : Path) (version : String) (t : FileTree) : Prop :=
  (committing [] (opened dir version)).1.toOption = some ⟨.forPath importer, ⟨[], []⟩⟩ ∧
    (committing [] (opened dir version)).2.Permits (fun w op => (op.run w).1.isOk = true)
      [.save, .reopen version false] ∧
    (t.stamp importer).toOption = some ⟨.ofBytes "1".toUTF8.toList, 0⟩ ∧
    (session.check importer { renewed dir version with files := t }).1 = .stale .notCached

private theorem FoundStale.staleUnchanged {dir : Path} {version : String} {t : FileTree}
    (h : FoundStale dir version t) (hvacant : (Layout.mk dir).Vacant tree)
    (hthen : (tree.stamp importer).toOption = some ⟨.ofBytes "1".toUTF8.toList, 0⟩) :
    StaleUnchanged dir version t := by
  obtain ⟨hcommit, hops, hnow, hcheck⟩ := h
  obtain ⟨hmodified, hhash⟩ := stamp_eq_ok_iff.mp (eq_ok_iff_toOption.mpr hthen)
  obtain ⟨hmodified', hhash'⟩ := stamp_eq_ok_iff.mp (eq_ok_iff_toOption.mpr hnow)
  exact ⟨hvacant, eq_ok_iff_toOption.mpr hcommit, hops, hmodified'.trans hmodified.symm,
    hhash'.trans hhash.symm, hcheck⟩

/-- A version with a blank before it, a cache directory that was emptied, and one that cannot be
reached any more: each makes an unchanged file stale. -/
theorem staleUnchanged_of_blank_and_emptied_and_closed :
    StaleUnchanged cacheDir " 1" (renewed cacheDir " 1").files ∧
      StaleUnchanged cacheDir "1" ((renewed cacheDir "1").files.removeTree cacheDir).2 ∧
      StaleUnchanged detour "1" ((renewed detour "1").files.removeTree (.ofString "/proj")).2 := by
  have hfacts : (tree.stamp importer).toOption = some ⟨.ofBytes "1".toUTF8.toList, 0⟩ ∧
      FoundStale cacheDir " 1" (renewed cacheDir " 1").files ∧
      FoundStale cacheDir "1" ((renewed cacheDir "1").files.removeTree cacheDir).2 ∧
      FoundStale detour "1" ((renewed detour "1").files.removeTree (.ofString "/proj")).2 := by
    decide +kernel
  obtain ⟨hstamp, hblank, hemptied, hclosed⟩ := hfacts
  exact ⟨hblank.staleUnchanged vacant_cacheDir hstamp,
    hemptied.staleUnchanged vacant_cacheDir hstamp, hclosed.staleUnchanged vacant_detour hstamp⟩

end BuildCache
