import BuildCache.Proofs.Serving
import BuildCache.Proofs.Standing
import BuildCache.Proofs.Workspace.Tidy

/-!
# A cache as a map of files

What is kept of a file is spread over a table of ids, a record and the files of an artifact, which
change at different times. Over whole runs it comes to a map: a commit fills the slot of its file,
an eviction empties it, and nothing else touches a slot.
-/

namespace BuildCache

open FileTree Workspace

/-- What is kept of a file. An artifact is found again in the mode it was written in. -/
structure Item where
  id : CacheId
  record : CacheRecord
  artifact : Artifact
  debug : Bool
deriving DecidableEq

/-- A slot for each file. -/
abbrev Catalog := Path → Option Item

namespace Catalog

def empty : Catalog := fun _ => none

def put (c : Catalog) (file : Path) (item : Item) : Catalog := fun p =>
  if p.same file then some item else c p

def drop (c : Catalog) (files : List Path) : Catalog := fun p =>
  if files.any p.same then none else c p

/-- A file keeps the id it has. -/
def idFor (c : Catalog) (file : Path) : CacheId := ((c file).map Item.id).getD (.forPath file)

/-- What a step does to the slots, as far as its answer tells. -/
def step (c : Catalog) (w : Workspace) : Operation → Catalog
  | .commit s file specifiers artifact =>
    match (s.commit file specifiers artifact w).1, w.files.stamp file with
    | .ok outcome, .ok stamp => c.put file
        ⟨c.idFor file, s.recordFor w.files stamp outcome.imports, artifact, w.store.debug⟩
    | _, _ => c
  | .evict file => c.drop [file]
  | .evictDependents dependency => c.drop (Workspace.evictDependents dependency w).1
  | .sweep =>
    match (Workspace.sweep w).1 with
    | .ok report => c.drop report.evicted
    | .error _ => c
  | _ => c

def after (c : Catalog) (w : Workspace) : List Operation → Catalog
  | [] => c
  | op :: ops => (c.step w op).after (op.run w).2 ops

variable {c : Catalog} {file p : Path} {item : Item}

theorem put_of_same (h : p.same file = true) : c.put file item p = some item := if_pos h

theorem put_of_other (h : p.same file = false) : c.put file item p = c p := if_neg (by simp [h])

theorem drop_append (c : Catalog) (files files' : List Path) :
    c.drop (files ++ files') = (c.drop files).drop files' := by
  funext p
  simp only [drop, List.any_append]
  cases files.any p.same <;> cases files'.any p.same <;> rfl

theorem drop_singleton (c : Catalog) (file p : Path) :
    c.drop [file] p = if p.same file then none else c p := by
  simp [drop]

theorem id_step {w : Workspace} {op : Operation} {item' : Item} (h : c p = some item)
    (h' : c.step w op p = some item')
    (hsame : ∀ q, p.same q = true → (c q).map Item.id = (c p).map Item.id) :
    item'.id = item.id := by
  have hdropped {files : List Path} (h' : c.drop files p = some item') : item'.id = item.id := by
    simp only [drop] at h'
    split at h'
    · contradiction
    · rw [h, Option.some.injEq] at h'
      rw [h']
  have hkept (h' : c p = some item') : item'.id = item.id := by
    rw [h, Option.some.injEq] at h'
    rw [h']
  cases op with
  | commit s file specifiers artifact =>
    rw [step] at h'
    cases hresult : (s.commit file specifiers artifact w).1 with
    | error e => exact hkept (by rwa [hresult] at h')
    | ok outcome =>
      cases hstamp : w.files.stamp file with
      | error e => exact hkept (by rwa [hresult, hstamp] at h')
      | ok stamp =>
        rw [hresult, hstamp] at h'
        simp only at h'
        cases hpath : p.same file with
        | false => exact hkept (by rwa [put_of_other hpath] at h')
        | true =>
          rw [put_of_same hpath, Option.some.injEq] at h'
          rw [← h', idFor, hsame file hpath, h]
          rfl
  | evict file => exact hdropped h'
  | evictDependents dependency => exact hdropped h'
  | sweep =>
    rw [step] at h'
    cases hresult : (Workspace.sweep w).1 with
    | error e => exact hkept (by rwa [hresult] at h')
    | ok report => exact hdropped (by rwa [hresult] at h')
  | _ => exact hkept h'

end Catalog

/-- The file that a step commits or evicts. -/
def Operation.file? : Operation → Option Path
  | .commit _ file _ _ | .evict file => some file
  | _ => none

theorem Catalog.step_of_other {c : Catalog} {w : Workspace} {op : Operation} {file p : Path}
    (hfile : op.file? = some file) (hother : p.same file = false) : c.step w op p = c p := by
  cases op with
  | commit s file' specifiers artifact =>
    obtain rfl : file' = file := Option.some.inj hfile
    rw [step]
    cases (s.commit file' specifiers artifact w).1 with
    | error e => rfl
    | ok outcome =>
      cases w.files.stamp file' with
      | error e => rfl
      | ok stamp => exact put_of_other hother
  | evict file' =>
    obtain rfl : file' = file := Option.some.inj hfile
    rw [step, drop_singleton, hother]
    rfl
  | _ => cases hfile

/-- A step of sessions whose writes succeed, in certain modes. A session ends with nothing waiting,
and the next one works in the same version. Edits leave the inside of the cache directory alone and
the way to it open. -/
def Operation.Careful (S : Path → Prop) (M : Bool → Prop) (w : Workspace) : Operation → Prop
  | .commit s file specifiers artifact =>
    S file ∧ ((s.commit file specifiers artifact w).1.isOk = true ∨
      (s.commit file specifiers artifact w).2 = w)
  | .save => (Workspace.save w).1.isOk = true
  | .sweep => (Workspace.sweep w).1.isOk = true
  | .reopen version debug => (version = w.store.version ∧ w.store.isDirty = false) ∧ M debug
  | .edit files => w.store.layout.Outside w.files files
  | .evict _ | .evictDependents _ | .collectGarbage | .check .. => True
  | .commitRecord .. | .assignId _ | .setDependencies .. => False

instance (S : Path → Prop) [DecidablePred S] (M : Bool → Prop) [DecidablePred M] (w : Workspace) :
    (op : Operation) → Decidable (op.Careful S M w)
  | .commit .. => inferInstanceAs (Decidable (_ ∧ (_ ∨ _)))
  | .save | .sweep => inferInstanceAs (Decidable (_ = true))
  | .reopen .. => inferInstanceAs (Decidable ((_ ∧ _) ∧ _))
  | .edit _ => inferInstanceAs (Decidable (Layout.Outside _ _ _))
  | .evict _ | .evictDependents _ | .collectGarbage | .check .. => .isTrue trivial
  | .commitRecord .. | .assignId _ | .setDependencies .. => .isFalse id

namespace Workspace

/-- The artifact that is on disk for an id in a mode. -/
def artifactIn (w : Workspace) (debug : Bool) (id : CacheId) : Option Artifact :=
  ArtifactStore.read? ⟨w.store.layout.files, debug⟩ w.files id

/-- The slots say all that is kept. -/
structure Described (S : Path → Prop) (M : Bool → Prop) (c : Catalog) (w : Workspace) : Prop where
  tidy : Tidy w
  trimmed : trimBlanks w.store.version = w.store.version
  mode : M w.store.debug
  modes : ∀ f item, c f = some item → M item.debug
  named : Books.Named S w.current.ids
  full : ∀ f item, c f = some item → w.current.Has f item.id item.record ∧
    w.artifactIn item.debug item.id = some item.artifact
  bare : ∀ f, c f = none → w.current.ids.get? f = none

variable {S : Path → Prop} {M : Bool → Prop} {c : Catalog} {w w' : Workspace} {f file : Path}

theorem artifactIn_congr (hlayout : w'.store.layout = w.store.layout) {id : CacheId}
    (hread : ∀ part, part ≠ .record →
      w'.files.readText? ((Slot.entry id part).path w.store.layout) =
        w.files.readText? ((Slot.entry id part).path w.store.layout)) (debug : Bool) :
    w'.artifactIn debug id = w.artifactIn debug id := by
  rw [artifactIn, artifactIn, hlayout, Slot.read?_artifact, Slot.read?_artifact,
    hread _ (by simp), hread _ (by simp)]

theorem Described.idOf (h : Described S M c w) (f : Path) :
    (Workspace.idOf f w).1 = (c f).map Item.id := by
  rw [fst_idOf]
  cases hc : c f with
  | none => exact h.bare f hc
  | some item => exact (h.full f item hc).1.tracked

theorem Described.recordOf (h : Described S M c w) (f : Path) :
    (Workspace.recordOf f w).1 = (c f).map Item.record := by
  rw [fst_recordOf]
  cases hc : c f with
  | none => rw [h.bare f hc]; rfl
  | some item =>
    have hhas := (h.full f item hc).1
    rw [hhas.tracked]
    exact hhas.record

theorem Described.artifactOf (h : Described S M c w) {f : Path}
    (hmode : ∀ item, c f = some item → item.debug = w.store.debug) :
    (Workspace.artifactOf f w).1 = (c f).map Item.artifact := by
  cases hc : c f with
  | none =>
    rw [fst_artifactOf_eq_bind, h.bare f hc]
    rfl
  | some item =>
    obtain ⟨hhas, hartifact⟩ := h.full f item hc
    rw [fst_artifactOf hhas.tracked]
    rwa [hmode item hc] at hartifact

theorem Described.of_same (h : Described S M c w) (htidy : Tidy w')
    (hversion : w'.store.version = w.store.version) (hmode : M w'.store.debug)
    (hids : w'.current.ids = w.current.ids)
    (hrecord : ∀ id, w.Live id → w'.current.record id = w.current.record id)
    (hartifact : ∀ id debug, w.Live id → w'.artifactIn debug id = w.artifactIn debug id) :
    Described S M c w' where
  tidy := htidy
  trimmed := by rw [hversion, h.trimmed]
  mode := hmode
  modes := h.modes
  named := hids ▸ h.named
  full f item hc := by
    obtain ⟨hhas, hread⟩ := h.full f item hc
    have hlive : w.Live item.id := ⟨f, hhas.tracked⟩
    exact ⟨⟨by rw [hids, hhas.tracked], by rw [hrecord _ hlive, hhas.record]⟩,
      by rw [hartifact _ _ hlive, hread]⟩
  bare f hc := by rw [hids, h.bare f hc]

theorem Described.inward (h : Described S M c w) (hw : Inward w w') (htidy : Tidy w')
    (hids : w'.current.ids = w.current.ids) (hrecord : w'.current.record = w.current.record) :
    Described S M c w' := by
  refine h.of_same htidy hw.version (hw.debug ▸ h.mode) hids (fun id _ => by rw [hrecord])
    fun id debug _ => ?_
  exact artifactIn_congr hw.layout (fun part _ => by rw [hw.files]) debug

theorem Described.check (h : Described S M c w) (fingerprint : Fingerprint) (file : Path) :
    Described S M c (check fingerprint file w).2 := by
  obtain ⟨hinward, hcurrent⟩ := inward_check fingerprint file w
  exact h.inward hinward (h.tidy.check fingerprint file) (by rw [hcurrent]) (by rw [hcurrent])

theorem Described.builds (h : Described S M c w) (hw : Builds (fun _ => False) w w') :
    Described S M c w' := by
  have hsettled := h.tidy.grounded.settled
  have hcurrent := hw.current hsettled
  refine h.of_same (h.tidy.builds hw) (by rw [hw.store]) (hw.store ▸ h.mode) (by rw [hcurrent])
    (fun id _ => by rw [hcurrent]) fun id debug _ => ?_
  exact artifactIn_congr (by rw [hw.store]) (fun part _ => hw.readText? hsettled (by simp)) debug

theorem Described.collects (h : Described S M c w) (hw : Collects w w') :
    Described S M c w' := by
  have hsettled := h.tidy.grounded.settled
  obtain ⟨-, hids, -⟩ := hw.tables hsettled
  refine h.of_same (h.tidy.collects hw) hw.setup.version (hw.setup.debug ▸ h.mode) hids
    (fun id hlive => (hw.of_live hsettled hlive).2.1) fun id debug hlive => ?_
  exact artifactIn_congr hw.setup.layout
    (fun part _ => hw.readText? hsettled (by simp [hlive])) debug

theorem Described.save (h : Described S M c w) : Described S M c (save w).2 := by
  have hsettled := h.tidy.grounded.settled
  have hsaves := saves_save hsettled h.tidy.linked
  refine h.of_same h.tidy.save hsaves.version (hsaves.debug ▸ h.mode) (by rw [hsaves.current])
    (fun id _ => by rw [hsaves.current]) fun id debug _ => ?_
  exact artifactIn_congr hsaves.layout
    (fun part hpart => hsaves.changes.readText? hsettled (by simpa using hpart)) debug

theorem Described.reopen (h : Described S M c w) (hclean : w.store.isDirty = false) {debug : Bool}
    (hmode : M debug) : Described S M c (reopen w.store.version debug w).2 := by
  obtain ⟨hreopen, htidy, hcurrent⟩ := h.tidy.reopen_of_clean hclean h.trimmed debug
  rw [hreopen]
  exact h.of_same htidy rfl hmode (by rw [hcurrent]) (fun id _ => by rw [hcurrent])
    fun _ _ _ => rfl

theorem Described.evict (h : Described S M c w) (hS : Books.Distinct S) (file : Path) :
    Described S M (c.drop [file]) (evict file w).2 := by
  have hsheds := sheds_evict file w
  refine ⟨h.tidy.evict file, by rw [hsheds.version, h.trimmed], hsheds.debug ▸ h.mode, ?_, ?_, ?_, ?_⟩
  · intro f item hc
    rw [Catalog.drop_singleton] at hc
    split at hc
    · contradiction
    · exact h.modes f item hc
  · rw [current_evict, Books.ids_evict]
    exact h.named.erase file
  · intro f item hc
    rw [Catalog.drop_singleton] at hc
    split at hc
    · contradiction
    · next hother =>
      obtain ⟨hhas, hartifact⟩ := h.full f item hc
      have hne : w.current.ids.get? file ≠ some item.id := fun hid =>
        hother (h.named.same_of_id hS hhas.tracked hid)
      refine ⟨⟨?_, ?_⟩, ?_⟩
      · rw [current_evict, Books.ids_evict, Books.get?_erase_ids, if_neg hother, hhas.tracked]
      · rw [current_evict, Books.record_evict, if_neg hne, hhas.record]
      · rw [artifactIn_congr hsheds.layout (fun part _ => readText?_evict hne part), hartifact]
  · intro f hc
    rw [current_evict, Books.ids_evict, Books.get?_erase_ids]
    rw [Catalog.drop_singleton] at hc
    split at hc
    · next hsame => exact if_pos hsame
    · next hother => rw [if_neg hother, h.bare f hc]

/-- An eviction answers whether it emptied a slot. -/
theorem Described.drop_evicted (h : Described S M c w) (file : Path) :
    c.drop (if (Workspace.evict file w).1 then [file] else []) = c.drop [file] := by
  cases hid : w.current.ids.get? file with
  | some id => rw [evict_of_tracked hid]; rfl
  | none =>
    rw [evict_of_untracked hid]
    funext f
    rw [Catalog.drop_singleton]
    show c f = _
    split
    · next hsame =>
      cases hc : c f with
      | none => rfl
      | some item =>
        have htracked := (h.full f item hc).1.tracked
        rw [Books.get?_same w.current.ids hsame, hid] at htracked
        contradiction
    · rfl

theorem evictionTrace_described (hS : Books.Distinct S) : EvictionTrace fun w files w' =>
    ∀ c, Described S M c w → Described S M (c.drop files) w' := by
  refine .of_dropping (fun w c h => h) ?_ (fun w c h => ?_) (fun w c h => ?_) (fun file w c h => ?_)
    fun dependency w c h => ?_
  · intro w w' w'' files files' hw hw' c h
    rw [Catalog.drop_append]
    exact hw' _ (hw c h)
  · exact h.inward (inward_ids w) h.tidy.ids rfl rfl
  · exact h.inward (inward_dependents w)
      (h.tidy.recalls (inward_dependents w) (recalls_dependents w)) rfl rfl
  · rw [h.drop_evicted file]
    exact h.evict hS file
  · exact h.inward (inward_changeDependents _ w)
      (h.tidy.recalls (inward_changeDependents _ w) (recalls_changeDependents _ w)) rfl rfl

theorem Described.sweep (h : Described S M c w) (hS : Books.Distinct S)
    (hok : (sweep w).1.isOk = true) :
    Described S M (c.step w .sweep) (sweep w).2 := by
  have hswept := (evictionTrace_described hS).swept w c h
  have hsaved := hswept.save
  obtain ⟨u, hu⟩ := exists_ok_of_isOk (isOk_save_of_sweep hok)
  rw [Catalog.step, sweep_eq, hu]
  exact hsaved

theorem current_assignId_of_tracked {id : CacheId}
    (h : (assignId file w).2.current.ids.get? file = some id) :
    (assignId file w).2.current = w.current.assign file := by
  rcases assignId_spec file w with ⟨e, -, hcurrent⟩ | ⟨id', -, hcurrent, -⟩
  · rw [hcurrent] at h ⊢
    rw [Books.assign, h]
  · exact hcurrent

theorem Described.idFor (h : Described S M c w) {id : CacheId}
    (hid : (w.current.assign file).ids.get? file = some id) : c.idFor file = id := by
  rw [Catalog.idFor]
  cases hc : c file with
  | some item =>
    have htracked : (w.current.assign file).ids.get? file = some item.id :=
      Books.get?_assign (h.full file item hc).1.tracked
    rw [hid, Option.some.injEq] at htracked
    exact htracked.symm
  | none =>
    rw [Books.assign, h.bare file hc] at hid
    simp only [Books.get?_insert_ids, Path.same_refl, if_pos, Option.some.injEq] at hid
    exact hid

/-- The record and the artifact of a file were entered under its id, and nothing else changed. -/
structure Enters (file : Path) (id : CacheId) (r : CacheRecord) (artifact : Artifact)
    (w w' : Workspace) : Prop extends SameSetup w w' where
  tidy : Tidy w'
  tracked : (w.current.assign file).ids.get? file = some id
  current : w'.current = (w.current.assign file).put file id r
  artifact : w'.artifactIn w.store.debug id = some artifact
  others : ∀ id' debug, id' ≠ id → w'.artifactIn debug id' = w.artifactIn debug id'

theorem enters_of_builds (h : Tidy w) {id : CacheId} {artifact : Artifact}
    (hbuilds : Builds (· = id) (assignId file w).2 w')
    (hartifact : w'.store.artifacts.read? w'.files id = some artifact)
    (hid : w'.current.ids.get? file = some id) (r : CacheRecord) :
    Enters file id r artifact w (replaceRecord file id r (ids w').2) := by
  have hassign := inward_assignId file w
  have hassigned := h.assignId file
  have hsettled := hassigned.grounded.settled
  have hwritten := hassigned.builds hbuilds
  have hreplace := (inward_ids w').trans (inward_replaceRecord file id r (ids w').2)
  have hsetup : SameSetup w w' := by
    constructor <;> rw [hbuilds.store]
    exacts [hassign.layout, hassign.version, hassign.debug]
  have hkept (id' : CacheId) (debug : Bool) :
      (replaceRecord file id r (ids w').2).artifactIn debug id' = w'.artifactIn debug id' :=
    artifactIn_congr hreplace.layout (fun part _ => by rw [hreplace.files]) debug
  have hcurrent : w'.current = w.current.assign file := by
    rw [hbuilds.current hsettled]
    have htracked : (assignId file w).2.current.ids.get? file = some id := by
      rw [← hbuilds.current hsettled, hid]
    exact current_assignId_of_tracked htracked
  refine ⟨hsetup.trans hreplace.toSameSetup, hwritten.ids.replaceRecord hid r, hcurrent ▸ hid, ?_,
    ?_, fun id' debug hne => ?_⟩
  · rw [current_replaceRecord, current_ids, hcurrent]
  · rw [hkept, ← hsetup.debug]
    exact hartifact
  · have hbuilt : w'.artifactIn debug id' = (assignId file w).2.artifactIn debug id' :=
      artifactIn_congr (by rw [hbuilds.store])
        (fun part _ => hbuilds.readText? hsettled (by simp [hne])) debug
    rw [hkept, hbuilt, artifactIn_congr hassign.layout (fun part _ => by rw [hassign.files])]

theorem Described.enters (h : Described S M c w) (hS : Books.Distinct S) (hfile : S file)
    {id : CacheId} {r : CacheRecord} {artifact : Artifact} (hw : Enters file id r artifact w w') :
    Described S M (c.put file ⟨c.idFor file, r, artifact, w.store.debug⟩) w' := by
  have hnamed := h.named.assign hfile
  rw [h.idFor hw.tracked]
  refine ⟨hw.tidy, by rw [hw.version, h.trimmed], hw.debug ▸ h.mode, fun f item hc => ?_, ?_,
    fun f item hc => ?_, fun f hc => ?_⟩
  · cases hsame : f.same file with
    | true =>
      rw [Catalog.put_of_same hsame] at hc
      cases hc
      exact h.mode
    | false =>
      rw [Catalog.put_of_other hsame] at hc
      exact h.modes f item hc
  · rw [hw.current, Books.ids_put]
    exact hnamed
  · cases hsame : f.same file with
    | true =>
      rw [Catalog.put_of_same hsame] at hc
      cases hc
      refine ⟨⟨?_, ?_⟩, hw.artifact⟩
      · rw [hw.current, Books.ids_put, Books.get?_same _ hsame, hw.tracked]
      · rw [hw.current, Books.record_put, if_pos rfl]
    | false =>
      rw [Catalog.put_of_other hsame] at hc
      obtain ⟨hhas, hread⟩ := h.full f item hc
      have htracked : (w.current.assign file).ids.get? f = some item.id :=
        Books.get?_assign hhas.tracked
      have hne : item.id ≠ id := by
        intro heq
        rw [hnamed.same_of_id hS (heq ▸ htracked) hw.tracked] at hsame
        contradiction
      refine ⟨⟨?_, ?_⟩, by rw [hw.others _ _ hne, hread]⟩
      · rw [hw.current, Books.ids_put, htracked]
      · rw [hw.current, Books.record_put, if_neg hne, Books.record_assign, hhas.record]
  · cases hsame : f.same file with
    | true =>
      rw [Catalog.put_of_same hsame] at hc
      contradiction
    | false =>
      rw [Catalog.put_of_other hsame] at hc
      rw [hw.current, Books.ids_put, Books.assign]
      split
      · exact h.bare f hc
      · simp only [Books.get?_insert_ids, hsame, h.bare f hc]
        rfl

theorem Described.commit (h : Described S M c w) (hS : Books.Distinct S) {s : Session}
    {specifiers : List String} {artifact : Artifact} (hfile : S file)
    (hdone : (s.commit file specifiers artifact w).1.isOk = true ∨
      (s.commit file specifiers artifact w).2 = w) :
    Described S M (c.step w (.commit s file specifiers artifact))
      (s.commit file specifiers artifact w).2 := by
  have hresult := s.commitResult file specifiers artifact w
  rw [Catalog.step]
  generalize s.commit file specifiers artifact w = result at hdone hresult ⊢
  cases hresult with
  | rejected e => exact h
  | unwritten e id w' hbuilds =>
    have heq : w' = w := hdone.resolve_left (by simp [Except.isOk, Except.toBool])
    exact heq ▸ h
  | done stamp id w' hstamp hbuilds hartifact hid =>
    simp only [hstamp]
    exact h.enters hS hfile (enters_of_builds h.tidy hbuilds hartifact hid _)

theorem Described.run (h : Described S M c w) (hS : Books.Distinct S) {op : Operation}
    (hcareful : op.Careful S M w) : Described S M (c.step w op) (op.run w).2 := by
  cases op with
  | commit s file specifiers artifact => exact h.commit hS hcareful.1 hcareful.2
  | evict file => exact h.evict hS file
  | evictDependents dependency =>
    exact (evictionTrace_described hS).evictDependents dependency w c h
  | sweep =>
    rw [Operation.snd_run_sweep]
    exact h.sweep hS hcareful
  | collectGarbage => exact h.collects (collects_collectGarbage h.tidy.grounded.housed)
  | save => exact h.save
  | check s file => exact h.check s.fingerprint file
  | reopen version debug =>
    obtain ⟨⟨rfl, hclean⟩, hmode⟩ := hcareful
    exact h.reopen hclean hmode
  | edit files => exact h.builds (builds_edit hcareful)
  | commitRecord | assignId | setDependencies => exact hcareful.elim

theorem Described.after {ops : List Operation} (h : Described S M c w) (hS : Books.Distinct S)
    (hops : w.Permits (fun w op => op.Careful S M w) ops) :
    Described S M (c.after w ops) (w.after ops) := by
  induction ops generalizing c w with
  | nil => exact h
  | cons op ops ih => exact ih (h.run hS hops.1) hops.2

theorem described_of_open {dir : Path} {version : String} {debug : Bool} {t : FileTree}
    (hvacant : (Layout.mk dir).Vacant t) (htrim : trimBlanks version = version) (hmode : M debug)
    (hopen : Store.openAt t dir version debug = (.ok w.store, w.files)) :
    Described S M .empty w := by
  obtain ⟨-, -, hcurrent, -, -⟩ := blank_of_open hvacant hopen
  obtain ⟨unmarked, hstore, -⟩ := Store.openAt_cases hopen
  exact {
    tidy := tidy_of_openAt hvacant.settled hvacant.housed hopen
    trimmed := by
      rw [hstore]
      exact htrim
    mode := by
      rw [hstore]
      exact hmode
    modes := fun f item hc => nomatch hc
    named := by
      rw [hcurrent]
      exact Books.named_empty S
    full := fun f item hc => nomatch hc
    bare := fun f _ => by
      rw [hcurrent]
      exact OrderedMap.get?_empty f }

/-- All that is answered of a file. -/
def slot (w : Workspace) (f : Path) : Option CacheId × Option CacheRecord × Option Artifact :=
  ((Workspace.idOf f w).1, (Workspace.recordOf f w).1, (Workspace.artifactOf f w).1)

theorem Described.slot {debug : Bool} (h : Described S (· = debug) c w) (f : Path) :
    w.slot f = ((c f).map Item.id, (c f).map Item.record, (c f).map Item.artifact) := by
  have hmode (item : Item) (hc : c f = some item) : item.debug = w.store.debug :=
    (h.modes f item hc).trans h.mode.symm
  rw [Workspace.slot, h.idOf, h.recordOf, h.artifactOf hmode]

/-- A file keeps its id until it is evicted. -/
theorem Described.idOf_step (h : Described S M c w) {op : Operation}
    (h' : Described S M (c.step w op) w') {id : CacheId}
    (hid : (Workspace.idOf f w).1 = some id) :
    (Workspace.idOf f w').1 = some id ∨ (Workspace.idOf f w').1 = none := by
  have hsame (q : Path) (hq : f.same q = true) : (c q).map Item.id = (c f).map Item.id := by
    rw [← h.idOf, ← h.idOf, fst_idOf, fst_idOf, Books.get?_same w.current.ids hq]
  rw [h.idOf, Option.map_eq_some_iff] at hid
  obtain ⟨item, hc, rfl⟩ := hid
  rw [h'.idOf]
  cases hc' : c.step w op f with
  | none => exact .inr rfl
  | some item' => exact .inl (congrArg some (Catalog.id_step hc hc' hsame))

end Workspace

/-- A cache that is always worked with in one mode answers for each file what is in its slot, over
whole runs. A file keeps its id until it is evicted, and a commit or an eviction of one file changes
nothing of the others. -/
theorem slot_after {S : Path → Prop} (hS : Books.Distinct S) {dir : Path} {version : String}
    {debug : Bool} {t : FileTree} (hvacant : (Layout.mk dir).Vacant t)
    (htrim : trimBlanks version = version) {w : Workspace}
    (hopen : Store.openAt t dir version debug = (.ok w.store, w.files)) {ops : List Operation}
    (hops : w.Permits (fun w op => op.Careful S (· = debug) w) ops) :
    (∀ f, (w.after ops).slot f =
      ((Catalog.empty.after w ops f).map Item.id, (Catalog.empty.after w ops f).map Item.record,
        (Catalog.empty.after w ops f).map Item.artifact)) ∧
    ∀ op : Operation, op.Careful S (· = debug) (w.after ops) →
      (∀ f id, (idOf f (w.after ops)).1 = some id →
        (idOf f (op.run (w.after ops)).2).1 = some id ∨
          (idOf f (op.run (w.after ops)).2).1 = none) ∧
      ∀ file g, op.file? = some file → g.same file = false →
        (op.run (w.after ops)).2.slot g = (w.after ops).slot g := by
  have hdescribed := (described_of_open (M := (· = debug)) hvacant htrim rfl hopen).after hS hops
  refine ⟨hdescribed.slot, fun op hop => ?_⟩
  have hnext := hdescribed.run hS hop
  refine ⟨fun f id hid => hdescribed.idOf_step hnext hid, fun file g hfile hother => ?_⟩
  rw [hnext.slot, hdescribed.slot, Catalog.step_of_other hfile hother]

namespace Sample

/-- Two files are committed, one with a source map, and one is evicted in a later session. -/
def mixed : List Operation :=
  [.commit session importer ["./y.js"] { code := "f", sourceMap := some "m" },
    .commit session other [] { code := "g" }, .save, restart, .evict other, .collectGarbage]

def mixedCatalog : Catalog := Catalog.empty.after (started cacheDir) mixed

def spaced : List Operation := saved ++ [.reopen " 1" false]

/-- The way to the cache directory is closed after a save. -/
def closing : Operation :=
  .edit (((started detour).after saved).files.removeTree (.ofString "/proj")).2

end Sample

open Sample

theorem slot_after_mixed :
    (∀ f, ((started cacheDir).after mixed).slot f = ((mixedCatalog f).map Item.id,
      (mixedCatalog f).map Item.record, (mixedCatalog f).map Item.artifact)) ∧
    ∀ op : Operation, op.Careful Named (· = false) ((started cacheDir).after mixed) →
      (∀ f id, (idOf f ((started cacheDir).after mixed)).1 = some id →
        (idOf f (op.run ((started cacheDir).after mixed)).2).1 = some id ∨
          (idOf f (op.run ((started cacheDir).after mixed)).2).1 = none) ∧
      ∀ file g, op.file? = some file → g.same file = false →
        (op.run ((started cacheDir).after mixed)).2.slot g =
          ((started cacheDir).after mixed).slot g :=
  slot_after distinct_named vacant_cacheDir trimBlanks_defaultVersion (openAt_cacheDir _)
    (by decide +kernel)

/-- The slot is full and nothing is served, in a version with a blank before it and after the way to
the cache directory was closed. -/
theorem slot_ne_of_blank_and_closed_way :
    Books.Distinct Named ∧
    ((Layout.mk cacheDir).Vacant tree ∧
      Store.openAt tree cacheDir " 1" false = (.ok (opened cacheDir " 1").store, tree) ∧
      (opened cacheDir " 1").Permits (fun w op => op.Careful Named (· = false) w) spaced ∧
      (Catalog.empty.after (opened cacheDir " 1") spaced importer).map Item.artifact =
        some { code := "first" } ∧
      (artifactOf importer ((opened cacheDir " 1").after spaced)).1 = none) ∧
    ((Layout.mk detour).Vacant tree ∧
      Store.openAt tree detour Session.defaultVersion false = (.ok (started detour).store, tree) ∧
      (started detour).Permits (fun w op => op.Careful Named (· = false) w) Sample.saved ∧
      closing.Orderly Named ((started detour).after Sample.saved) ∧
      (Catalog.empty.after (started detour) (Sample.saved ++ [closing]) importer).map Item.artifact =
        some { code := "first" } ∧
      (artifactOf importer ((started detour).after (Sample.saved ++ [closing]))).1 = none) := by
  refine ⟨distinct_named, ⟨vacant_cacheDir, openAt_cacheDir _, ?_⟩,
    ⟨vacant_detour, openAt_of_vacant vacant_detour _ _, ?_⟩⟩
  all_goals decide +kernel

/-- A file that is found fresh is in the map, and its artifact is served if it was committed in the
mode of the session that asks. -/
theorem served_of_check_fresh {S : Path → Prop} (hS : Books.Distinct S) {dir : Path}
    {version : String} {debug : Bool} {t : FileTree} (hvacant : (Layout.mk dir).Vacant t)
    (htrim : trimBlanks version = version) {w : Workspace}
    (hopen : Store.openAt t dir version debug = (.ok w.store, w.files)) {ops : List Operation}
    (hops : w.Permits (fun w op => op.Careful S (fun _ => True) w) ops) {s : Session} {file : Path}
    (hfresh : (s.check file (w.after ops)).1 = .fresh) :
    ∃ item, Catalog.empty.after w ops file = some item ∧
      (recordOf file (w.after ops)).1 = some item.record ∧
      (item.debug = (w.after ops).store.debug →
        (artifactOf file (w.after ops)).1 = some item.artifact) := by
  have hdescribed :=
    (described_of_open (M := fun _ => True) hvacant htrim trivial hopen).after hS hops
  obtain ⟨id, r, hid, hr⟩ := record_of_check_fresh hfresh
  cases hc : Catalog.empty.after w ops file with
  | none =>
    rw [hdescribed.bare file hc] at hid
    contradiction
  | some item =>
    have hrecord := hdescribed.recordOf file
    rw [hc] at hrecord
    refine ⟨item, rfl, hrecord, fun hmode => ?_⟩
    have hserved := hdescribed.artifactOf (f := file) fun item' hc' => by
      rw [hc, Option.some.injEq] at hc'
      rw [← hc', hmode]
    rw [hserved, hc]
    rfl

namespace Sample

/-- A session in debug mode opens what one in the other mode saved. -/
def switched : List Operation := saved ++ [.reopen Session.defaultVersion true]

def recompiled : List Operation := switched ++ [compiled "second", .save]

end Sample

theorem served_of_check_fresh_of_recompiled :
    ∃ item, Catalog.empty.after (started cacheDir) recompiled importer = some item ∧
      (recordOf importer ((started cacheDir).after recompiled)).1 = some item.record ∧
      (item.debug = ((started cacheDir).after recompiled).store.debug →
        (artifactOf importer ((started cacheDir).after recompiled)).1 = some item.artifact) := by
  have hfacts : (session.check importer ((started cacheDir).after recompiled)).1 = .fresh ∧
      (started cacheDir).Permits (fun w op => op.Careful Named (fun _ => True) w) recompiled := by
    decide +kernel
  obtain ⟨hfresh, hops⟩ := hfacts
  exact served_of_check_fresh (w := started cacheDir) distinct_named vacant_cacheDir
    trimBlanks_defaultVersion (openAt_cacheDir _) hops hfresh

/-- In another mode than that of its commit a fresh file has no artifact. -/
theorem fresh_unserved_of_switched_mode :
    Books.Distinct Named ∧ (Layout.mk cacheDir).Vacant tree ∧
      Store.openAt tree cacheDir Session.defaultVersion false =
        (.ok (started cacheDir).store, tree) ∧
      (started cacheDir).Permits (fun w op => op.Careful Named (fun _ => True) w) switched ∧
      (session.check importer ((started cacheDir).after switched)).1 = .fresh ∧
      (Catalog.empty.after (started cacheDir) switched importer).map Item.artifact =
        some { code := "first" } ∧
      (artifactOf importer ((started cacheDir).after switched)).1 = none := by
  refine ⟨distinct_named, vacant_cacheDir, openAt_cacheDir _, ?_⟩
  decide +kernel

end BuildCache
