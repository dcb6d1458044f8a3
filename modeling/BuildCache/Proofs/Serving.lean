import BuildCache.Proofs.Sessions

/-!
# Artifacts that are served

An artifact is on disk as soon as it is committed, its record only after the next save. So a record
that stands may have been made by one commit and the artifact that is served for it by another.
-/

namespace BuildCache

open FileTree

/-- What a commit makes of a file. -/
structure Compiled where
  record : CacheRecord
  artifact : Artifact
deriving DecidableEq

/-- For each id the commit that wrote last, the commit whose record is known, and the commit whose
record is on disk. -/
structure Ledger where
  latest : CacheId → Option Compiled
  known : CacheId → Option Compiled
  kept : CacheId → Option Compiled

namespace Ledger

def empty : Ledger := ⟨fun _ => none, fun _ => none, fun _ => none⟩

def enter (l : Ledger) (id : CacheId) (c : Compiled) : Ledger where
  latest id' := if id' = id then some c else l.latest id'
  known id' := if id' = id then some c else l.known id'
  kept := l.kept

/-- What a step does to the ledger: a commit that succeeds is entered, a save keeps what is known,
and opening the cache anew leaves what was kept. -/
def step (l : Ledger) (w : Workspace) : Operation → Ledger
  | .commit s file specifiers artifact =>
    match s.commit file specifiers artifact w with
    | (.ok outcome, w') =>
      match w'.current.record outcome.id with
      | some record => l.enter outcome.id ⟨record, artifact⟩
      | none => l
    | (.error _, _) => l
  | .save | .sweep => { l with kept := l.known }
  | .reopen .. => { l with known := l.kept }
  | _ => l

def after (l : Ledger) (w : Workspace) : List Operation → Ledger
  | [] => l
  | op :: ops => (l.step w op).after (op.run w).2 ops

/-- Each record belongs to an id in use and is that of a commit. -/
structure Explains (commits : CacheId → Option Compiled) (b : Books) : Prop where
  live : ∀ id, (b.record id).isSome = true → ∃ f, b.ids.get? f = some id
  record : ∀ id r, b.record id = some r → ∃ c, commits id = some c ∧ c.record = r

theorem explains_empty (commits : CacheId → Option Compiled) : Explains commits .empty where
  live id h := by cases h
  record id r h := by cases h

end Ledger

/-- A step of sessions that all open the cache in one debug mode and whose writes succeed. Edits
leave the inside of the cache directory alone and the way to it open. -/
def Operation.Steady (w : Workspace) : Operation → Prop
  | .commit s file specifiers artifact =>
    (s.commit file specifiers artifact w).1.isOk = true ∨
      (s.commit file specifiers artifact w).2.files = w.files
  | .save => (Workspace.save w).1.isOk = true
  | .sweep => (Workspace.sweep w).1.isOk = true
  | .reopen version debug =>
    debug = w.store.debug ∧ (Workspace.reopen version debug w).1.isOk = true
  | .edit files => w.store.layout.Outside w.files files
  | .evict _ | .collectGarbage | .check .. => True
  | .commitRecord .. | .assignId _ | .setDependencies .. | .evictDependents _ => False

instance (w : Workspace) : (op : Operation) → Decidable (op.Steady w)
  | .commit .. => inferInstanceAs (Decidable (_ ∨ _))
  | .save | .sweep => inferInstanceAs (Decidable (_ = true))
  | .reopen .. => inferInstanceAs (Decidable (_ ∧ _))
  | .edit _ => inferInstanceAs (Decidable (Layout.Outside _ _ _))
  | .evict _ | .collectGarbage | .check .. => .isTrue trivial
  | .commitRecord .. | .assignId _ | .setDependencies .. | .evictDependents _ => .isFalse id

namespace Workspace

/-- The artifact that is on disk for an id. -/
def artifact (w : Workspace) (id : CacheId) : Option Artifact :=
  w.store.artifacts.read? w.files id

theorem fst_artifactOf {file : Path} {id : CacheId} {w : Workspace}
    (h : w.current.ids.get? file = some id) : (artifactOf file w).1 = w.artifact id := by
  rw [fst_artifactOf_eq_bind, h]
  rfl

variable {w w' : Workspace} {l : Ledger}

theorem artifact_congr (hlayout : w'.store.layout = w.store.layout)
    (hdebug : w'.store.debug = w.store.debug) {id : CacheId}
    (hread : ∀ part, part ≠ .record →
      w'.files.readText? ((Slot.entry id part).path w.store.layout) =
        w.files.readText? ((Slot.entry id part).path w.store.layout)) :
    w'.artifact id = w.artifact id := by
  rw [artifact, artifact, Store.artifacts, Store.artifacts, hlayout, hdebug,
    Slot.read?_artifact, Slot.read?_artifact, hread _ (by simp), hread _ (by simp)]

theorem Inward.artifact (h : Inward w w') (id : CacheId) : w'.artifact id = w.artifact id :=
  artifact_congr h.layout h.debug fun _ _ => by rw [h.files]

/-- The ledger explains the records in memory and on disk, and each artifact that belongs to one of
them is that of the commit that wrote last. -/
structure Paired (l : Ledger) (w : Workspace) : Prop where
  grounded : w.Grounded
  linked : w.Linked fun _ => True
  current : Ledger.Explains l.known w.current
  saved : Ledger.Explains l.kept w.saved
  live : ∀ id, (w.saved.record id).isSome = true → w.Live id
  artifact : ∀ id, (w.current.record id).isSome = true ∨ (w.saved.record id).isSome = true →
    ∃ c, l.latest id = some c ∧ w.artifact id = some c.artifact

/-- Each id has lost its records, or all that belongs to it is as before. -/
theorem Paired.of_fewer (h : Paired l w) (hgrounded : w'.Grounded)
    (hlinked : w'.Linked fun _ => True) (hids : w'.saved.ids = w.saved.ids)
    (hkept : ∀ id, (w'.current.record id = none ∧ w'.saved.record id = none) ∨
      (w'.current.record id = w.current.record id ∧ w'.saved.record id = w.saved.record id ∧
        w'.artifact id = w.artifact id ∧ (w.Live id → w'.Live id))) : Paired l w' where
  grounded := hgrounded
  linked := hlinked
  current := by
    refine ⟨fun id hid => ?_, fun id r hr => ?_⟩
    · rcases hkept id with ⟨hnone, -⟩ | ⟨hrecord, -, -, hlive⟩
      · simp [hnone] at hid
      · exact hlive (h.current.live id (hrecord ▸ hid))
    · rcases hkept id with ⟨hnone, -⟩ | ⟨hrecord, -⟩
      · simp [hnone] at hr
      · exact h.current.record id r (hrecord ▸ hr)
  saved := by
    refine ⟨fun id hid => ?_, fun id r hr => ?_⟩
    · rcases hkept id with ⟨-, hnone⟩ | ⟨-, hrecord, -⟩
      · simp [hnone] at hid
      · rw [hids]
        exact h.saved.live id (hrecord ▸ hid)
    · rcases hkept id with ⟨-, hnone⟩ | ⟨-, hrecord, -⟩
      · simp [hnone] at hr
      · exact h.saved.record id r (hrecord ▸ hr)
  live id hid := by
    rcases hkept id with ⟨-, hnone⟩ | ⟨-, hrecord, -, hlive⟩
    · simp [hnone] at hid
    · exact hlive (h.live id (hrecord ▸ hid))
  artifact id hid := by
    rcases hkept id with ⟨hnone, hnone'⟩ | ⟨hcurrent, hsaved, hartifact, -⟩
    · simp [hnone, hnone'] at hid
    · rw [hartifact]
      exact h.artifact id (hcurrent ▸ hsaved ▸ hid)

theorem Paired.inward (h : Paired l w) (hw : Inward w w')
    (hrecord : w'.current.record = w.current.record) (hlive : ∀ id, w.Live id → w'.Live id) :
    Paired l w' := by
  refine h.of_fewer (h.grounded.inward hw) (hw.linked _ h.linked) (by rw [hw.saved]) fun id => ?_
  exact .inr ⟨by rw [hrecord], by rw [hw.saved], hw.artifact id, hlive id⟩

theorem Paired.check (h : Paired l w) (fingerprint : Fingerprint) (file : Path) :
    Paired l (check fingerprint file w).2 := by
  obtain ⟨hinward, hcurrent⟩ := inward_check fingerprint file w
  refine h.inward hinward (by rw [hcurrent]) fun id hid => ?_
  rwa [Live, hcurrent]

theorem Paired.edit (h : Paired l w) {t : FileTree} (hout : w.store.layout.Outside w.files t) :
    Paired l { w with files := t } := by
  have hbuilds := builds_edit hout
  have hsettled := h.grounded.settled
  have hcurrent := hbuilds.current hsettled
  have hsaved := hbuilds.saved hsettled
  refine h.of_fewer (h.grounded.of_changes rfl hbuilds.changes)
    (hbuilds.linked hsettled h.linked) (by rw [hsaved]) fun id => .inr ?_
  refine ⟨by rw [hcurrent], by rw [hsaved], hbuilds.read? hsettled (fun h => h), fun hid => ?_⟩
  rwa [Live, hcurrent]

theorem Paired.evict (h : Paired l w) (file : Path) : Paired l (evict file w).2 := by
  have hsheds := sheds_evict file w
  refine h.of_fewer (h.grounded.of_changes hsheds.layout hsheds.changes)
    (hsheds.linked _ h.linked) hsheds.tables.1 fun id => ?_
  rw [current_evict, Books.record_evict]
  by_cases hid : w.current.ids.get? file = some id
  · exact .inl ⟨if_pos hid, (clears_evict hid).record⟩
  · have hread := readText?_evict hid
    refine .inr ⟨if_neg hid, ?_, artifact_congr hsheds.layout hsheds.debug fun part _ => hread part,
      fun hlive => ?_⟩
    · rw [record_saved, record_saved, hsheds.layout]
      exact readJson?_congr (hread .record)
    · rw [Live, current_evict]
      exact Books.live_evict hid hlive

theorem evictionClosed_paired (l : Ledger) :
    EvictionClosed fun w w' => Paired l w → Paired l w' :=
  .of_dropping (fun _ h => h) (fun h h' hw => h' (h hw))
    (fun w h => h.inward (inward_ids w) rfl fun _ hid => hid)
    (fun w h => h.inward (inward_dependents w) rfl fun _ hid => hid)
    (fun file _ h => h.evict file)
    fun _ w h => h.inward (inward_changeDependents _ w) rfl fun _ hid => hid

theorem Paired.collects (h : Paired l w) (hw : Collects w w') : Paired l w' := by
  have hsettled := h.grounded.settled
  have hcurrent := hw.current hsettled h.current.live
  refine h.of_fewer (h.grounded.of_changes hw.setup.layout hw.changes)
    (hw.linked hsettled h.linked fun id _ => h.current.live id) (hw.tables hsettled).1.1
    fun id => ?_
  by_cases hlive : w.Live id
  · obtain ⟨hsaved, -, hartifact⟩ := hw.of_live hsettled hlive
    refine .inr ⟨by rw [hcurrent], hsaved, hartifact, fun hid => ?_⟩
    rwa [Live, hcurrent]
  · have hnone : w.current.record id = none :=
      Option.not_isSome_iff_eq_none.mp (mt (h.current.live id) hlive)
    have hnone' : w.saved.record id = none :=
      Option.not_isSome_iff_eq_none.mp (mt (h.live id) hlive)
    refine .inl ⟨by rw [hcurrent, hnone], ?_⟩
    rcases hw.records hsettled id with hsame | hgone
    · rw [hsame, hnone']
    · exact hgone

theorem Paired.save (h : Paired l w) (hok : (save w).1.isOk = true) :
    Paired { l with kept := l.known } (save w).2 := by
  have hsettled := h.grounded.settled
  have hsaves := saves_save hsettled h.linked
  have hsaved := saved_save hsettled h.linked hok
  have hartifact (id : CacheId) : (Workspace.save w).2.artifact id = w.artifact id :=
    artifact_congr hsaves.layout hsaves.debug fun part hpart =>
      hsaves.changes.readText? hsettled (by simpa using hpart)
  refine ⟨h.grounded.of_changes hsaves.layout hsaves.changes, hsaves.linked, ?_, ?_, ?_, ?_⟩
  · exact hsaves.current ▸ h.current
  · exact hsaved ▸ h.current
  · intro id hid
    rw [Live, hsaves.current]
    exact h.current.live id (hsaved ▸ hid)
  · intro id hid
    rw [hsaves.current, hsaved, or_self] at hid
    rw [hartifact]
    exact h.artifact id (.inl hid)

theorem Paired.sweep (h : Paired l w) (hok : (sweep w).1.isOk = true) :
    Paired { l with kept := l.known } (sweep w).2 := by
  have hswept := (evictionClosed_paired l).swept w h
  have hsaved := hswept.save (isOk_save_of_sweep hok)
  rw [snd_sweep]
  exact hsaved

theorem Paired.reopens {version : String} (h : Paired l w)
    (hw : Reopens version w.store.debug w w') : Paired { l with known := l.kept } w' := by
  rcases hw.files with hfiles | hempty
  · have hsaved : w'.saved = w.saved := by
      rw [Workspace.saved, Workspace.saved, hfiles, hw.layout]
    have hcurrent : w'.current = w.saved := hw.current.trans hsaved
    refine ⟨hw.grounded, hw.linked _, hcurrent ▸ h.saved, hsaved ▸ h.saved, fun id hid => ?_,
      fun id hid => ?_⟩
    · rw [Live, hcurrent]
      exact h.saved.live id (hsaved ▸ hid)
    · rw [hcurrent, hsaved, or_self] at hid
      rw [artifact_congr hw.layout hw.debug fun _ _ => by rw [hfiles]]
      exact h.artifact id (.inr hid)
  · have hcurrent : w'.current = .empty := hw.current.trans hempty
    refine ⟨hw.grounded, hw.linked _, hcurrent ▸ Ledger.explains_empty _,
      hempty ▸ Ledger.explains_empty _, fun id hid => ?_, fun id hid => ?_⟩
    · rw [hempty] at hid
      cases hid
    · rw [hcurrent, hempty, or_self] at hid
      cases hid

theorem Paired.assignId (h : Paired l w) (file : Path) : Paired l (assignId file w).2 := by
  have hinward := inward_assignId file w
  rcases assignId_spec file w with ⟨e, -, hcurrent⟩ | ⟨id, -, hcurrent, -⟩
  · refine h.inward hinward (by rw [hcurrent]) fun id' hid => ?_
    rwa [Live, hcurrent]
  · refine h.inward hinward (by rw [hcurrent, Books.record_assign]) fun id' hid => ?_
    obtain ⟨f, hf⟩ := hid
    rw [Live, hcurrent]
    exact ⟨f, Books.get?_assign hf⟩

theorem Paired.enter (h : Paired l w) {file : Path} {id : CacheId} {artifact : Artifact}
    (hbuilds : Builds (· = id) w w') (hartifact : w'.artifact id = some artifact)
    (hid : w'.current.ids.get? file = some id) (r : CacheRecord) :
    Paired (l.enter id ⟨r, artifact⟩) (replaceRecord file id r (ids w').2) := by
  have hsettled := h.grounded.settled
  have hinward := (inward_ids w').trans (inward_replaceRecord file id r (ids w').2)
  have hsaved : (replaceRecord file id r (ids w').2).saved = w.saved :=
    hinward.saved.trans (hbuilds.saved hsettled)
  have hcurrent : (replaceRecord file id r (ids w').2).current = w.current.put file id r := by
    rw [current_replaceRecord, current_ids, hbuilds.current hsettled]
  rw [hbuilds.current hsettled] at hid
  have hlive (id' : CacheId) (hlive : w.Live id') :
      (replaceRecord file id r (ids w').2).Live id' := by
    rwa [Live, hcurrent, Books.ids_put]
  refine ⟨?_, hinward.linked _ (hbuilds.linked hsettled h.linked), ?_, hsaved ▸ h.saved,
    fun id' hid' => hlive id' (h.live id' (hsaved ▸ hid')), fun id' hid' => ?_⟩
  · exact (h.grounded.of_changes (by rw [hbuilds.store]) hbuilds.changes).inward hinward
  · rw [hcurrent]
    refine ⟨fun id' hid' => ?_, fun id' r' hr' => ?_⟩
    · rw [Books.ids_put]
      by_cases heq : id' = id
      · exact ⟨file, heq ▸ hid⟩
      · rw [Books.record_put, if_neg heq] at hid'
        exact h.current.live id' hid'
    · rw [Books.record_put] at hr'
      by_cases heq : id' = id
      · rw [if_pos heq] at hr'
        cases hr'
        exact ⟨⟨r, artifact⟩, if_pos heq, rfl⟩
      · rw [if_neg heq] at hr'
        obtain ⟨c, hc, hr⟩ := h.current.record id' r' hr'
        exact ⟨c, (if_neg heq).trans hc, hr⟩
  · rw [hinward.artifact]
    by_cases heq : id' = id
    · exact ⟨⟨r, artifact⟩, if_pos heq, heq ▸ hartifact⟩
    · rw [hcurrent, hsaved, Books.record_put, if_neg heq] at hid'
      obtain ⟨c, hc, hr⟩ := h.artifact id' hid'
      exact ⟨c, (if_neg heq).trans hc, (hbuilds.read? hsettled heq).trans hr⟩

theorem Paired.commit (h : Paired l w) {s : Session} {file : Path} {specifiers : List String}
    {artifact : Artifact} (hsteady : (Operation.commit s file specifiers artifact).Steady w) :
    Paired (l.step w (.commit s file specifiers artifact))
      (s.commit file specifiers artifact w).2 := by
  have hassigned := h.assignId file
  have hinward := inward_assignId file w
  have hresult := s.commitResult file specifiers artifact w
  rw [Operation.Steady] at hsteady
  rw [Ledger.step]
  generalize s.commit file specifiers artifact w = result at hsteady hresult ⊢
  cases hresult with
  | rejected e => exact h
  | unwritten e id w' hbuilds =>
    have hfiles : w'.files = w.files := hsteady.resolve_left (by simp [Except.isOk, Except.toBool])
    have heq : w' = (Workspace.assignId file w).2 := by
      obtain ⟨t, store⟩ := w'
      obtain rfl : store = (Workspace.assignId file w).2.store := hbuilds.store
      obtain rfl : t = (Workspace.assignId file w).2.files := hfiles.trans hinward.files.symm
      rfl
    exact heq ▸ hassigned
  | done stamp id w' hstamp hbuilds hartifact hid =>
    have hentered := hassigned.enter hbuilds hartifact hid (s.recordFor w.files stamp
      (s.config.resolver.imports w.files file specifiers))
    simp only [current_replaceRecord, Books.record_put, if_pos]
    exact hentered

theorem Paired.run (h : Paired l w) {op : Operation} (hsteady : op.Steady w) :
    Paired (l.step w op) (op.run w).2 := by
  cases op with
  | commit s file specifiers artifact => exact h.commit hsteady
  | evict file => exact h.evict file
  | sweep =>
    rw [Operation.snd_run_sweep]
    exact h.sweep hsteady
  | collectGarbage => exact h.collects (collects_collectGarbage h.grounded.housed)
  | save => exact h.save hsteady
  | check s file => exact h.check s.fingerprint file
  | reopen version debug =>
    obtain ⟨rfl, hok⟩ := hsteady
    exact h.reopens (reopens_reopen h.grounded hok)
  | edit files => exact h.edit hsteady
  | commitRecord | assignId | setDependencies | evictDependents => exact hsteady.elim

theorem Paired.after {ops : List Operation} (h : Paired l w)
    (hops : w.Permits (fun w op => op.Steady w) ops) : Paired (l.after w ops) (w.after ops) := by
  induction ops generalizing l w with
  | nil => exact h
  | cons op ops ih => exact ih (h.run hops.1) hops.2

theorem paired_of_open {dir : Path} {version : String} {debug : Bool} {t : FileTree}
    (hvacant : (Layout.mk dir).Vacant t)
    (hopen : Store.openAt t dir version debug = (.ok w.store, w.files)) : Paired .empty w := by
  obtain ⟨hgrounded, hlinked, hcurrent, hsaved, -⟩ := blank_of_open hvacant hopen
  refine ⟨hgrounded, hlinked _, hcurrent ▸ Ledger.explains_empty _,
    hsaved ▸ Ledger.explains_empty _, fun id hid => ?_, fun id hid => ?_⟩
  · rw [hsaved] at hid
    cases hid
  · rw [hcurrent, hsaved, or_self] at hid
    cases hid

theorem record_of_check_fresh {fingerprint : Fingerprint} {file : Path}
    (h : (Workspace.check fingerprint file w).1 = .fresh) :
    ∃ id r, w.current.ids.get? file = some id ∧ w.current.record id = some r := by
  cases hid : w.current.ids.get? file with
  | none =>
    rw [check_of_untracked hid] at h
    contradiction
  | some id =>
    cases hr : w.current.record id with
    | none =>
      rw [check_of_tracked hid, hr] at h
      contradiction
    | some r => exact ⟨id, r, rfl, hr⟩

end Workspace

open Workspace

/-- Whatever sessions drop and whatever is edited: the record of a file that is found fresh was made
by one commit, and the artifact served for it by the last one. So it is the artifact of the record
exactly if both commits were given the same. -/
theorem artifactOf_of_check_fresh {dir : Path} {version : String} {debug : Bool} {t : FileTree}
    (hvacant : (Layout.mk dir).Vacant t) {w : Workspace}
    (hopen : Store.openAt t dir version debug = (.ok w.store, w.files)) {ops : List Operation}
    (hops : w.Permits (fun w op => op.Steady w) ops) {s : Session} {file : Path}
    (hfresh : (s.check file (w.after ops)).1 = .fresh) :
    ∃ id recorded last, (w.after ops).current.ids.get? file = some id ∧
      (Ledger.empty.after w ops).known id = some recorded ∧
      (w.after ops).current.record id = some recorded.record ∧
      (Ledger.empty.after w ops).latest id = some last ∧
      (artifactOf file (w.after ops)).1 = some last.artifact ∧
      ((artifactOf file (w.after ops)).1 = some recorded.artifact ↔
        last.artifact = recorded.artifact) := by
  have hpaired := (paired_of_open hvacant hopen).after hops
  obtain ⟨id, r, hid, hr⟩ := record_of_check_fresh hfresh
  obtain ⟨recorded, hknown, rfl⟩ := hpaired.current.record id r hr
  obtain ⟨last, hlatest, hartifact⟩ := hpaired.artifact id (.inl (by rw [hr]; rfl))
  have hserved : (artifactOf file (w.after ops)).1 = some last.artifact :=
    (fst_artifactOf hid).trans hartifact
  refine ⟨id, recorded, last, hid, hknown, hr, hlatest, hserved, ?_⟩
  rw [hserved, Option.some.injEq]

namespace Sample

/-- The source with another content and its old time. -/
def edited (w : Workspace) (content : String) : Operation :=
  .edit (withContent w.files importer content)

def compiled (code : String) : Operation := .commit session importer [] { code }

def saved : List Operation := [compiled "first", .save]

def dropped : List Operation :=
  saved ++ [edited ((started cacheDir).after saved) "2", compiled "second"]

/-- A session that compiled an edited source is dropped, and the edit is taken back. -/
def reverted : List Operation :=
  dropped ++ [edited ((started cacheDir).after dropped) "1", restart]

def final : Workspace := (started cacheDir).after reverted

def ledger : Ledger := Ledger.empty.after (started cacheDir) reverted

end Sample

open Sample

private theorem facts_of_reverted :
    (started cacheDir).Permits (fun w op => op.Steady w) reverted ∧
      (session.check importer final).1 = .fresh ∧
      (ledger.known (.forPath importer)).map (·.artifact) = some { code := "first" } ∧
      (artifactOf importer final).1 = some { code := "second" } := by
  decide +kernel

theorem artifactOf_of_reverted :
    ∃ id recorded last, final.current.ids.get? importer = some id ∧
      ledger.known id = some recorded ∧
      final.current.record id = some recorded.record ∧
      ledger.latest id = some last ∧
      (artifactOf importer final).1 = some last.artifact ∧
      ((artifactOf importer final).1 = some recorded.artifact ↔
        last.artifact = recorded.artifact) := by
  obtain ⟨hops, hfresh, -, -⟩ := facts_of_reverted
  exact artifactOf_of_check_fresh vacant_cacheDir (openAt_cacheDir _) hops hfresh

/-- The record of a first commit may stand while the artifact of a second one is served. -/
theorem second_served_for_first :
    (Layout.mk cacheDir).Vacant tree ∧
      Store.openAt tree cacheDir Session.defaultVersion false =
        (.ok (started cacheDir).store, tree) ∧
      (started cacheDir).Permits (fun w op => op.Steady w) reverted ∧
      (session.check importer final).1 = .fresh ∧
      (ledger.known (.forPath importer)).map (·.artifact) = some { code := "first" } ∧
      (artifactOf importer final).1 = some { code := "second" } :=
  ⟨vacant_cacheDir, openAt_cacheDir _, facts_of_reverted⟩

end BuildCache
