import BuildCache.Proofs.Confinement
import BuildCache.Proofs.Layout.Reach
import BuildCache.Proofs.Reopening

/-!
# Commits that fail

A commit that is turned down before anything is written leaves the cache as it was. One whose
artifact cannot be written leaves the id that it gave to the file, and perhaps the new code beside
the old source map.
-/

namespace BuildCache

open FileTree Workspace BuildCache.Path

namespace Workspace

/-- The files that a check of a file looks at. -/
def sourcesOf (w : Workspace) (file : Path) : List Path :=
  match (recordOf file w).1 with
  | some record => file :: record.dependencyPaths
  | none => [file]

/-- A check depends on what is known and on the files that it looks at. -/
theorem fst_check_congr {fingerprint : Fingerprint} {file : Path} {w w' : Workspace}
    (hcurrent : w'.current = w.current)
    (hsources : ∀ p ∈ w.sourcesOf file, w'.files.stat p = w.files.stat p) :
    (check fingerprint file w').1 = (check fingerprint file w).1 := by
  cases hid : w.current.ids.get? file with
  | none =>
    have hid' : w'.current.ids.get? file = none := hcurrent ▸ hid
    rw [check_of_untracked hid, check_of_untracked hid']
  | some id =>
    have hid' : w'.current.ids.get? file = some id := hcurrent ▸ hid
    rw [check_of_tracked hid, check_of_tracked hid', hcurrent]
    cases hr : w.current.record id with
    | none => rfl
    | some r =>
      rw [sourcesOf, fst_recordOf, hid, Option.bind_some, hr] at hsources
      have hsame : w'.files.staleReason? fingerprint file r =
          w.files.staleReason? fingerprint file r :=
        staleReason?_of_seen fun p hp => seenAlike_of_stat (hsources p hp)
      simp only [hsame]

/-- Every question is answered as before: what is known, what waits, every artifact, and the check
of every file with a source and dependencies that are out of reach of the cache. -/
structure AsBefore (w w' : Workspace) : Prop where
  books : w'.current = w.current
  flags : w'.flags = w.flags
  artifacts : ∀ f, (artifactOf f w').1 = (artifactOf f w).1
  checks : ∀ (s : Session) f, (∀ p ∈ w.sourcesOf f, w.store.layout.OutOfReach w.files p) →
    (s.check f w').1 = (s.check f w).1

theorem AsBefore.refl (w : Workspace) : AsBefore w w := ⟨rfl, rfl, fun _ => rfl, fun _ _ _ => rfl⟩

/-- The file has got an id, and of its artifact nothing was written or the code only. All else is
as before, but for what work in the cache directory makes of the directories there. -/
structure Attempted (file : Path) (id : CacheId) (a : Artifact) (w w' : Workspace) : Prop where
  confined : w.store.layout.Confined w.files w'.files
  tracked : w'.current.ids.get? file = some id
  books : w'.current = w.current.assign file
  flags : w'.flags =
    if w.current.ids.contains file then w.flags else { w.flags with dirty := true, ids := true }
  others : ∀ f, w'.current.ids.get? f ≠ some id → (artifactOf f w').1 = (artifactOf f w).1
  artifact : w'.store.artifacts.read? w'.files id = w.store.artifacts.read? w.files id ∨
    a.sourceMap.isSome = true ∧ w'.store.artifacts.read? w'.files id =
      some ⟨a.code, w.files.readText? (w.store.artifacts.sourceMapPath id)⟩

theorem Attempted.asBefore_iff {file : Path} {id : CacheId} {a : Artifact} {w w' : Workspace}
    (h : Attempted file id a w w') :
    AsBefore w w' ↔ w' = w ∨ w.current.ids.contains file = true ∧
      (artifactOf file w').1 = (artifactOf file w).1 := by
  constructor
  · intro hbefore
    have htracked := h.tracked
    rw [hbefore.books] at htracked
    refine .inr ⟨?_, hbefore.artifacts file⟩
    rw [OrderedMap.contains, htracked, Option.isSome_some]
  · rintro (rfl | ⟨hcontains, hartifact⟩)
    · exact .refl w'
    · have hbooks : w'.current = w.current := by
        obtain ⟨id', hid'⟩ := Option.isSome_iff_exists.mp hcontains
        rw [h.books, Books.assign, hid']
      refine ⟨hbooks, ?_, fun f => ?_, fun s f hsources => fst_check_congr hbooks fun p hp =>
        h.confined.stat_of_outOfReach (hsources p hp)⟩
      · rw [h.flags, if_pos hcontains]
      · by_cases hf : w'.current.ids.get? f = some id
        · -- whatever has the id of the file has its artifact
          rw [fst_artifactOf_eq_bind, fst_artifactOf_eq_bind, ← hbooks, hf, ← h.tracked, hbooks,
            ← fst_artifactOf_eq_bind, ← hartifact, fst_artifactOf_eq_bind, hbooks]
        · exact h.others f hf

theorem flags_assignId {file : Path} {id : CacheId} {w w₁ : Workspace}
    (h : assignId file w = (.ok id, w₁)) :
    w₁.flags =
      if w.current.ids.contains file then w.flags
      else { w.flags with dirty := true, ids := true } := by
  cases hid : w.current.ids.get? file with
  | some id' =>
    rw [assignId_of_tracked hid] at h
    cases h
    rw [OrderedMap.contains, hid]
    rfl
  | none =>
    rw [assignId_of_untracked hid] at h
    rw [OrderedMap.contains, hid]
    cases htext : StoreError.ensureText [file] with
    | error e =>
      rw [htext] at h
      cases h
    | ok u =>
      rw [htext] at h
      cases h
      simp [flags, Store.isDirty, changeIds, ids, Table.update]

theorem read?_of_failedWrite {faults : Faults} {id : CacheId} {a : Artifact} {w w' : Workspace}
    {e : StoreError} (hsettled : w.store.layout.Settled w.files)
    (h : writeArtifactUnless faults id a w = (.error e, w')) :
    w'.store.artifacts.read? w'.files id = w.store.artifacts.read? w.files id ∨
      a.sourceMap.isSome = true ∧ w'.store.artifacts.read? w'.files id =
        some ⟨a.code, w.files.readText? (w.store.artifacts.sourceMapPath id)⟩ := by
  cases hwrite : w.store.artifacts.writeUnless (faults (.entry id (.code w.store.debug)))
      (faults (.entry id (.sourceMap w.store.debug))) w.files id a with
  | mk r t =>
    rw [writeArtifactUnless_eq hwrite] at h
    cases h
    simp only [Store.artifacts, Slot.read?_artifact, Slot.path_sourceMap]
    rcases Slot.changes_of_writeArtifactUnless_error hwrite with hkept | ⟨hmap, hchanges, hcode⟩
    · rw [hkept.readText? hsettled fun h => h, hkept.readText? hsettled fun h => h]
      exact .inl rfl
    · rw [hcode, hchanges.readText? hsettled (s := .entry id (.sourceMap w.store.debug)) (by simp)]
      exact .inr ⟨hmap, rfl⟩

end Workspace

namespace Session

theorem attempted_of_unwritten {faults : Faults} {file : Path} {id : CacheId} {artifact : Artifact}
    {w w₁ w₂ : Workspace} {e : StoreError} (hsettled : w.store.layout.Settled w.files)
    (hassign : assignId file w = (.ok id, w₁))
    (hwrite : writeArtifactUnless faults id artifact w₁ = (.error e, w₂)) :
    Attempted file id artifact w w₂ := by
  have hinward := inward_assignId file w
  have hspec := assignId_spec file w
  have hstays := staysConfined_writeArtifactUnless faults id artifact w₁
  rw [hassign] at hinward hspec
  rw [hwrite] at hstays
  have hsettled₁ : w₁.store.layout.Settled w₁.files := by
    rw [hinward.layout, hinward.files]
    exact hsettled
  have hbuilds := builds_writeArtifactUnless faults id artifact w₁
  rw [hwrite] at hbuilds
  have hbooks : w₂.current = w.current.assign file := by
    rw [hbuilds.current hsettled₁]
    rcases hspec with ⟨e', he, -⟩ | ⟨id', -, hcurrent, -⟩
    · cases he
    · exact hcurrent
  have hstores : w₁.store.artifacts = w.store.artifacts := by
    rw [Store.artifacts, Store.artifacts, hinward.layout, hinward.debug]
  have htracked := tracked_of_assignId hassign hbuilds.store
  refine ⟨(hinward.stays.trans hstays).confined, htracked, hbooks, ?_, fun f hf => ?_, ?_⟩
  · rw [← flags_assignId hassign, flags, flags, hbuilds.store]
  · have hid : w₂.current.ids.get? f = w.current.ids.get? f := by
      rw [hbooks] at hf htracked ⊢
      exact Books.get?_assign_of_ne htracked hf
    rw [fst_artifactOf_eq_bind, fst_artifactOf_eq_bind, hid]
    cases hid' : w.current.ids.get? f with
    | none => rfl
    | some id' =>
      have hne : ¬id' = id := fun heq => hf (by rw [hid, hid', heq])
      rw [Option.bind_some, Option.bind_some, hbuilds.read? hsettled₁ hne, hstores, hinward.files]
  · have hread := read?_of_failedWrite hsettled₁ hwrite
    rwa [hstores, hinward.files] at hread

/-- A commit that fails leaves the cache as it was, if it is turned down, and else the id and
perhaps the code of its artifact. Nothing shows of the latter if and only if the file had an id and
its artifact is read as before. Without faults of its own the commit is `Session.commit`. -/
theorem asBefore_iff_of_failed {faults : Faults} {s : Session} {file : Path}
    {specifiers : List String} {artifact : Artifact} {w w' : Workspace} {e : StoreError}
    (hfailed : s.commitUnless faults file specifiers artifact w = (.error e, w')) :
    ((∃ p ∈ file :: (s.config.resolver.imports w.files file specifiers).dependencies,
        p.text? = none) ∨ (∃ cause, w.files.stamp file = .error cause) → w' = w) ∧
    (w.store.layout.Settled w.files →
      (w' = w ∨ ∃ id, Attempted file id artifact w w') ∧
      (AsBefore w w' ↔ w' = w ∨ w.current.ids.contains file = true ∧
        (artifactOf file w').1 = (artifactOf file w).1)) := by
  have hcourse := s.commitCourse faults file specifiers artifact w
  rw [hfailed] at hcourse
  cases hcourse with
  | nonText htext => exact ⟨fun _ => rfl, fun _ => ⟨.inl rfl, fun _ => .inl rfl, fun _ => .refl w⟩⟩
  | unreadable hstamp =>
    exact ⟨fun _ => rfl, fun _ => ⟨.inl rfl, fun _ => .inl rfl, fun _ => .refl w⟩⟩
  | unwritten htext hstamp hassign hwrite =>
    refine ⟨?_, fun hsettled => ?_⟩
    · rintro (⟨p, hp, hnone⟩ | ⟨cause, hcause⟩)
      · have hsome := ensureText_eq_ok_iff.mp htext p hp
        rw [hnone] at hsome
        contradiction
      · rw [hstamp] at hcause
        contradiction
    · have hattempted := attempted_of_unwritten hsettled hassign hwrite
      exact ⟨.inr ⟨_, hattempted⟩, hattempted.asBefore_iff⟩

end Session

namespace Sample

def codeSlot : Slot := .entry (.forPath importer) (.code false)

def mapSlot : Slot := .entry (.forPath importer) (.sourceMap false)

def compiledOnce : Artifact := ⟨"first", none⟩

def compiledWithMap : Artifact := ⟨"second", some "map"⟩

/-- A directory stands where the code of an artifact is to be kept. -/
def codeBlocked : Workspace :=
  ⟨withDirectory tree (codeSlot.path ⟨cacheDir⟩), (started cacheDir).store⟩

/-- A compiled file, and a directory where its source map is to be kept. -/
def mapBlocked : Workspace :=
  let done := (session.commit importer [] compiledOnce (started cacheDir)).2
  { done with files := withDirectory done.files (mapSlot.path ⟨cacheDir⟩) }

/-- A file with a record, and a directory where its code is to be kept. -/
def recorded : Workspace := (commitRecord importer plainRecord codeBlocked).2

def filesDirectory : Path := (Layout.mk cacheDir).files

/-- Another file, which depends on the directory of the files, is fresh. -/
def watching : Workspace :=
  let files := (recorded.files.touch filesDirectory 5000000000).toOption.getD recorded.files
  (commitRecord other { plainRecord with
    fingerprint := session.fingerprint
    dependencies := some (OrderedMap.empty.insert filesDirectory ⟨none, some 5000⟩) }
    { recorded with files }).2

end Sample

open Sample

theorem asBefore_of_recorded :
    (session.commit importer [] compiledOnce recorded).1.isOk = false ∧
      AsBefore recorded (session.commit importer [] compiledOnce recorded).2 ∧
      ∀ p ∈ recorded.sourcesOf importer, recorded.store.layout.OutOfReach recorded.files p := by
  have hfacts : ((session.commit importer [] compiledOnce recorded).1 =
        .error (.io (codeSlot.path ⟨cacheDir⟩) .isDirectory) ∧
      recorded.store.layout.Open recorded.files ∧
      recorded.current.ids.contains importer = true ∧
      (artifactOf importer (session.commit importer [] compiledOnce recorded).2).1 =
        (artifactOf importer recorded).1) ∧
      ∀ p ∈ recorded.sourcesOf importer,
        Avoids p.segments (recorded.store.layout.dir.location <:+ ·) := by
    decide +kernel
  obtain ⟨⟨herror, hopen, htracked, hartifact⟩, haside⟩ := hfacts
  have hfailed : session.commitUnless .none importer [] compiledOnce recorded =
      (.error (.io (codeSlot.path ⟨cacheDir⟩) .isDirectory),
        (session.commit importer [] compiledOnce recorded).2) := by
    rw [Session.commitUnless_none]
    exact Prod.ext herror rfl
  obtain ⟨-, hiff⟩ := (Session.asBefore_iff_of_failed hfailed).2 (.inl hopen)
  refine ⟨by rw [herror]; rfl, hiff.mpr (.inr ⟨htracked, hartifact⟩), fun p hp => ?_⟩
  exact hopen.outOfReach (Layout.avoids_own (haside p hp)) fun heq =>
    (haside p hp).location (heq ▸ List.suffix_rfl)

/-- A commit that fails at the code gives a new file an id, and one that fails at the source map
leaves new code to be served under the old record. Either stamps the directory of the files, so that
a file that depends on it is stale. -/
theorem known_served_and_stale_of_failed_commit :
    ((session.commit importer [] compiledOnce codeBlocked).1.isOk = false ∧
      (idOf importer codeBlocked).1 = none ∧ codeBlocked.flags = ⟨true, false, false, 0⟩ ∧
      (idOf importer (session.commit importer [] compiledOnce codeBlocked).2).1 =
        some (.forPath importer) ∧
      (session.commit importer [] compiledOnce codeBlocked).2.flags = ⟨true, true, false, 0⟩) ∧
    ((session.commit importer [] compiledWithMap mapBlocked).1.isOk = false ∧
      (artifactOf importer mapBlocked).1 = some compiledOnce ∧
      (artifactOf importer (session.commit importer [] compiledWithMap mapBlocked).2).1 =
        some ⟨"second", none⟩ ∧
      (session.check importer (session.commit importer [] compiledWithMap mapBlocked).2).1 =
        .fresh) ∧
    ((session.commit importer [] compiledOnce watching).1.isOk = false ∧
      (session.check other watching).1 = .fresh ∧
      (session.check other (session.commit importer [] compiledOnce watching).2).1 =
        .stale (.dependencyMissing filesDirectory)) := by
  decide +kernel

end BuildCache
