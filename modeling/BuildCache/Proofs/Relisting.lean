import BuildCache.Proofs.Consistency

/-!
# Moving a file in the reverse index

A step that gives a file new dependencies moves it from those of its previous record to the new
ones. Where the two agree nothing is looked at, so what the index says there stays, be it right or
wrong. Without a previous record the whole index is searched, and nothing wrong is left.
-/

namespace BuildCache

namespace Books

variable {b : Books} {file : Path} {id : CacheId} {next : PathSet}

/-- The index lists a file under these dependencies and no others. -/
def ListsExactly (b : Books) (file : Path) (dependencies : PathSet) : Prop :=
  ∀ y, b.dependents.Lists y file ↔ dependencies.contains y = true

/-- Where the previous record of an id, if there is one, agrees with the next dependencies, the
index is right about the file. -/
def RightWhereKept (b : Books) (file : Path) (id : CacheId) (next : PathSet) : Prop :=
  ∀ previous, b.record id = some previous → ∀ y,
    previous.dependencySet.contains y = next.contains y →
      (b.dependents.Lists y file ↔ next.contains y = true)

theorem rightWhereKept_of_no_record (h : b.record id = none) :
    b.RightWhereKept file id next := by
  intro previous hprevious
  rw [h] at hprevious
  contradiction

theorem rightWhereKept_of_listsExactly
    (h : ∀ previous, b.record id = some previous → b.ListsExactly file previous.dependencySet) :
    b.RightWhereKept file id next := by
  intro previous hprevious y hkept
  rw [← hkept]
  exact h previous hprevious y

theorem rightWhereKept_withIds (ids : IdTable) :
    RightWhereKept { b with ids } file id next ↔ b.RightWhereKept file id next := Iff.rfl

theorem rightWhereKept_assign (f : Path) :
    (b.assign f).RightWhereKept file id next ↔ b.RightWhereKept file id next := by
  rw [assign]
  split
  · rfl
  · exact rightWhereKept_withIds _

/-- A move by difference is right exactly where it changes something or the index was right. -/
theorem lists_move_iff (file : Path) (previous next : PathSet) (y : Path) :
    ((b.move file previous next).dependents.Lists y file ↔ next.contains y = true) ↔
      (previous.contains y = next.contains y →
        (b.dependents.Lists y file ↔ next.contains y = true)) := by
  rw [lists_move]
  cases hprevious : previous.contains y <;> cases hnext : next.contains y <;> simp

/-- After a search of the whole index a move starts from nothing. -/
theorem lists_move_forget (file : Path) (next : PathSet) (y : Path) :
    ((b.forget file).move file .empty next).dependents.Lists y file ↔
      next.contains y = true := by
  have hempty : OrderedMap.contains (.empty : PathSet) y = false := rfl
  rw [lists_move, lists_forget]
  simp [hempty]

/-- Putting a record leaves the index right about its file if and only if it was right wherever the
previous record and the next agree. -/
theorem listsExactly_put_iff (r : CacheRecord) :
    (b.put file id r).ListsExactly file r.dependencySet ↔
      b.RightWhereKept file id r.dependencySet := by
  rw [ListsExactly, put]
  cases hprevious : b.record id with
  | none =>
    refine ⟨fun _ => rightWhereKept_of_no_record hprevious, fun _ y => ?_⟩
    exact lists_move_forget file r.dependencySet y
  | some previous =>
    simp only [dependents_withRecord, lists_move_iff, RightWhereKept, hprevious,
      Option.some.injEq]
    exact ⟨fun h _ heq => heq ▸ h, fun h => h previous rfl⟩

end Books

namespace Workspace

/-- Asking for dependents answers a file exactly for these dependencies. -/
def ListsExactly (w : Workspace) (file : Path) (dependencies : PathSet) : Prop :=
  ∀ y, (dependentsOf y w).1.contains file = dependencies.contains y

theorem listsExactly_iff {w : Workspace} {file : Path} {dependencies : PathSet} :
    w.ListsExactly file dependencies ↔ w.current.ListsExactly file dependencies :=
  forall_congr' fun _ => Bool.eq_iff_iff

theorem listsExactly_of_commitRecord {file : Path} {r : CacheRecord} {id : CacheId}
    {w w' : Workspace} (h : commitRecord file r w = (.ok id, w')) :
    w'.ListsExactly file r.dependencySet ↔
      w.current.RightWhereKept file id r.dependencySet := by
  have hspec := commitRecord_spec file r w
  rw [h] at hspec
  rcases hspec with ⟨e, he, -⟩ | ⟨id', hid, hcurrent, -⟩
  · cases he
  · cases hid
    have hcurrent : w'.current = (w.current.assign file).put file id r := hcurrent
    rw [listsExactly_iff, hcurrent, Books.listsExactly_put_iff, Books.rightWhereKept_assign]

theorem listsExactly_of_setDependencies {file : Path} {dependencies : PathSet}
    {w w' : Workspace} (h : setDependencies file dependencies w = (.ok (), w')) :
    ∃ id, w.current.ids.get? file = some id ∧
      (w'.ListsExactly file dependencies ↔ w.current.RightWhereKept file id dependencies) := by
  rw [setDependencies_eq] at h
  cases htext : StoreError.ensureText dependencies.toList with
  | error e =>
    rw [htext] at h
    cases h
  | ok u =>
    rw [htext] at h
    cases hid : w.current.ids.get? file with
    | none =>
      rw [hid] at h
      cases h
    | some id =>
      rw [hid] at h
      cases hr : w.current.record id with
      | none =>
        simp only [hr] at h
        cases h
      | some r =>
        simp only [hr] at h
        cases h
        have hnext := dependencySet_withDependencies r w.files dependencies
        have hput :
            (w.current.put file id
              (r.withDependencies (w.files.snapshot dependencies))).ListsExactly file _ ↔
              w.current.RightWhereKept file id _ := Books.listsExactly_put_iff _
        rw [Books.put, hr] at hput
        simp only [hnext] at hput
        refine ⟨id, rfl, ?_⟩
        rw [listsExactly_iff, current_putRecord, current_moveFile, current_record?, current_ids,
          hput]

theorem exists_commitRecord_of_commit {s : Session} {file : Path} {specifiers : List String}
    {artifact : Artifact} {outcome : CommitOutcome} {w w' : Workspace}
    (h : s.commit file specifiers artifact w = (.ok outcome, w')) :
    ∃ stamp table ids id, table.value = some ids ∧ ids.get? file = some outcome.id ∧
      commitRecord file (s.recordFor w.files stamp outcome.imports)
        ((writeArtifact outcome.id artifact w).2.withIds table) = (.ok id, w') := by
  have hcourse := s.commitCourse .none file specifiers artifact w
  rw [Session.commitUnless_none, h] at hcourse
  cases hcourse with
  | @done id stamp w₁ w₂ hstamp hassign hwrite hcommit =>
    rw [writeArtifactUnless_none] at hwrite
    obtain ⟨table, ids, rfl, hvalue, hid⟩ := exists_withIds_of_assignId hassign
    rw [writeArtifact_withIds, Prod.mk.injEq] at hwrite
    obtain ⟨-, rfl⟩ := hwrite
    exact ⟨stamp, table, ids, id, hvalue, hid, hcommit⟩

/-- A commit of a session looks its previous record up once the artifact is written. -/
theorem listsExactly_of_commit {s : Session} {file : Path} {specifiers : List String}
    {artifact : Artifact} {outcome : CommitOutcome} {w w' : Workspace}
    (h : s.commit file specifiers artifact w = (.ok outcome, w')) :
    w'.ListsExactly file (.ofList outcome.imports.dependencies) ↔
      (writeArtifact outcome.id artifact w).2.current.RightWhereKept file outcome.id
        (.ofList outcome.imports.dependencies) := by
  obtain ⟨stamp, table, ids, id, hvalue, hid, hcommit⟩ := exists_commitRecord_of_commit h
  have htracked : ((writeArtifact outcome.id artifact w).2.withIds table).current.ids.get? file =
      some outcome.id := by
    simp only [current_withIds, Table.get, hvalue, hid]
  have hnext : (s.recordFor w.files stamp outcome.imports).dependencySet =
      .ofList outcome.imports.dependencies := dependencySet_withDependencies _ _ _
  have hlisted := listsExactly_of_commitRecord hcommit
  rwa [hnext, id_of_commitRecord htracked hcommit, current_withIds,
    Books.rightWhereKept_withIds] at hlisted

/-- After a commit, or after new dependencies were set, the index lists the file under exactly its
dependencies if and only if, when the previous record was looked up, it was right wherever that
record and the new dependencies agree. -/
theorem listsExactly_iff_of_ok (w : Workspace) (file : Path) :
    (∀ r id w', commitRecord file r w = (.ok id, w') →
      (w'.ListsExactly file r.dependencySet ↔
        w.current.RightWhereKept file id r.dependencySet)) ∧
    (∀ dependencies w', setDependencies file dependencies w = (.ok (), w') →
      ∃ id, w.current.ids.get? file = some id ∧
        (w'.ListsExactly file dependencies ↔ w.current.RightWhereKept file id dependencies)) ∧
    ∀ (s : Session) specifiers artifact outcome w',
      s.commit file specifiers artifact w = (.ok outcome, w') →
        (w'.ListsExactly file (.ofList outcome.imports.dependencies) ↔
          (writeArtifact outcome.id artifact w).2.current.RightWhereKept file outcome.id
            (.ofList outcome.imports.dependencies)) ∧
        (w.store.layout.Settled w.files →
          (writeArtifact outcome.id artifact w).2.current = w.current) :=
  ⟨fun _ _ _ h => listsExactly_of_commitRecord h, fun _ _ h => listsExactly_of_setDependencies h,
    fun _ _ _ _ _ h => ⟨listsExactly_of_commit h, (builds_writeArtifact _ _ w).current⟩⟩

end Workspace

namespace Sample

open Workspace

def specifiers : List String := ["./y.js"]

def script : Artifact := ⟨"f", none⟩

/-- A cache directory whose index lists a file under what it does not import, without a record. -/
def strayed : Workspace :=
  ⟨withContent tree (Layout.mk cacheDir).dependents "\x7b\"/src/g.js\":[\"/src/f.js\"]\x7d",
    (started cacheDir).store⟩

/-- A saved cache whose index was lost before it was opened again. -/
def unlisted : Workspace :=
  let saved := (started cacheDir).after [.commitRecord importer record, .save]
  (reopen Session.defaultVersion false
    { saved with files := saved.files.discard (Layout.mk cacheDir).dependents }).2

end Sample

open Sample Workspace

theorem listsExactly_of_strayed :
    (dependentsOf other strayed).1.contains importer = true ∧
    (commitRecord importer record strayed).2.ListsExactly importer record.dependencySet ∧
    (setDependencies importer (.ofList [other])
      (commitRecord importer record strayed).2).2.ListsExactly importer (.ofList [other]) ∧
    (session.commit importer specifiers script strayed).2.ListsExactly importer
      (.ofList [dependency]) := by
  have hfacts : (dependentsOf other strayed).1.contains importer = true ∧
      (commitRecord importer record strayed).1 = .ok (.forPath importer) ∧
      (setDependencies importer (.ofList [other]) (commitRecord importer record strayed).2).1 =
        .ok () ∧
      (session.commit importer specifiers script strayed).1 =
        .ok ⟨.forPath importer, ⟨[dependency], []⟩⟩ ∧
      strayed.current.record (.forPath importer) = none ∧
      (writeArtifact (.forPath importer) script strayed).2.current.record (.forPath importer) =
        none ∧
      (commitRecord importer record strayed).2.current.ids.get? importer =
        some (.forPath importer) ∧
      (commitRecord importer record strayed).2.current.record (.forPath importer) =
        some record := by
    decide +kernel
  obtain ⟨hstray, hrecord, hset, hcommit, hnone, hnone', hid, hsome⟩ := hfacts
  have hfirst := ((listsExactly_iff_of_ok strayed importer).1 record _ _
    (Prod.ext hrecord rfl)).mpr (Books.rightWhereKept_of_no_record hnone)
  obtain ⟨id, htracked, hiff⟩ := (listsExactly_iff_of_ok _ importer).2.1 (.ofList [other]) _
    (Prod.ext hset rfl)
  obtain ⟨hiff', -⟩ := (listsExactly_iff_of_ok strayed importer).2.2 session specifiers
    script _ _ (Prod.ext hcommit rfl)
  refine ⟨hstray, hfirst, hiff.mpr (Books.rightWhereKept_of_listsExactly fun previous hr => ?_),
    hiff'.mpr (Books.rightWhereKept_of_no_record hnone')⟩
  rw [hid, Option.some.injEq] at htracked
  rw [← htracked, hsome, Option.some.injEq] at hr
  exact hr ▸ listsExactly_iff.mp hfirst

/-- Where the index was lost and the record was not, a commit with the same dependencies leaves the
file out of the index. -/
theorem not_listsExactly_of_unlisted :
    record.dependencySet.contains dependency = true ∧
    ((commitRecord importer record unlisted).1.isOk = true ∧
      (dependentsOf dependency (commitRecord importer record unlisted).2).1.contains importer =
        false) ∧
    ((setDependencies importer record.dependencySet unlisted).1.isOk = true ∧
      (dependentsOf dependency
        (setDependencies importer record.dependencySet unlisted).2).1.contains importer = false) ∧
    ((session.commit importer specifiers script unlisted).1 =
        .ok ⟨.forPath importer, ⟨[dependency], []⟩⟩ ∧
      (dependentsOf dependency (session.commit importer specifiers script unlisted).2).1.contains
        importer = false) := by
  decide +kernel

end BuildCache
