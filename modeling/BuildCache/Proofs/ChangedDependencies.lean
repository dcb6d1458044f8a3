import BuildCache.Proofs.Freshness
import BuildCache.Proofs.Sessions
import Mathlib.Algebra.Group.Int.Defs

/-!
# Changed dependencies

A dependency is seen to have changed if its content differs, and what is kept of its time differs
too. Of a time whole milliseconds are kept, as far as 64 bits go, and none before the epoch.
-/

namespace BuildCache

open FileTree

namespace Timestamp

/-- The milliseconds that are kept of a time in nanoseconds. -/
def kept (nanoseconds : Int) : Int := max nanoseconds 0 / 1000000 % 2 ^ 64

theorem toNat_ofNanoseconds (n : Int) : ((ofNanoseconds n).toNat : Int) = kept n := by
  rw [ofNanoseconds, kept]
  split
  · next hneg => simp [Int.max_eq_right (Int.le_of_lt hneg)]
  · next hpos =>
    rw [Int.max_eq_left (Int.not_lt.mp hpos), UInt64.toNat_ofNat']
    omega

theorem ofNanoseconds_eq_iff {m n : Int} : ofNanoseconds m = ofNanoseconds n ↔ kept m = kept n := by
  rw [← UInt64.toNat_inj, ← Int.natCast_inj, toNat_ofNanoseconds, toNat_ofNanoseconds]

/-- Times from the epoch on that 64 bits can hold are kept apart. -/
theorem kept_of_nonneg {n : Int} (hn : 0 ≤ n) (hlt : n < 1000000 * 2 ^ 64) :
    kept n = n / 1000000 := by
  rw [kept]
  omega

end Timestamp

namespace FileTree

variable {t₀ t : FileTree} {p : Path}

theorem timestamp_of_modified {n : Int} (h : t.modified p = .ok n) :
    t.timestamp p = .ok (.ofNanoseconds n) := by
  rw [timestamp, h]
  rfl

theorem not_unchanged_of_kept {m₀ m : Int} (hm₀ : t₀.modified p = .ok m₀)
    (hm : t.modified p = .ok m) (htime : Timestamp.kept m ≠ Timestamp.kept m₀)
    (hcontent : t.contentHash p ≠ t₀.contentHash p) : ¬Unchanged t₀ t p := by
  rintro ⟨time, htime', hsame | ⟨hash, hhash, hhash₀⟩⟩
  · rw [timestamp_of_modified hm, ← hsame, timestamp_of_modified hm₀, Except.ok.injEq,
      Timestamp.ofNanoseconds_eq_iff] at htime'
    exact htime htime'
  · exact hcontent (hhash.trans hhash₀.symm)

theorem unchanged_of_kept {m₀ m : Int} (hm₀ : t₀.modified p = .ok m₀) (hm : t.modified p = .ok m)
    (htime : Timestamp.kept m = Timestamp.kept m₀) : Unchanged t₀ t p := by
  refine ⟨.ofNanoseconds m, timestamp_of_modified hm, .inl ?_⟩
  rw [timestamp_of_modified hm₀, Timestamp.ofNanoseconds_eq_iff.mpr htime]

end FileTree

namespace Workspace

variable {w w' : Workspace} {file : Path} {id : CacheId} {record : CacheRecord}

theorem recordOf_replaceRecord (hid : w.current.ids.get? file = some id) (t : FileTree) :
    (recordOf file { replaceRecord file id record (ids w).2 with files := t }).1 = some record := by
  have hids : (replaceRecord file id record (ids w).2).store.ids.value = some w.current.ids :=
    congrArg Table.value (ids_relist file _ _ (record? id (ids w).2).2)
  have hrecord : (replaceRecord file id record (ids w).2).store.records.loaded.get? id =
      some (some record) := by
    show OrderedMap.get? (OrderedMap.insert _ id (some record)) id = _
    rw [OrderedMap.get?_insert, if_pos Std.ReflCmp.compare_self]
  rw [fst_recordOf]
  simp only [current, Table.get, hids]
  show (w.current.ids.get? file).bind (RecordTable.get? _ t _) = _
  rw [hid, Option.bind_some, RecordTable.get?, hrecord]

end Workspace

open Workspace

/-- From a commit on its record is found, whatever becomes of the files. -/
theorem recordOf_commit {s : Session} {file : Path} {specifiers : List String} {artifact : Artifact}
    {outcome : CommitOutcome} {w w' : Workspace}
    (hcommit : s.commit file specifiers artifact w = (.ok outcome, w')) :
    ∃ stamp, w.files.stamp file = .ok stamp ∧
      outcome.imports = s.config.resolver.imports w.files file specifiers ∧
      ∀ t, (recordOf file { w' with files := t }).1 =
        some (s.recordFor w.files stamp outcome.imports) := by
  have hresult := s.commitResult file specifiers artifact w
  rw [hcommit] at hresult
  cases hresult with
  | done stamp id w₁ hstamp hbuilds hartifact hid =>
    exact ⟨stamp, hstamp, rfl, recordOf_replaceRecord hid⟩

theorem check_of_recordOf {s : Session} {file : Path} {record : CacheRecord} {w : Workspace}
    (h : (recordOf file w).1 = some record) :
    (s.check file w).1 = .ofReason? (w.files.staleReason? s.fingerprint file record) := by
  rw [fst_recordOf] at h
  obtain ⟨id, hid, hrecord⟩ := Option.bind_eq_some_iff.mp h
  rw [Session.check, check_of_tracked hid, hrecord]

theorem mem_dependencyPaths_iff {s : Session} {t : FileTree} {stamp : FileStamp} {imports : Imports}
    (hdistinct : imports.dependencies.Pairwise fun p q => q.same p = false) {p : Path} :
    p ∈ (s.recordFor t stamp imports).dependencyPaths ↔ p ∈ imports.dependencies := by
  constructor
  · intro hp
    obtain ⟨⟨q, dep⟩, he, rfl⟩ := List.mem_map.mp hp
    exact ((mem_entries_recordFor hdistinct).mp he).1
  · intro hp
    have he : (p, t.dependencyStamp p) ∈ (s.recordFor t stamp imports).dependencyMap.entries :=
      (mem_entries_recordFor hdistinct).mpr ⟨hp, rfl⟩
    exact List.mem_map_of_mem he

/-- The record of a commit is found among whatever files. While it is found, and a dependency is
there with another content, the file is stale if the time of the dependency is told apart from that
at the commit. If it is not, the content is not looked at. -/
theorem isStale_of_changed_dependency {s : Session} {file : Path} {specifiers : List String}
    {artifact : Artifact} {outcome : CommitOutcome} {w w' : Workspace}
    (hcommit : s.commit file specifiers artifact w = (.ok outcome, w')) :
    ∃ record, (∀ t, (recordOf file { w' with files := t }).1 = some record) ∧
      ∀ v, (recordOf file v).1 = some record → ∀ p ∈ record.dependencyPaths, ∀ m₀ m hash,
        w.files.modified p = .ok m₀ → v.files.modified p = .ok m →
        v.files.contentHash p = .ok hash → w.files.contentHash p ≠ .ok hash →
          (Timestamp.kept m ≠ Timestamp.kept m₀ →
            ∀ s' : Session, (s'.check file v).1.isStale = true) ∧
          (Timestamp.kept m = Timestamp.kept m₀ →
            v.files.timestamp file = w.files.timestamp file →
            v.files.contentHash file = w.files.contentHash file →
            (∀ q ∈ record.dependencyPaths, q ≠ p → Unchanged w.files v.files q) →
              (s.check file v).1 = .fresh) := by
  obtain ⟨stamp, hstamp, himports, hfound⟩ := recordOf_commit hcommit
  have hdistinct : outcome.imports.dependencies.Pairwise fun p q => q.same p = false :=
    himports ▸ Resolver.pairwise_dependencies _ _ _ _
  have hfiles : ∀ p ∈ outcome.imports.dependencies, w.files.isFile p = true :=
    himports ▸ fun p hp => Resolver.isFile_of_mem_dependencies hp
  refine ⟨_, hfound, fun v hv p hp m₀ m hash hm₀ hm hhash hother => ⟨fun htime s' => ?_, ?_⟩⟩
  · rw [mem_dependencyPaths_iff hdistinct] at hp
    rw [check_of_recordOf hv]
    cases hreason : v.files.staleReason? s'.fingerprint file
        (s.recordFor w.files stamp outcome.imports) with
    | some reason => rfl
    | none =>
      have hplugins : s'.fingerprint = s.fingerprint := by
        by_contra hne
        have hother : (s.recordFor w.files stamp outcome.imports).fingerprint ≠ s'.fingerprint :=
          Ne.symm hne
        rw [staleReason?, if_pos hother] at hreason
        contradiction
      rw [hplugins, staleReason?_recordFor hstamp hfiles hdistinct] at hreason
      have hchanged := not_unchanged_of_kept hm₀ hm htime fun heq => hother (heq ▸ hhash)
      exact absurd (hreason.2.2 p hp) hchanged
  · intro htime hmodified hcontent hrest
    have hnone : v.files.staleReason? s.fingerprint file
        (s.recordFor w.files stamp outcome.imports) = none := by
      refine (staleReason?_recordFor hstamp hfiles hdistinct).mpr ⟨hmodified, hcontent, ?_⟩
      intro q hq
      by_cases hqp : q = p
      · exact hqp ▸ unchanged_of_kept hm₀ hm htime
      · exact hrest q ((mem_dependencyPaths_iff hdistinct).mpr hq) hqp
    rw [check_of_recordOf hv, hnone]
    rfl

namespace Sample

/-- A first session, with an import from a given time. -/
def startedWith (nanoseconds : Int) : Workspace :=
  let w := started cacheDir
  { w with files := (w.files.touch dependency nanoseconds).toOption.getD w.files }

def committedWith (nanoseconds : Int) : Except StoreError CommitOutcome × Workspace :=
  session.commit importer ["./y.js"] { code := "f" } (startedWith nanoseconds)

def committed : CommitOutcome := ⟨.forPath importer, ⟨[dependency], []⟩⟩

/-- The import is written anew, at a given time. -/
def rewritten (t : FileTree) (nanoseconds : Int) : FileTree :=
  let written := withContent t dependency "new"
  (written.touch dependency nanoseconds).toOption.getD written

end Sample

open Sample in
theorem isStale_of_rewritten_import :
    (session.check importer { (committedWith 3000000000).2 with
      files := rewritten (committedWith 3000000000).2.files 5000000000 }).1.isStale = true := by
  have hfacts : (committedWith 3000000000).1.toOption = some committed ∧
      ((startedWith 3000000000).files.modified dependency).toOption = some 3000000000 ∧
      ((rewritten (committedWith 3000000000).2.files 5000000000).modified dependency).toOption =
        some 5000000000 ∧
      ((rewritten (committedWith 3000000000).2.files 5000000000).contentHash dependency).toOption =
        some (.ofBytes (Bytes.ofString "new")) ∧
      ((startedWith 3000000000).files.contentHash dependency).toOption ≠
        some (.ofBytes (Bytes.ofString "new")) ∧
      (recordOf importer (committedWith 3000000000).2).1.map CacheRecord.dependencyPaths =
        some [dependency] := by
    decide +kernel
  simp only [← eq_ok_iff_toOption, ne_eq] at hfacts
  obtain ⟨hok, hm₀, hm, hhash, hother, hlisted⟩ := hfacts
  have hcommit : session.commit importer ["./y.js"] { code := "f" } (startedWith 3000000000) =
      (.ok committed, (committedWith 3000000000).2) := Prod.ext hok rfl
  obtain ⟨record, hfound, hchange⟩ := isStale_of_changed_dependency hcommit
  have hkept : Timestamp.kept 5000000000 ≠ Timestamp.kept 3000000000 := by
    rw [Timestamp.kept_of_nonneg (by decide) (by decide),
      Timestamp.kept_of_nonneg (by decide) (by decide)]
    decide
  have hdependency : dependency ∈ record.dependencyPaths := by
    have hrecord : (recordOf importer (committedWith 3000000000).2).1 = some record := hfound _
    rw [hrecord, Option.map_some, Option.some.injEq] at hlisted
    rw [hlisted]
    exact List.mem_singleton_self dependency
  exact (hchange { (committedWith 3000000000).2 with
    files := rewritten (committedWith 3000000000).2.files 5000000000 } (hfound _) dependency
      hdependency 3000000000 5000000000 _ hm₀ hm hhash hother).1 hkept session

open Sample in
/-- Before the epoch times are not told apart, and a change of an import is missed. -/
theorem fresh_of_import_rewritten_before_epoch :
    let w := (committedWith (-5000000000)).2
    let t := rewritten w.files (-3000000000)
    (committedWith (-5000000000)).1.toOption = some committed ∧
      ((startedWith (-5000000000)).files.modified dependency).toOption = some (-5000000000) ∧
      (t.modified dependency).toOption = some (-3000000000) ∧
      ((startedWith (-5000000000)).files.contentHash dependency).toOption ≠
        (t.contentHash dependency).toOption ∧
      (session.check importer { w with files := t }).1 = .fresh := by
  decide +kernel

end BuildCache
