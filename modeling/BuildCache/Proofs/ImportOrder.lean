import BuildCache.Proofs.ChangedDependencies
import BuildCache.Proofs.FirstUses
import BuildCache.Proofs.Path.Text
import BuildCache.Proofs.Path.Within

/-!
# The order of imports

Which specifiers a file has decides what its commit records, not their order and not how often each
is repeated. Another order may give a dependency another spelling, and a spelling counts for nothing
in a record or in the reverse index.
-/

namespace BuildCache

open BuildCache.Path

namespace FileTree

variable {t : FileTree} {p q k : Path}

/-- What is known of a file does not depend on how its path is spelled. -/
theorem stat_eq_of_same (hsame : p.same q = true) (hp : t.isFile p = true)
    (hq : t.isFile q = true) : t.stat p = t.stat q := by
  have hstat {p : Path} (hp : t.isFile p = true) : t.locate p = .ok p.location := by
    rw [isFile, stat] at hp
    cases hl : t.locate p with
    | error e => simp [hl, bind, Except.bind] at hp
    | ok l => rw [location_of_locate hl]
  rw [stat, stat, hstat hp, hstat hq, location_congr (same_iff.mp hsame)]

theorem dependencyStamp_eq_of_same (hsame : p.same q = true) (hp : t.isFile p = true)
    (hq : t.isFile q = true) : t.dependencyStamp p = t.dependencyStamp q := by
  have hstat := stat_eq_of_same hsame hp hq
  simp only [dependencyStamp, stamp, timestamp, contentHash, modified, read, hstat]

variable {ps qs : PathSet}

theorem contains_snapshot (t : FileTree) (ps : PathSet) (k : Path) :
    (t.snapshot ps).contains k = ps.contains k := by
  rw [Bool.eq_iff_iff, OrderedMap.contains_iff, OrderedMap.contains_iff, snapshot,
    OrderedMap.keys_map]

theorem get?_snapshot (hps : ∀ p ∈ ps.toList, t.isFile p = true) (hk : ps.contains k = true)
    (hq : t.isFile q = true) (hkq : k.same q = true) :
    (t.snapshot ps).get? k = some (t.dependencyStamp q) := by
  obtain ⟨p, hp, hkp⟩ := PathSet.contains_iff_mem.mp hk
  have hpq : p.same q = true := same_trans (same_symm hkp) hkq
  rw [← dependencyStamp_eq_of_same hpq (hps p hp) hq]
  obtain ⟨e, he, rfl⟩ := List.mem_map.mp hp
  exact OrderedMap.get?_eq_some_iff.mpr
    ⟨e.1, List.mem_map.mpr ⟨e, he, rfl⟩, same_iff_compare.mp hkp⟩

theorem get?_snapshot_congr (hps : ∀ p ∈ ps.toList, t.isFile p = true)
    (hqs : ∀ q ∈ qs.toList, t.isFile q = true) (h : ∀ k, ps.contains k = qs.contains k) :
    (t.snapshot ps).get? = (t.snapshot qs).get? := by
  funext k
  cases hk : qs.contains k with
  | true =>
    obtain ⟨q, hq, hkq⟩ := PathSet.contains_iff_mem.mp hk
    rw [get?_snapshot hps ((h k).trans hk) (hqs q hq) hkq,
      get?_snapshot hqs hk (hqs q hq) hkq]
  | false =>
    have hnone {ps : PathSet} (hk : ps.contains k = false) : (t.snapshot ps).get? k = none := by
      rw [← contains_snapshot t] at hk
      exact Option.isSome_eq_false_iff.mp hk |> Option.isNone_iff_eq_none.mp
    rw [hnone ((h k).trans hk), hnone hk]

end FileTree

namespace Dependents

/-- The files that are listed under a dependency, in any spelling. A dependency without an entry
lists none, and is told from one with an empty entry. -/
def listing (d : Dependents) (y : Path) : Option (Path → Bool) :=
  (d.get? y).map OrderedMap.contains

variable {file y : Path}

/-- New edges give an entry to each dependency that gets one, and leave the others alone. -/
theorem listing_foldl_addEdge (d : Dependents) (file : Path) (ys : List Path) (y : Path) :
    (ys.foldl (addEdge · file) d).listing y =
      if ys.any (y.same ·) then some fun f => f.same file || (d.filesOf y).contains f
      else d.listing y := by
  induction ys generalizing d with
  | nil => rfl
  | cons z ys ih =>
    rw [List.foldl_cons, ih, List.any_cons]
    by_cases hz : y.same z = true
    · have hfiles : (d.addEdge file z).filesOf y = (d.filesOf z).add file := by
        rw [addEdge, filesOf_insert, if_pos hz]
      have hy : d.filesOf z = d.filesOf y := by
        rw [filesOf, filesOf, OrderedMap.get?_congr d (same_iff_compare.mp hz)]
      have hlisting : (d.addEdge file z).listing y =
          some fun f => f.same file || (d.filesOf y).contains f := by
        rw [listing, addEdge, OrderedMap.get?_insert, if_pos (same_iff_compare.mp hz), hy,
          Option.map_some]
        exact congrArg some (funext fun f => PathSet.contains_add (d.filesOf y) file f)
      rw [hz, Bool.true_or, if_pos rfl, hlisting, hfiles, hy]
      -- a file that is added twice is there once
      split
      · congr 1
        funext f
        rw [PathSet.contains_add]
        cases f.same file <;> simp
      · rfl
    · have hne : compare y z ≠ .eq := fun hc => hz (same_iff_compare.mpr hc)
      have hget : (d.addEdge file z).get? y = d.get? y := by
        rw [addEdge, OrderedMap.get?_insert, if_neg hne]
      rw [Bool.not_eq_true] at hz
      rw [hz, Bool.false_or, listing, hget, filesOf, hget]
      rfl

theorem listing_update_congr (d : Dependents) (file : Path) (previous : PathSet)
    {next next' : PathSet} (h : ∀ y, next.contains y = next'.contains y) (y : Path) :
    (d.update file previous next).listing y = (d.update file previous next').listing y := by
  have hremoved : previous.without next = previous.without next' := by
    simp only [PathSet.without, funext h]
  have hany (s : PathSet) : s.toList.any (y.same ·) = s.contains y := by
    rw [Bool.eq_iff_iff, List.any_eq_true, PathSet.contains_iff_mem]
  simp only [update, listing_foldl_addEdge, hremoved, hany, PathSet.contains_without, h]

end Dependents

namespace Books

variable {b : Books} {file : Path} {id : CacheId} {r r' : CacheRecord}

theorem listing_move_congr (b : Books) (file : Path) (previous : PathSet) {next next' : PathSet}
    (h : ∀ y, next.contains y = next'.contains y) (y : Path) :
    (b.move file previous next).dependents.listing y =
      (b.move file previous next').dependents.listing y := by
  have hsame : previous.sameKeys next = previous.sameKeys next' := by
    rw [Bool.eq_iff_iff, OrderedMap.sameKeys_iff, OrderedMap.sameKeys_iff]
    simp only [h]
  rw [move, move, hsame]
  split
  · rfl
  · exact Dependents.listing_update_congr b.dependents file previous h y

theorem listing_put_congr (b : Books) (file : Path) (id : CacheId)
    (h : ∀ y, r.dependencySet.contains y = r'.dependencySet.contains y) (y : Path) :
    (b.put file id r).dependents.listing y = (b.put file id r').dependents.listing y := by
  rw [put, put]
  split
  · exact listing_move_congr b file _ h y
  · exact listing_move_congr (b.forget file) file _ h y

end Books

/-- Two records say the same of a source: their stamps and plugins are equal, and of each path they
know the same stamp, however it is spelled. -/
structure CacheRecord.Alike (r r' : CacheRecord) : Prop where
  stamp : r.stamp = r'.stamp
  fingerprint : r.fingerprint = r'.fingerprint
  dependencies : r.dependencies.map OrderedMap.get? = r'.dependencies.map OrderedMap.get?

namespace Session

open Workspace

variable {s : Session} {file : Path} {specifiers specifiers' : List String} {artifact : Artifact}
  {outcome : CommitOutcome} {w w' : Workspace}

theorem isFile_of_mem_toList {r : Resolver} {t : FileTree} {p : Path}
    (h : p ∈ (PathSet.ofList (r.imports t file specifiers).dependencies).toList) :
    t.isFile p = true :=
  Resolver.isFile_of_mem_dependencies (PathSet.mem_of_mem_ofList h)

theorem contains_dependencies_congr {r : Resolver} {t : FileTree}
    (h : ∀ x, x ∈ specifiers ↔ x ∈ specifiers') (k : Path) :
    (PathSet.ofList (r.imports t file specifiers).dependencies).contains k =
      (PathSet.ofList (r.imports t file specifiers').dependencies).contains k := by
  have hsub {specifiers specifiers' : List String} (h : ∀ x, x ∈ specifiers → x ∈ specifiers')
      (hk : (PathSet.ofList (r.imports t file specifiers).dependencies).contains k = true) :
      (PathSet.ofList (r.imports t file specifiers').dependencies).contains k = true := by
    obtain ⟨p, hp, hkp⟩ := PathSet.contains_iff_mem.mp hk
    obtain ⟨q, hq, hpq⟩ :=
      Resolver.exists_same_of_mem_dependencies h (PathSet.mem_of_mem_ofList hp)
    have hdistinct := Resolver.pairwise_dependencies r t file specifiers'
    rw [PathSet.contains_iff_mem]
    exact ⟨q, (PathSet.mem_keys_ofList hdistinct).mpr hq, same_trans hkp hpq⟩
  rw [Bool.eq_iff_iff]
  exact ⟨hsub fun x => (h x).mp, hsub fun x => (h x).mpr⟩

theorem alike_recordFor (s : Session) (t : FileTree) (stamp : FileStamp)
    (h : ∀ x, x ∈ specifiers ↔ x ∈ specifiers') :
    (s.recordFor t stamp (s.config.resolver.imports t file specifiers)).Alike
      (s.recordFor t stamp (s.config.resolver.imports t file specifiers')) := by
  have hcontains (k : Path) :
      (PathSet.ofList (s.config.resolver.imports t file specifiers).dependencies).contains k =
        (PathSet.ofList (s.config.resolver.imports t file specifiers').dependencies).contains k :=
    contains_dependencies_congr h k
  have hget := FileTree.get?_snapshot_congr (t := t) (fun p => isFile_of_mem_toList)
    (fun q => isFile_of_mem_toList) hcontains
  have hempty :
      (t.snapshot (.ofList (s.config.resolver.imports t file specifiers).dependencies)).isEmpty =
        (t.snapshot
          (.ofList (s.config.resolver.imports t file specifiers').dependencies)).isEmpty := by
    rw [Bool.eq_iff_iff, OrderedMap.isEmpty_iff, OrderedMap.isEmpty_iff]
    simp only [OrderedMap.contains, hget]
  refine ⟨rfl, rfl, ?_⟩
  simp only [recordFor, CacheRecord.withDependencies, hempty]
  split
  · rfl
  · exact congrArg some hget

theorem text_dependencies_congr {r : Resolver} {t : FileTree}
    (h : ∀ x, x ∈ specifiers → x ∈ specifiers')
    (htext : ∀ p ∈ (r.imports t file specifiers').dependencies, p.text?.isSome = true) :
    ∀ p ∈ (r.imports t file specifiers).dependencies, p.text?.isSome = true := by
  intro p hp
  obtain ⟨q, hq, hsame⟩ := Resolver.exists_same_of_mem_dependencies h hp
  have hcongr := isText_congr (same_iff_compare.mp hsame)
  rw [isText_iff_text?, isText_iff_text?] at hcongr
  exact hcongr.mpr (htext q hq)

/-- A commit that succeeds found no path that is not text. -/
theorem text_of_commit (hcommit : s.commit file specifiers artifact w = (.ok outcome, w')) :
    ∀ p ∈ file :: (s.config.resolver.imports w.files file specifiers).dependencies,
      p.text?.isSome = true := by
  rw [← ensureText_eq_ok_iff]
  rw [← commitUnless_none, commitUnless_eq] at hcommit
  cases htext : StoreError.ensureText
      (file :: (s.config.resolver.imports w.files file specifiers).dependencies) with
  | ok u => rfl
  | error e =>
    simp only [htext] at hcommit
    cases hcommit

/-- What follows the resolution of the imports does not look at the specifiers: where one list is
committed, any other with text for dependencies is, up to the record. -/
theorem exists_of_commit (hcommit : s.commit file specifiers artifact w = (.ok outcome, w')) :
    ∃ stamp w₁, w' = replaceRecord file outcome.id (s.recordFor w.files stamp outcome.imports) w₁ ∧
      ∀ specifiers' imports, imports = s.config.resolver.imports w.files file specifiers' →
        (∀ p ∈ imports.dependencies, p.text?.isSome = true) →
          s.commit file specifiers' artifact w = (.ok ⟨outcome.id, imports⟩,
            replaceRecord file outcome.id (s.recordFor w.files stamp imports) w₁) := by
  have hfile := text_of_commit hcommit file List.mem_cons_self
  have hcourse := s.commitCourse .none file specifiers artifact w
  rw [commitUnless_none, hcommit] at hcourse
  cases hcourse with
  | @done id stamp w₀ w₁ hstamp hassign hwrite hrecord =>
    have hstore : w₁.store = w₀.store := by
      have hbuilds := builds_writeArtifactUnless .none id artifact w₀
      rw [hwrite] at hbuilds
      exact hbuilds.store
    refine ⟨stamp, (Workspace.ids w₁).2, rfl, ?_⟩
    rintro specifiers' imports rfl htext
    have hall : StoreError.ensureText
        (file :: (s.config.resolver.imports w.files file specifiers').dependencies) = .ok () :=
      ensureText_eq_ok_iff.mpr (List.forall_mem_cons.mpr ⟨hfile, htext⟩)
    have hcommitted := commitRecord_of_tracked (r := s.recordFor w.files stamp
        (s.config.resolver.imports w.files file specifiers'))
      (fun p hp => htext p (mem_dependencyPaths_recordFor hp))
      (tracked_of_assignId hassign hstore)
    rw [← commitUnless_none, commitUnless_eq]
    simp only [hall, hstamp, hassign, hwrite, hcommitted]

theorem files_replaceRecord (file : Path) (id : CacheId) (r : CacheRecord) (w : Workspace) :
    (replaceRecord file id r w).files = w.files := by
  have hmove (previous next : PathSet) (w : Workspace) :
      (moveFile file previous next w).2.files = w.files := by
    rw [moveFile]
    cases previous.sameKeys next <;> rfl
  have hforget (w : Workspace) : (forgetFile file w).2.files = w.files := by
    rw [forgetFile_eq]
    split <;> rfl
  show (relist file _ r.dependencySet _).files = w.files
  cases w.current.record id with
  | some previous => exact hmove _ _ _
  | none => exact (hmove _ _ _).trans (hforget _)

end Session

open Session Workspace

/-- A commit that succeeds accounts for every specifier: what resolves is a dependency at its first
use, what does not is reported at its first use, and the record has the dependencies and no others.
From the same state the same specifiers in any order, with any repetitions, are committed too. The
id and the files are then the same, and so are the record and the reverse index but for spellings. -/
theorem commit_accounts_for_imports (s : Session) (file : Path) (specifiers : List String)
    (artifact : Artifact) (w w' : Workspace) (outcome : CommitOutcome)
    (hcommit : s.commit file specifiers artifact w = (.ok outcome, w')) :
    FirstUses (s.config.resolver.resolved? w.files file) Path.same specifiers
        outcome.imports.dependencies ∧
      outcome.imports.dependencies.Pairwise (fun p q => q.same p = false) ∧
      (∃ names, outcome.imports.unresolved = names.map (⟨·, file⟩) ∧ names.Nodup ∧
        FirstUses (s.config.resolver.unresolved? w.files file) (· == ·) specifiers names) ∧
      ∃ record, (recordOf file w').1 = some record ∧
        (∀ p, p ∈ record.dependencyPaths ↔ p ∈ outcome.imports.dependencies) ∧
        ∀ specifiers', (∀ x, x ∈ specifiers ↔ x ∈ specifiers') →
          ∃ outcome' w'', s.commit file specifiers' artifact w = (.ok outcome', w'') ∧
            outcome'.id = outcome.id ∧ w''.files = w'.files ∧ (ids w'').1 = (ids w').1 ∧
            (∃ record', (recordOf file w'').1 = some record' ∧ record.Alike record') ∧
            ∀ y, (dependents w').1.listing y = (dependents w'').1.listing y := by
  obtain ⟨stamp, w₁, rfl, hagain⟩ := exists_of_commit hcommit
  obtain ⟨stamp', hstamp, himports, hfound⟩ := recordOf_commit hcommit
  have htext := text_of_commit hcommit
  have huses := s.config.resolver.firstUses_dependencies w.files file specifiers
  obtain ⟨names, hnames, hunresolved⟩ :=
    s.config.resolver.firstUses_unresolved w.files file specifiers
  rw [← himports] at huses hnames htext
  have hnodup : names.Nodup := by
    apply hunresolved.pairwise.imp
    intro name name' hne
    exact (beq_eq_false_iff_ne.mp hne).symm
  refine ⟨huses, huses.pairwise, ⟨names, hnames, hnodup, hunresolved⟩, _,
    hfound (replaceRecord file outcome.id _ w₁).files,
    fun p => mem_dependencyPaths_iff huses.pairwise, ?_⟩
  intro specifiers' hsame
  let imports' := s.config.resolver.imports w.files file specifiers'
  have htext' : ∀ p ∈ imports'.dependencies, p.text?.isSome = true := by
    apply text_dependencies_congr fun x => (hsame x).mpr
    rw [← himports]
    exact (List.forall_mem_cons.mp htext).2
  have hcommit' := hagain specifiers' imports' rfl htext'
  obtain ⟨stamp'', hstamp', -, hfound'⟩ := recordOf_commit hcommit'
  obtain rfl : stamp' = stamp'' := Except.ok.inj (hstamp.symm.trans hstamp')
  have halike : (s.recordFor w.files stamp' outcome.imports).Alike
      (s.recordFor w.files stamp' imports') := by
    rw [himports]
    exact alike_recordFor s w.files stamp' hsame
  have hset (y : Path) : (s.recordFor w.files stamp outcome.imports).dependencySet.contains y =
      (s.recordFor w.files stamp imports').dependencySet.contains y := by
    rw [recordFor, dependencySet_withDependencies, recordFor, dependencySet_withDependencies,
      himports]
    exact contains_dependencies_congr hsame y
  refine ⟨_, _, hcommit', rfl, ?_, ?_, ⟨_, hfound' (replaceRecord file outcome.id _ w₁).files,
    halike⟩, ?_⟩
  · rw [files_replaceRecord, files_replaceRecord]
  · rw [fst_ids, fst_ids, current_replaceRecord, current_replaceRecord, Books.ids_put,
      Books.ids_put]
  · intro y
    show Dependents.listing (current _).dependents y = Dependents.listing (current _).dependents y
    rw [current_replaceRecord, current_replaceRecord]
    exact Books.listing_put_congr w₁.current file outcome.id hset y

namespace Sample

/-- A project whose main files are spelled with a dot, so that a directory and the file in it
resolve to two spellings of one path. -/
def dotted : Session :=
  .ofPlugins { root := .ofString "/", resolve := { mainFiles := ["./index"] } } []

def library : Workspace :=
  let w := started cacheDir
  { w with files := withContent w.files (.ofString "/src/lib/index.js") "" }

def specified : List String := ["missing", "./lib", "./y.js", "./lib/index.js", "./y", "missing"]

def shuffled : List String := ["./lib/index.js", "missing", "./y", "./y.js", "./lib"]

def listed : Except StoreError CommitOutcome × Workspace :=
  dotted.commit importer specified { code := "f" } library

def firstSpelled : CommitOutcome :=
  ⟨.forPath importer, ⟨[.ofString "/src/lib/./index.js", dependency], [⟨"missing", importer⟩]⟩⟩

end Sample

open Sample in
theorem commit_accounts_for_shuffled_imports :
    listed.1 = .ok firstSpelled ∧
      (dotted.commit importer shuffled { code := "f" } library).1.toOption.map
          (fun outcome => outcome.imports.dependencies) =
        some [.ofString "/src/lib/index.js", dependency] ∧
      ∃ record record' outcome' w'', (recordOf importer listed.2).1 = some record ∧
        dotted.commit importer shuffled { code := "f" } library = (.ok outcome', w'') ∧
        (recordOf importer w'').1 = some record' ∧ record.Alike record' := by
  have hfacts : listed.1.toOption = some firstSpelled ∧
      (dotted.commit importer shuffled { code := "f" } library).1.toOption.map
          (fun outcome => outcome.imports.dependencies) =
        some [.ofString "/src/lib/index.js", dependency] := by
    decide +kernel
  obtain ⟨hlisted, hshuffled⟩ := hfacts
  rw [← eq_ok_iff_toOption] at hlisted
  have hsame : ∀ x, x ∈ specified ↔ x ∈ shuffled := by
    intro x
    simp only [specified, shuffled, List.mem_cons, List.not_mem_nil, or_false]
    tauto
  have hcommit : dotted.commit importer specified { code := "f" } library =
      (.ok firstSpelled, listed.2) := eq_mk_of_fst_eq hlisted
  obtain ⟨-, -, -, record, hrecord, -, hagain⟩ := commit_accounts_for_imports dotted importer
    specified { code := "f" } library listed.2 firstSpelled hcommit
  obtain ⟨outcome', w'', hcommit', -, -, -, ⟨record', hrecord', halike⟩, -⟩ := hagain shuffled hsame
  exact ⟨hlisted, hshuffled, record, record', outcome', w'', hrecord, hcommit', hrecord', halike⟩

end BuildCache
