import BuildCache.Proofs.Resolve
import BuildCache.Proofs.Workspace.Committing
import Mathlib.Data.List.Basic

/-!
# When a record still stands

A record that a commit made stands for as long as the source has its time and content, and each
dependency its time or its content.
-/

namespace BuildCache

namespace FileTree

variable {t t' t₀ : FileTree} {p : Path}

/-- A file that can be looked at and has its old time, or can be read and has its old content. -/
def Unchanged (t₀ t : FileTree) (p : Path) : Prop :=
  ∃ m, t.timestamp p = .ok m ∧
    (t₀.timestamp p = .ok m ∨ ∃ hash, t.contentHash p = .ok hash ∧ t₀.contentHash p = .ok hash)

/-- What a check sees of a path is the same: its time and its content, as far as they can be had at
all. -/
structure SeenAlike (t t' : FileTree) (p : Path) : Prop where
  timestamp : (t'.timestamp p).toOption = (t.timestamp p).toOption
  contentHash : (t'.contentHash p).toOption = (t.contentHash p).toOption

theorem seenAlike_of_stat (h : t'.stat p = t.stat p) : SeenAlike t t' p := by
  constructor
  · rw [timestamp, timestamp, FileTree.modified, FileTree.modified, h]
  · rw [contentHash, contentHash, read, read, h]

theorem stamp_eq_ok_iff {s : FileStamp} :
    t.stamp p = .ok s ↔ t.timestamp p = .ok s.modified ∧ t.contentHash p = .ok s.hash := by
  obtain ⟨hash, modified⟩ := s
  rw [stamp]
  cases t.timestamp p with
  | error e => simp [bind, Except.bind]
  | ok m =>
    cases t.contentHash p with
    | error e => simp [bind, Except.bind]
    | ok h => simp [bind, Except.bind, pure, Except.pure, and_comm]

theorem stamp_of_isFile (h : t.isFile p = true) : ∃ s, t.stamp p = .ok s := by
  rw [isFile] at h
  split at h
  · next e he =>
    cases e with
    | directory modified => cases h
    | file content modified =>
      refine ⟨⟨.ofBytes content, .ofNanoseconds modified⟩, stamp_eq_ok_iff.mpr ⟨?_, ?_⟩⟩
      · rw [timestamp, FileTree.modified, he]
        rfl
      · rw [contentHash, read, he]
        rfl
  · contradiction

private theorem eq_or_errors {ε α : Type} {x y : Except ε α} (h : x.toOption = y.toOption) :
    x = y ∨ ∃ e e', x = .error e ∧ y = .error e' := by
  cases x with
  | error e => cases y with
    | error e' => exact .inr ⟨e, e', rfl, rfl⟩
    | ok b => cases h
  | ok a => cases y with
    | error e => cases h
    | ok b => exact .inl (congrArg Except.ok (Option.some.inj h))

theorem SeenAlike.sourceChange? (h : SeenAlike t t' p) (s : FileStamp) :
    t'.sourceChange? p s = t.sourceChange? p s := by
  rw [FileTree.sourceChange?, FileTree.sourceChange?]
  rcases eq_or_errors h.timestamp with htime | ⟨e, e', he, he'⟩
  · rcases eq_or_errors h.contentHash with hcontent | ⟨e, e', he, he'⟩
    · rw [htime, hcontent]
    · rw [htime, he, he']
  · rw [he, he']

theorem SeenAlike.dependencyChange? (h : SeenAlike t t' p) (s : DependencyStamp) :
    t'.dependencyChange? p s = t.dependencyChange? p s := by
  rw [FileTree.dependencyChange?, FileTree.dependencyChange?]
  rcases eq_or_errors h.timestamp with htime | ⟨e, e', he, he'⟩
  · rcases eq_or_errors h.contentHash with hcontent | ⟨e, e', he, he'⟩
    · rw [htime, hcontent]
    · rw [htime, he, he']
  · rw [he, he']

theorem staleReason?_of_seen {fingerprint : Fingerprint} {file : Path} {record : CacheRecord}
    (h : ∀ p ∈ file :: record.dependencyPaths, SeenAlike t t' p) :
    t'.staleReason? fingerprint file record = t.staleReason? fingerprint file record := by
  obtain ⟨hfile, hdependencies⟩ := List.forall_mem_cons.mp h
  have hchanges :
      (record.dependencyMap.entries.findSome? fun e => t'.dependencyChange? e.1 e.2) =
        record.dependencyMap.entries.findSome? fun e => t.dependencyChange? e.1 e.2 := by
    rw [← List.head?_filterMap, ← List.head?_filterMap]
    refine congrArg List.head? (List.filterMap_congr fun e he => ?_)
    exact (hdependencies e.1 (OrderedMap.mem_keys_of_mem_entries he)).dependencyChange? e.2
  rw [staleReason?, staleReason?, hfile.sourceChange?]
  exact congrArg (fun found => if record.fingerprint ≠ fingerprint then some .pluginsChanged
    else (t.sourceChange? file record.stamp).or found) hchanges

theorem staleReason?_congr {fingerprint : Fingerprint} {file : Path} {record : CacheRecord}
    (h : ∀ p ∈ file :: record.dependencyPaths,
      t'.timestamp p = t.timestamp p ∧ t'.contentHash p = t.contentHash p) :
    t'.staleReason? fingerprint file record = t.staleReason? fingerprint file record :=
  staleReason?_of_seen fun p hp => ⟨congrArg _ (h p hp).1, congrArg _ (h p hp).2⟩

theorem sourceChange?_eq_none_iff {s : FileStamp} :
    t.sourceChange? p s = none ↔
      t.timestamp p = .ok s.modified ∧ t.contentHash p = .ok s.hash := by
  rw [sourceChange?]
  cases t.timestamp p with
  | error e => simp
  | ok m =>
    by_cases hm : m = s.modified
    · cases t.contentHash p with
      | error e => simp [hm]
      | ok h => simp [hm]
    · simp [hm]

theorem dependencyChange?_eq_none_iff {s : DependencyStamp} :
    t.dependencyChange? p s = none ↔ ∃ m, t.timestamp p = .ok m ∧
      (s.modified = some m ∨ ∃ hash, t.contentHash p = .ok hash ∧ s.hash = some hash) := by
  rw [dependencyChange?]
  cases t.timestamp p with
  | error e => simp
  | ok m =>
    by_cases hm : s.modified = some m
    · simp [hm]
    · cases t.contentHash p with
      | error e => simp [hm]
      | ok h =>
        by_cases hh : s.hash = some h
        · simp [hh]
        · simp [hm, hh]

/-- Against the stamp of a file that was there, nothing has changed exactly if the file has its time
or its content. -/
theorem dependencyChange?_dependencyStamp (h : t₀.isFile p = true) :
    t.dependencyChange? p (t₀.dependencyStamp p) = none ↔ Unchanged t₀ t p := by
  obtain ⟨s, hs⟩ := stamp_of_isFile h
  obtain ⟨hmodified, hhash⟩ := stamp_eq_ok_iff.mp hs
  rw [dependencyChange?_eq_none_iff, Unchanged, dependencyStamp, hs, hmodified, hhash]
  simp only [Option.some.injEq, Except.ok.injEq]

end FileTree

open FileTree

theorem CacheRecord.entries_withDependencies (r : CacheRecord) (deps : PathMap DependencyStamp) :
    (r.withDependencies deps).dependencyMap.entries = deps.entries := by
  rw [withDependencies, dependencyMap]
  split
  · next hempty => exact (List.isEmpty_iff.mp hempty).symm
  · rfl

theorem mem_entries_recordFor {s : Session} {t : FileTree} {stamp : FileStamp} {imports : Imports}
    (hdistinct : imports.dependencies.Pairwise fun p q => q.same p = false) {p : Path}
    {dep : DependencyStamp} :
    (p, dep) ∈ (s.recordFor t stamp imports).dependencyMap.entries ↔
      p ∈ imports.dependencies ∧ dep = t.dependencyStamp p := by
  rw [Session.recordFor, CacheRecord.entries_withDependencies, snapshot, OrderedMap.map,
    ← PathSet.mem_keys_ofList hdistinct]
  constructor
  · intro he
    obtain ⟨e, hmem, heq⟩ := List.mem_map.mp he
    cases heq
    exact ⟨OrderedMap.mem_keys_of_mem_entries hmem, rfl⟩
  · rintro ⟨hmem, rfl⟩
    obtain ⟨e, he, rfl⟩ := List.mem_map.mp hmem
    exact List.mem_map.mpr ⟨e, he, rfl⟩

/-- The record of a commit stands exactly while the source is as it was and no dependency has
changed. -/
theorem staleReason?_recordFor {s : Session} {t₀ t : FileTree} {file : Path} {stamp : FileStamp}
    {imports : Imports} (hstamp : t₀.stamp file = .ok stamp)
    (hfiles : ∀ p ∈ imports.dependencies, t₀.isFile p = true)
    (hdistinct : imports.dependencies.Pairwise fun p q => q.same p = false) :
    t.staleReason? s.fingerprint file (s.recordFor t₀ stamp imports) = none ↔
      t.timestamp file = t₀.timestamp file ∧ t.contentHash file = t₀.contentHash file ∧
        ∀ p ∈ imports.dependencies, Unchanged t₀ t p := by
  obtain ⟨hmodified, hhash⟩ := stamp_eq_ok_iff.mp hstamp
  have hsource : t.sourceChange? file stamp = none ↔
      t.timestamp file = t₀.timestamp file ∧ t.contentHash file = t₀.contentHash file := by
    rw [sourceChange?_eq_none_iff, hmodified, hhash]
  have hdependencies : (∀ e ∈ (s.recordFor t₀ stamp imports).dependencyMap.entries,
      t.dependencyChange? e.1 e.2 = none) ↔ ∀ p ∈ imports.dependencies, Unchanged t₀ t p := by
    constructor
    · intro h p hp
      exact (dependencyChange?_dependencyStamp (hfiles p hp)).mp
        (h (p, t₀.dependencyStamp p) ((mem_entries_recordFor hdistinct).mpr ⟨hp, rfl⟩))
    · rintro h ⟨p, dep⟩ he
      obtain ⟨hp, rfl⟩ := (mem_entries_recordFor hdistinct).mp he
      exact (dependencyChange?_dependencyStamp (hfiles p hp)).mpr (h p hp)
  have hfingerprint : (s.recordFor t₀ stamp imports).fingerprint = s.fingerprint := rfl
  have hkept : (s.recordFor t₀ stamp imports).stamp = stamp := rfl
  rw [staleReason?, if_neg (by simp [hfingerprint]), hkept, Option.or_eq_none_iff, hsource,
    List.findSome?_eq_none_iff, ← and_assoc]
  exact and_congr_right fun _ => hdependencies

end BuildCache
