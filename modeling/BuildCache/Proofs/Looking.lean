import BuildCache.Proofs.Candidates
import BuildCache.Proofs.FileTree.Lacking
import BuildCache.Proofs.Freshness
import BuildCache.Proofs.Resolve

/-!
# What a cache looks at

Stamps, checks and sweeps look at single paths, and where these do not lead to what a tree lacks, or
through it, they see the same. A resolution takes the first file of many candidates. These are the
same where no manifest is lacking, so it ends the same way unless at a file that is lacking.
-/

namespace BuildCache

open FileTree BuildCache.Path

namespace FileTree

variable {gone loose : Location → Prop} {t t' : FileTree} {l : Location} {p : Path}

/-- What a path finds in two trees: the same, a directory with another time, nothing for whatever
reason, or a file that the second tree lacks. -/
inductive Sees (gone : Prop) : Except FileError Entry → Except FileError Entry → Prop where
  | same (x : Except FileError Entry) : Sees gone x x
  | stamped (modified modified' : Int) :
    Sees gone (.ok (.directory modified)) (.ok (.directory modified'))
  | absent (e e' : FileError) : Sees gone (.error e) (.error e')
  | gone (h : gone) (content : Bytes) (modified : Int) (e : FileError) :
    Sees gone (.ok (.file content modified)) (.error e)

namespace Lacks

/-- Names lead to the same place in both trees, or they come upon something that is lacking and find
nothing in the second. -/
theorem walk_or (h : Lacks gone loose t t') (names : List Name) (l : Location) :
    t'.walk l names = t.walk l names ∨
      (∃ e, t'.walk l names = .error e) ∧ ∀ k, t.walk l names = .ok k → Gone t t' k := by
  have hlacking : Lacks (Gone t t') loose t t' := h.of_forall fun _ => id
  induction names generalizing l with
  | nil => exact .inl rfl
  | cons n names ih =>
    rw [FileTree.walk, FileTree.walk, h.isDirectoryAt]
    split
    · exact .inl rfl
    · split
      · exact ih l
      · split
        · exact ih l.tail
        · split
          · exact .inl rfl
          · by_cases hgone : Gone t t' (n :: l)
            · obtain ⟨hsome, hnone⟩ := hgone
              obtain ⟨c, hc⟩ := Option.isSome_iff_exists.mp (h.isSome_contentAt ⟨hsome, hnone⟩)
              have hfile := isDirectoryAt_eq_false_of_contentAt hc
              refine .inr ⟨⟨.notFound, by rw [hnone]; rfl⟩, fun k hk => ?_⟩
              rw [if_neg (by simp [← Option.not_isSome, hsome])] at hk
              cases names with
              | nil =>
                cases hk
                exact ⟨hsome, hnone⟩
              | cons m names => simp [FileTree.walk, hfile] at hk
            · have hsame := hlacking.isSome_entry hgone
              rw [← Option.not_isSome, ← Option.not_isSome, hsame]
              split
              · exact .inl rfl
              · exact ih (n :: l)

theorem sees (h : Lacks gone loose t t') (p : Path) :
    Sees (Gone t t' p.location) (t.stat p) (t'.stat p) := by
  rw [FileTree.stat, FileTree.stat, FileTree.locate, FileTree.locate]
  cases checkSpelling p with
  | error e => exact .same _
  | ok u =>
    simp only [bind, Except.bind]
    rcases h.walk_or p.segments [] with hwalk | ⟨⟨e', hwalk'⟩, hwalk⟩
    · rw [hwalk]
      cases hl : t.walk [] p.segments with
      | error e => exact .same _
      | ok l =>
        obtain rfl : l = p.location := eq_follow_of_walk hl
        cases hslash : p.endsInSlash && !t.isDirectoryAt p.location with
        | true =>
          simp only [h.isDirectoryAt, hslash, if_true]
          exact .same _
        | false =>
          have hlacking : Lacks (Gone t t') loose t t' := h.of_forall fun _ => id
          have he := hlacking.entry p.location
          simp only [h.isDirectoryAt, hslash, Bool.false_eq_true, if_false]
          generalize t.entry? p.location = e? at he
          generalize t'.entry? p.location = e?' at he
          cases he with
          | same => exact .same _
          | stamped _ m m' => exact .stamped m m'
          | gone hgone c m => exact .gone hgone c m .notFound
    · rw [hwalk']
      cases hl : t.walk [] p.segments with
      | error e => exact .absent e e'
      | ok l =>
        obtain rfl : l = p.location := eq_follow_of_walk hl
        have hgone := hwalk _ hl
        obtain ⟨c, hc⟩ := Option.isSome_iff_exists.mp (h.isSome_contentAt hgone)
        obtain ⟨modified, hfile⟩ := exists_file_of_contentAt hc
        cases hslash : p.endsInSlash && !t.isDirectoryAt p.location with
        | true =>
          simp only [hslash, if_true]
          exact .absent _ e'
        | false =>
          simp only [hslash, Bool.false_eq_true, if_false, hfile]
          exact .gone hgone c modified e'

theorem isDirectory_eq (h : Lacks gone loose t t') (p : Path) :
    t'.isDirectory p = t.isDirectory p := by
  have hsees := h.sees p
  rw [FileTree.isDirectory, FileTree.isDirectory]
  generalize t.stat p = x at hsees
  generalize t'.stat p = x' at hsees
  cases hsees <;> rfl

theorem isFile_or (h : Lacks gone loose t t') (p : Path) :
    t'.isFile p = t.isFile p ∨ t.isFile p = true ∧ Gone t t' p.location := by
  have hsees := h.sees p
  rw [FileTree.isFile, FileTree.isFile]
  generalize t.stat p = x at hsees
  generalize t'.stat p = x' at hsees
  cases hsees with
  | gone hgone => exact .inr ⟨rfl, hgone⟩
  | _ => exact .inl rfl

theorem readText?_eq (h : Lacks gone loose t t') (hp : ¬Gone t t' p.location) :
    t'.readText? p = t.readText? p := by
  have hsees := h.sees p
  rw [FileTree.readText?, FileTree.readText?, FileTree.read, FileTree.read]
  generalize t.stat p = x at hsees
  generalize t'.stat p = x' at hsees
  cases hsees with
  | gone hgone => exact absurd hgone hp
  | _ => rfl

theorem timestamp (h : Lacks gone loose t t') (hp : Avoids p.segments gone)
    (hloose : ¬loose p.location) : t'.timestamp p = t.timestamp p := by
  have hstat : t'.stat p = t.stat p := (h.stat hp).resolve_right fun hdir => hloose hdir.1
  rw [FileTree.timestamp, FileTree.timestamp, FileTree.modified, FileTree.modified, hstat]

theorem contentHash (h : Lacks gone loose t t') (hp : Avoids p.segments gone) :
    t'.contentHash p = t.contentHash p := by
  rw [FileTree.contentHash, FileTree.contentHash, h.read hp]

/-- A path that leads neither to what is lacking nor to a directory that may have another time is
seen alike, also where it leads through what is lacking and finds nothing. -/
theorem seenAlike (h : Lacks gone loose t t') (hp : ¬Gone t t' p.location)
    (hloose : ¬loose p.location) : SeenAlike t t' p := by
  have hsees := h.sees p
  generalize hstat : t.stat p = x at hsees
  generalize hstat' : t'.stat p = x' at hsees
  cases hsees with
  | same => exact seenAlike_of_stat (hstat'.trans hstat.symm)
  | absent e e' =>
    constructor
    · rw [FileTree.timestamp, FileTree.timestamp, FileTree.modified, FileTree.modified, hstat,
        hstat']
      rfl
    · rw [FileTree.contentHash, FileTree.contentHash, FileTree.read, FileTree.read, hstat, hstat']
      rfl
  | gone hgone => exact absurd hgone hp
  | stamped m m' =>
    have he := h.entry p.location
    rw [entry?_of_stat hstat, entry?_of_stat hstat'] at he
    cases he with
    | same => exact seenAlike_of_stat (hstat'.trans hstat.symm)
    | stamped hlocation => exact absurd hlocation hloose

/-- The time of a directory makes no difference to a stamp, for it has no content. -/
theorem stamp (h : Lacks gone loose t t') (hp : Avoids p.segments gone) :
    t'.stamp p = t.stamp p := by
  have hhash := h.contentHash hp
  rw [FileTree.stamp, FileTree.stamp, hhash, FileTree.timestamp, FileTree.timestamp,
    FileTree.modified, FileTree.modified]
  rcases h.stat hp with hstat | ⟨-, m, m', hstat, hstat'⟩
  · rw [hstat]
  · have hread : t.contentHash p = .error .isDirectory := by
      rw [FileTree.contentHash, FileTree.read, hstat]
      rfl
    rw [hstat, hstat', hread]
    rfl

theorem snapshot (h : Lacks gone loose t t') {ps : PathSet}
    (hps : ∀ p ∈ ps.toList, Avoids p.segments gone) : t'.snapshot ps = t.snapshot ps := by
  refine OrderedMap.ext_entries (List.map_congr_left fun e he => ?_)
  have hstamp : t'.dependencyStamp e.1 = t.dependencyStamp e.1 := by
    rw [FileTree.dependencyStamp, FileTree.dependencyStamp,
      h.stamp (hps e.1 (OrderedMap.mem_keys_of_mem_entries he))]
  exact congrArg (e.1, ·) hstamp

theorem isMissing (h : Lacks gone loose t t') (hp : Avoids p.segments gone) :
    t'.isMissing p = t.isMissing p := by
  rw [FileTree.isMissing, FileTree.isMissing, h.exists? hp]

theorem staleReason? (h : Lacks gone loose t t') (fingerprint : Fingerprint) {file : Path}
    {record : CacheRecord} (hps : ∀ p ∈ file :: record.dependencyPaths,
      Avoids p.segments gone ∧ ¬loose p.location) :
    t'.staleReason? fingerprint file record = t.staleReason? fingerprint file record :=
  staleReason?_congr fun p hp =>
    ⟨h.timestamp (hps p hp).1 (hps p hp).2, h.contentHash (hps p hp).1⟩

end Lacks

end FileTree

namespace Resolver

variable {gone loose : Location → Prop} {t t' : FileTree} {importer specifier p : Path}

private theorem declared?_eq (h : Lacks gone loose t t')
    (hmanifest : ¬Gone t t' (p.joinString manifestName).location) :
    declared? t' p = declared? t p := by
  funext field
  rw [declared?, declared?, h.readText?_eq hmanifest]

theorem candidates_eq (r : Resolver) (h : Lacks gone loose t t')
    (hmanifest : ¬Gone t t' (p.joinString manifestName).location) :
    r.candidates t' p = r.candidates t p := by
  have hentry (entry : Path) : r.entryCandidates t' entry = r.entryCandidates t entry := by
    rw [entryCandidates, entryCandidates, h.isDirectory_eq]
  simp only [candidates, directoryCandidates, h.isDirectory_eq, declared?_eq h hmanifest, hentry]

theorem places_eq (r : Resolver) (h : Lacks gone loose t t') (importer specifier : Path) :
    r.places t' importer specifier = r.places t importer specifier := by
  have hdirs : t'.isDirectory = t.isDirectory := funext h.isDirectory_eq
  have hpackages (specifier : Path) :
      r.packagePlaces t' importer specifier = r.packagePlaces t importer specifier := by
    rw [packagePlaces, packagePlaces, hdirs]
  have hpointed (base specifier : Path) :
      r.pointed t' importer base specifier = r.pointed t importer base specifier := by
    rw [pointed, pointed, hpackages]
  simp only [places, hpointed]

private theorem find?_or (h : Lacks gone loose t t') (ps : List Path) :
    ps.find? t'.isFile = ps.find? t.isFile ∨
      ∃ q, ps.find? t.isFile = some q ∧ Gone t t' q.location := by
  induction ps with
  | nil => exact .inl rfl
  | cons p ps ih =>
    rw [List.find?_cons, List.find?_cons]
    rcases h.isFile_or p with heq | ⟨htrue, hgone⟩
    · rw [heq]
      cases t.isFile p with
      | true => exact .inl rfl
      | false => exact ih
    · rw [htrue]
      exact .inr ⟨p, rfl, hgone⟩

/-- A specifier resolves to the same, unless to a file that is lacking. -/
theorem resolve?_or (r : Resolver) (h : Lacks gone loose t t')
    (hmanifests : ∀ p ∈ r.places t importer specifier,
      ¬Gone t t' (p.joinString manifestName).location) :
    r.resolve? t' importer specifier = r.resolve? t importer specifier ∨
      ∃ q, r.resolve? t importer specifier = some q ∧ Gone t t' q.location := by
  have hcandidates : (r.places t importer specifier).flatMap (r.candidates t') =
      (r.places t importer specifier).flatMap (r.candidates t) :=
    List.flatMap_congr fun p hp => r.candidates_eq h (hmanifests p hp)
  rw [resolve?_eq, resolve?_eq, r.places_eq h, hcandidates]
  exact find?_or h _

/-- The files that the specifiers of an importer resolve to. -/
def targets (r : Resolver) (t : FileTree) (importer : Path) (specifiers : List String) :
    List Path :=
  specifiers.filterMap fun specifier => r.resolve? t importer (.ofString specifier)

theorem mem_targets_of_mem_dependencies {r : Resolver} {importer p : Path}
    {specifiers : List String} (h : p ∈ (r.imports t importer specifiers).dependencies) :
    p ∈ r.targets t importer specifiers := by
  obtain ⟨specifier, hspecifier, hresolve⟩ := exists_of_mem_dependencies h
  refine List.mem_filterMap.mpr ⟨specifier, hspecifier, ?_⟩
  rw [resolve] at hresolve
  split at hresolve
  · next q hq =>
    cases hresolve
    exact hq
  · cases hresolve

/-- The places whose manifests may be read where the specifiers of an importer are resolved. -/
def searched (r : Resolver) (t : FileTree) (importer : Path) (specifiers : List String) :
    List Path :=
  specifiers.flatMap fun specifier => r.places t importer (.ofString specifier)

theorem imports_eq (r : Resolver) (h : Lacks gone loose t t') {importer : Path}
    {specifiers : List String}
    (hmanifests : ∀ p ∈ r.searched t importer specifiers,
      ¬Gone t t' (p.joinString manifestName).location)
    (htargets : ∀ p ∈ r.targets t importer specifiers, ¬Gone t t' p.location) :
    r.imports t' importer specifiers = r.imports t importer specifiers := by
  have hresolve : specifiers.eraseDups.map (r.resolve t' importer) =
      specifiers.eraseDups.map (r.resolve t importer) := by
    refine List.map_congr_left fun specifier hspecifier => ?_
    have hmem := List.mem_eraseDups.mp hspecifier
    have hsame : r.resolve? t' importer (.ofString specifier) =
        r.resolve? t importer (.ofString specifier) := by
      refine (r.resolve?_or h fun p hp => hmanifests p ?_).resolve_right ?_
      · exact List.mem_flatMap.mpr ⟨specifier, hmem, hp⟩
      · rintro ⟨q, hq, hgone⟩
        exact htargets q (List.mem_filterMap.mpr ⟨specifier, hmem, hq⟩) hgone
    rw [resolve, resolve, hsame]
  rw [imports, imports, hresolve]

end Resolver

end BuildCache
