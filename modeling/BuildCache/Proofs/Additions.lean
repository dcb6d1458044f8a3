import BuildCache.Proofs.FileTree.Growth
import BuildCache.Proofs.ResolvedPaths

/-!
# Imports that stay resolved

Whatever an import may stand for, it may still stand for when files, directories or entries of the
rules are added. What is new may come first and divert the search, but the search goes on until it
comes upon a file, and the old one is there.
-/

namespace BuildCache

open FileTree BuildCache.Path

/-- Rules that have every entry of the first ones, wherever it stands, and the same aliases. -/
structure ResolveRules.PartOf (rules rules' : ResolveRules) : Prop where
  extensions : rules.extensions ⊆ rules'.extensions
  aliases : rules'.aliases = rules.aliases
  modules : rules.modules ⊆ rules'.modules
  mainFiles : rules.mainFiles ⊆ rules'.mainFiles
  mainFields : rules.mainFields ⊆ rules'.mainFields

namespace Resolver

variable {root importer specifier p q : Path} {rules rules' : ResolveRules} {t t' : FileTree}

private theorem mem_fileCandidates (hrules : rules.PartOf rules')
    (hq : q ∈ fileCandidates ⟨root, rules⟩ p) : q ∈ fileCandidates ⟨root, rules'⟩ p :=
  List.cons_subset_cons p (List.map_subset p.withSuffix hrules.extensions) hq

private theorem mem_mainCandidates (hrules : rules.PartOf rules')
    (hq : q ∈ mainCandidates ⟨root, rules⟩ p) : q ∈ mainCandidates ⟨root, rules'⟩ p := by
  obtain ⟨name, hname, hq⟩ := List.mem_flatMap.mp hq
  exact List.mem_flatMap.mpr ⟨name, hrules.mainFiles hname, mem_fileCandidates hrules hq⟩

private theorem mem_ite_isDirectory {ps ps' : List Path} (ht : t.PartOf t') (hps : q ∈ ps → q ∈ ps')
    (hq : q ∈ if t.isDirectory p then ps else []) : q ∈ if t'.isDirectory p then ps' else [] := by
  split at hq
  · next hdir =>
    rw [if_pos (ht.isDirectory hdir)]
    exact hps hq
  · contradiction

private theorem mem_entryCandidates (ht : t.PartOf t') (hrules : rules.PartOf rules')
    (hq : q ∈ entryCandidates ⟨root, rules⟩ t p) : q ∈ entryCandidates ⟨root, rules'⟩ t' p := by
  refine List.mem_append.mpr ((List.mem_append.mp hq).imp (mem_fileCandidates hrules) ?_)
  exact mem_ite_isDirectory ht (mem_mainCandidates hrules)

private theorem declared?_of_partOf {field entry : String} (ht : t.PartOf t')
    (h : declared? t p field = some entry) : declared? t' p field = some entry := by
  rw [declared?] at h ⊢
  cases htext : t.readText? (p.joinString manifestName) with
  | none => simp [htext] at h
  | some text =>
    rw [htext] at h
    rw [ht.readText? htext]
    exact h

private theorem mem_directoryCandidates (ht : t.PartOf t') (hrules : rules.PartOf rules')
    (hq : q ∈ directoryCandidates ⟨root, rules⟩ t p) :
    q ∈ directoryCandidates ⟨root, rules'⟩ t' p := by
  refine List.mem_append.mpr
    ((List.mem_append.mp hq).imp (fun hq => ?_) (mem_mainCandidates hrules))
  obtain ⟨entry, hentry, hq⟩ := List.mem_flatMap.mp hq
  obtain ⟨field, hfield, hentry⟩ := List.mem_filterMap.mp hentry
  refine List.mem_flatMap.mpr ⟨entry, ?_, mem_entryCandidates ht hrules hq⟩
  exact List.mem_filterMap.mpr
    ⟨field, hrules.mainFields hfield, declared?_of_partOf ht hentry⟩

theorem mem_candidates_of_partOf (ht : t.PartOf t') (hrules : rules.PartOf rules')
    (hq : q ∈ candidates ⟨root, rules⟩ t p) : q ∈ candidates ⟨root, rules'⟩ t' p := by
  refine List.mem_append.mpr ((List.mem_append.mp hq).imp (mem_fileCandidates hrules) ?_)
  exact mem_ite_isDirectory ht (mem_directoryCandidates ht hrules)

private theorem mem_packagePlaces (ht : t.PartOf t') (hrules : rules.PartOf rules')
    (hp : p ∈ packagePlaces ⟨root, rules⟩ t importer specifier) :
    p ∈ packagePlaces ⟨root, rules'⟩ t' importer specifier := by
  rw [packagePlaces] at hp ⊢
  split at hp
  · contradiction
  · next hne =>
    rw [if_neg hne]
    obtain ⟨entry, hentry, hp⟩ := List.mem_flatMap.mp hp
    obtain ⟨dir, hdir, rfl⟩ := List.mem_map.mp hp
    obtain ⟨hmem, hdir⟩ := List.mem_filter.mp hdir
    exact List.mem_flatMap.mpr ⟨entry, hrules.modules hentry,
      List.mem_map.mpr ⟨dir, List.mem_filter.mpr ⟨hmem, ht.isDirectory hdir⟩, rfl⟩⟩

private theorem mem_pointed {base : Path} (ht : t.PartOf t') (hrules : rules.PartOf rules')
    (hp : p ∈ pointed ⟨root, rules⟩ t importer base specifier) :
    p ∈ pointed ⟨root, rules'⟩ t' importer base specifier := by
  rw [pointed] at hp ⊢
  split at hp
  · next h => rwa [if_pos h]
  · next h =>
    split at hp
    · next habsolute => rwa [if_neg h, if_pos habsolute]
    · next habsolute =>
      rw [if_neg h, if_neg habsolute]
      exact mem_packagePlaces ht hrules hp

theorem mem_places_of_partOf (ht : t.PartOf t') (hrules : rules.PartOf rules')
    (hp : p ∈ places ⟨root, rules⟩ t importer specifier) :
    p ∈ places ⟨root, rules'⟩ t' importer specifier := by
  have hrewrite : rewrite? ⟨root, rules'⟩ specifier = rewrite? ⟨root, rules⟩ specifier := by
    rw [rewrite?, rewrite?, hrules.aliases]
  rw [places] at hp ⊢
  rw [hrewrite]
  split at hp
  · next h =>
    rw [if_pos h]
    exact mem_pointed ht hrules hp
  · next h =>
    rw [if_neg h]
    split at hp
    · exact mem_pointed ht hrules hp
    · exact mem_pointed ht hrules hp

/-- An import resolves if and only if one of its candidates is a file. -/
theorem exists_resolve_iff {r : Resolver} {specifier : String} :
    (∃ p, r.resolve t importer specifier = .ok p) ↔
      ∃ p ∈ r.places t importer (.ofString specifier), ∃ q ∈ r.candidates t p,
        t.isFile q = true := by
  have hsome : (∃ p, r.resolve t importer specifier = .ok p) ↔
      (r.resolve? t importer (.ofString specifier)).isSome = true := by
    rw [resolve]
    cases r.resolve? t importer (.ofString specifier) <;> simp
  rw [hsome, resolve?_eq, List.find?_isSome]
  constructor
  · rintro ⟨q, hq, hfile⟩
    obtain ⟨p, hp, hq⟩ := List.mem_flatMap.mp hq
    exact ⟨p, hp, q, hq, hfile⟩
  · rintro ⟨p, hp, q, hq, hfile⟩
    exact ⟨q, List.mem_flatMap.mpr ⟨p, hp, hq⟩, hfile⟩

end Resolver

open Resolver

/-- Adding files and directories, or entries to the rules, does not make an import fail. -/
theorem exists_resolve_of_partOf {root importer p : Path} {rules rules' : ResolveRules}
    {t t' : FileTree} {specifier : String} (ht : t.PartOf t') (hrules : rules.PartOf rules')
    (h : resolve ⟨root, rules⟩ t importer specifier = .ok p) :
    ∃ q, resolve ⟨root, rules'⟩ t' importer specifier = .ok q := by
  obtain ⟨place, hplace, q, hq, hfile⟩ := exists_resolve_iff.mp ⟨p, h⟩
  exact exists_resolve_iff.mpr ⟨place, mem_places_of_partOf ht hrules hplace, q,
    mem_candidates_of_partOf ht hrules hq, ht.isFile hfile⟩

namespace Sample

/-- The project with a file beside the directory `lib`. -/
def grown : FileTree := project.place [.ofString "lib.ts", .ofString "proj"] (.file [] 0)

def rules : ResolveRules := { extensions := [".js"] }

def moreRules : ResolveRules :=
  { extensions := [".js", ".ts"], modules := ["node_modules", "/vendor"],
    mainFiles := ["index", "main"], mainFields := ["module", "main", "browser"] }

end Sample

open Sample in
/-- A new file and a new extension for it lead an import elsewhere. -/
theorem exists_resolve_of_grown :
    resolve ⟨projectRoot, rules⟩ project projectImporter "./lib" =
        .ok (.ofString "/proj/lib/index.js") ∧
      (∃ q, resolve ⟨projectRoot, moreRules⟩ grown projectImporter "./lib" = .ok q) ∧
      (resolve ⟨projectRoot, moreRules⟩ grown projectImporter "./lib").toOption =
        some (.ofString "/proj/lib.ts") := by
  have htree : project.PartOf grown := partOf_place rfl
  have hrules : rules.PartOf moreRules := ⟨by decide, rfl, by decide, by decide, by decide⟩
  have hfirst : resolve ⟨projectRoot, rules⟩ project projectImporter "./lib" =
      .ok (.ofString "/proj/lib/index.js") := rfl
  exact ⟨hfirst, exists_resolve_of_partOf htree hrules hfirst, by decide +kernel⟩

end BuildCache
