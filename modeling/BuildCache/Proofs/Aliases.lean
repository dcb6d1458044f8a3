import BuildCache.Proofs.Specifiers
import Mathlib.Data.List.Basic
import Mathlib.Data.List.Find

/-!
# What an alias is isolated from

Of the aliases that match a specifier one wins, and no other entry of the table has a say in where
the specifier leads. If the target of the winner is a path, then neither the importer has, nor the
package directories: the resolution looks at the place of the target only.
-/

namespace BuildCache

open BuildCache.Path

namespace Resolver

/-- The alias entry that wins: of the keys whose segments lead a specifier none has more, and none
that has as many comes later. -/
structure Wins (aliases : OrderedMap String String) (segments : List Name) (key value : String) :
    Prop where
  entry : (key, value) ∈ aliases.entries
  leads : (ofString key).segments <+: segments
  best : ∀ e ∈ aliases.entries, (ofString e.1).segments <+: segments →
    keyLength e.1 < keyLength key ∨ keyLength e.1 = keyLength key ∧ (compare e.1 key).isLE = true

/-- A table in which an entry is left that wins in another: the keys that the other has not got
either do not lead the specifier or are shorter. -/
structure Spares (aliases : OrderedMap String String) (segments : List Name) (key value : String)
    (aliases' : OrderedMap String String) : Prop where
  entry : (key, value) ∈ aliases'.entries
  others : ∀ e ∈ aliases'.entries, e.1 ∈ aliases.keys ∨
    ((ofString e.1).segments <+: segments → keyLength e.1 < keyLength key)

variable {r : Resolver} {aliases aliases' : OrderedMap String String} {segments : List Name}
  {key value : String} {specifier : Path}

/-- In a sorted table with a key that leads there is a winner: a last entry wins unless it does not
lead or the winner of the entries before it is longer. -/
private theorem exists_best {entries : List (String × String)}
    (hsorted : entries.Pairwise fun a b => compare a.1 b.1 = .lt)
    (h : ∃ e ∈ entries, (ofString e.1).segments <+: segments) :
    ∃ e ∈ entries, (ofString e.1).segments <+: segments ∧
      ∀ e' ∈ entries, (ofString e'.1).segments <+: segments → keyLength e'.1 < keyLength e.1 ∨
        keyLength e'.1 = keyLength e.1 ∧ (compare e'.1 e.1).isLE = true := by
  induction entries using List.reverseRecOn with
  | nil => simp at h
  | append_singleton entries last ih =>
    rw [List.pairwise_append] at hsorted
    obtain ⟨hsorted, -, hlast⟩ := hsorted
    have hbefore (e : String × String) (he : e ∈ entries) : (compare e.1 last.1).isLE = true := by
      rw [hlast e he last (List.mem_singleton_self last)]
      rfl
    simp only [List.mem_append, List.mem_singleton] at h ⊢
    by_cases hfront : ∃ e ∈ entries, (ofString e.1).segments <+: segments
    · obtain ⟨e, he, hleads, hbest⟩ := ih hsorted hfront
      by_cases hshorter : (ofString last.1).segments <+: segments → keyLength last.1 < keyLength e.1
      · refine ⟨e, .inl he, hleads, ?_⟩
        rintro e' (he' | rfl) hleads'
        · exact hbest e' he' hleads'
        · exact .inl (hshorter hleads')
      · rw [Classical.not_imp, Nat.not_lt] at hshorter
        refine ⟨last, .inr rfl, hshorter.1, ?_⟩
        rintro e' (he' | rfl) hleads'
        · have hle := hbefore e' he'
          have hlength := hbest e' he' hleads'
          grind
        · exact .inr ⟨rfl, Std.ReflCmp.isLE_rfl⟩
    · obtain ⟨e, he | rfl, hleads⟩ := h
      · exact absurd ⟨e, he, hleads⟩ hfront
      · refine ⟨e, .inr rfl, hleads, ?_⟩
        rintro e' (he' | rfl) hleads'
        · exact absurd ⟨e', he', hleads'⟩ hfront
        · exact .inr ⟨rfl, Std.ReflCmp.isLE_rfl⟩

theorem exists_wins (h : ∃ key ∈ aliases.keys, (ofString key).segments <+: segments) :
    ∃ key value, Wins aliases segments key value := by
  obtain ⟨key, hkey, hleads⟩ := h
  obtain ⟨e, he, rfl⟩ := List.mem_map.mp hkey
  obtain ⟨e', he', hleads', hbest⟩ := exists_best aliases.sorted ⟨e, he, hleads⟩
  exact ⟨e'.1, e'.2, he', hleads', hbest⟩

theorem Wins.spares (h : Wins aliases segments key value)
    (h' : Spares aliases segments key value aliases') : Wins aliases' segments key value := by
  refine ⟨h'.entry, h.leads, fun e he hleads => ?_⟩
  rcases h'.others e he with hold | hshorter
  · obtain ⟨e', he', heq⟩ := List.mem_map.mp hold
    have hbest := h.best e' he'
    rw [heq] at hbest
    exact hbest hleads
  · exact .inl (hshorter hleads)

/-- What the winner puts in the place of a specifier. A key without segments matches nothing. -/
theorem rewrite?_of_wins (h : Wins r.rules.aliases specifier.segments key value) :
    r.rewrite? specifier = if (ofString key).segments = [] then none
      else some (aliasTarget value (specifier.segments.drop (keyLength key))) := by
  split
  · next hempty =>
    refine rewrite?_eq_none_iff.mpr fun key' value' hchosen => ?_
    have hlength : keyLength key = 0 := by rw [keyLength, hempty, List.length_nil]
    have hzero : keyLength key' = 0 := by
      have hbest := h.best _ hchosen.entry hchosen.fits.leading
      simp only [hlength] at hbest
      omega
    exact hchosen.fits.named (List.length_eq_zero_iff.mp hzero)
  · next hnamed =>
    refine rewrite?_eq_some_iff.mpr ⟨key, value, ⟨h.entry, ⟨hnamed, h.leads⟩, ?_⟩,
      rewrites_iff.mpr rfl⟩
    exact fun e he hfits => h.best e he hfits.leading

def withAliases (r : Resolver) (aliases : OrderedMap String String) : Resolver :=
  { r with rules := { r.rules with aliases } }

def withModules (r : Resolver) (modules : List String) : Resolver :=
  { r with rules := { r.rules with modules } }

theorem resolve?_withAliases {t : FileTree} {importer : Path}
    (h : (r.withAliases aliases).rewrite? specifier = r.rewrite? specifier) :
    (r.withAliases aliases).resolve? t importer specifier = r.resolve? t importer specifier := by
  rw [resolve?, resolve?, h]
  rfl

/-- Nothing that a resolution can ask of a path has changed. -/
structure SameAt (t t' : FileTree) (p : Path) : Prop where
  isFile : t'.isFile p = t.isFile p
  isDirectory : t'.isDirectory p = t.isDirectory p
  readText? : t'.readText? p = t.readText? p

instance (t t' : FileTree) (p : Path) : Decidable (SameAt t t' p) :=
  decidable_of_iff (t'.isFile p = t.isFile p ∧ t'.isDirectory p = t.isDirectory p ∧
    t'.readText? p = t.readText? p) ⟨fun h => ⟨h.1, h.2.1, h.2.2⟩, fun h => ⟨h.1, h.2, h.3⟩⟩

/-- The paths that are looked at where a path is resolved. -/
def consulted (r : Resolver) (t : FileTree) (p : Path) : List Path :=
  p.joinString manifestName :: r.candidates t p

variable {t t' : FileTree} {p : Path}

theorem candidates_of_sameAt (h : ∀ q ∈ r.consulted t p, SameAt t t' q) :
    r.candidates t' p = r.candidates t p := by
  obtain ⟨hmanifest, hcandidates⟩ := List.forall_mem_cons.mp h
  have hself : p ∈ r.candidates t p := List.mem_append_left _ List.mem_cons_self
  have hdeclared : declared? t' p = declared? t p := by
    funext field
    rw [declared?, declared?, hmanifest.readText?]
  rw [candidates, candidates, (hcandidates p hself).isDirectory]
  split
  · next hdir =>
    rw [directoryCandidates, directoryCandidates, hdeclared]
    congr 2
    refine List.flatMap_congr fun entry hentry => ?_
    have hplace : (p.joinString entry).normalize ∈ r.candidates t p := by
      rw [candidates, if_pos hdir]
      refine List.mem_append_right _ (List.mem_append_left _ ?_)
      exact List.mem_flatMap.mpr
        ⟨entry, hentry, List.mem_append_left _ List.mem_cons_self⟩
    rw [entryCandidates, entryCandidates, (hcandidates _ hplace).isDirectory]
  · rfl

theorem resolvePath?_of_sameAt (h : ∀ q ∈ r.consulted t p, SameAt t t' q) :
    r.resolvePath? t' p = r.resolvePath? t p := by
  rw [resolvePath?_eq, resolvePath?_eq, candidates_of_sameAt h]
  refine List.find?_congr fun q hq => ?_
  exact (h q (List.mem_cons_of_mem _ hq)).isFile

end Resolver

open Resolver

/-- Where an alias key leads a bare specifier, one entry wins, and it is all that counts of the
table. If what it puts in the place of the specifier is a path, then the importer and the package
directories do not count either, nor any file beyond those that are looked at for that path. -/
theorem resolve_of_aliased (r : Resolver) (t : FileTree) (importer : Path) {specifier : String}
    (hbare : (ofString specifier).kind = .bare)
    (hleads : ∃ key ∈ r.rules.aliases.keys,
      (ofString key).segments <+: (ofString specifier).segments) :
    (∃ key value, Wins r.rules.aliases (ofString specifier).segments key value) ∧
      (∀ key value aliases, Wins r.rules.aliases (ofString specifier).segments key value →
        Spares r.rules.aliases (ofString specifier).segments key value aliases →
        (r.withAliases aliases).resolve t importer specifier = r.resolve t importer specifier) ∧
      ∀ target, r.rewrite? (ofString specifier) = some target → target.kind ≠ .bare →
        ∀ importer' modules t',
          (∀ q ∈ r.consulted t (r.root.join target).normalize, SameAt t t' q) →
          ((r.withModules modules).resolve t' importer' specifier).toOption =
            (r.resolve t importer specifier).toOption := by
  refine ⟨exists_wins hleads, fun key value aliases hwins hspares => ?_,
    fun target htarget hpath importer' modules t' hsame => ?_⟩
  · have hrewrite : (r.withAliases aliases).rewrite? (ofString specifier) =
        r.rewrite? (ofString specifier) := by
      rw [rewrite?_of_wins hwins, rewrite?_of_wins (hwins.spares hspares)]
    rw [resolve, resolve, resolve?_withAliases hrewrite]
  · have hthere : (r.withModules modules).resolve? t' importer' (ofString specifier) =
        r.resolvePath? t' (r.root.join target).normalize :=
      resolve?_of_target hbare htarget hpath
    rw [toOption_resolve, toOption_resolve, hthere, resolve?_of_target hbare htarget hpath,
      resolvePath?_of_sameAt hsame]

namespace Sample

/-- Keys of one spelling but for slashes, one of them without segments. -/
def aliased : Resolver :=
  ⟨projectRoot, { aliases := .ofList [("/", "./x.d"), ("app", "./x.d"), ("app/", "./")] }⟩

/-- The project with a package directory that holds a file by the name of the alias. -/
def packaged : FileTree :=
  (project.place [.ofString "node_modules", .ofString "proj"] (.directory 0)).place
    [.ofString "app", .ofString "node_modules", .ofString "proj"] (.file [] 0)

end Sample

open Sample in
theorem resolve_of_aliased_app :
    Wins aliased.rules.aliases (ofString "app/lib").segments "app/" "./" ∧
      (aliased.withAliases (OrderedMap.empty.insert "app/" "./")).resolve project projectImporter
        "app/lib" = .ok (.ofString "/proj/lib/index.js") ∧
      ((aliased.withModules []).resolve packaged (.ofString "/b.js") "app/lib").toOption =
        some (.ofString "/proj/lib/index.js") := by
  have hbare : (ofString "app/lib").kind = .bare := by decide
  have hleads : ∃ key ∈ aliased.rules.aliases.keys,
      (ofString key).segments <+: (ofString "app/lib").segments := by decide
  have hwins : Wins aliased.rules.aliases (ofString "app/lib").segments "app/" "./" :=
    ⟨by decide, by decide, by decide⟩
  have hspares : Spares aliased.rules.aliases (ofString "app/lib").segments "app/" "./"
      (OrderedMap.empty.insert "app/" "./") := ⟨by decide, by decide⟩
  have hresolve : aliased.resolve project projectImporter "app/lib" =
      .ok (.ofString "/proj/lib/index.js") := rfl
  obtain ⟨-, htable, hplace⟩ := resolve_of_aliased aliased project projectImporter hbare hleads
  refine ⟨hwins, (htable _ _ _ hwins hspares).trans hresolve, ?_⟩
  have hsame : ∀ q ∈ aliased.consulted project (projectRoot.join (.ofString "./lib")).normalize,
      SameAt project packaged q := by decide +kernel
  have htarget : aliased.rewrite? (ofString "app/lib") = some (.ofString "./lib") := by decide
  rw [hplace _ htarget (by decide) (.ofString "/b.js") [] packaged hsame, hresolve]
  rfl

end BuildCache
