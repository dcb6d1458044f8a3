import BuildCache.Proofs.Path.Ancestors
import BuildCache.Proofs.Specifiers
import Mathlib.Data.List.Find

/-!
# How importers are spelled

A relative specifier leads to one place from all spellings of an importer. A package is looked for
behind the ancestors of the spelling as it stands: those of a spelling that climbs lead astray, and
those of a long one are too long to be looked up where a package directory is put behind them.
Everything else is found from the normal form as it is from the spelling.
-/

namespace BuildCache

open BuildCache.Path

namespace Path

theorem importDir_normalize {importer : Path} (h : importer.isAbsolute = true)
    (hname : importer.fileName?.isSome = true) :
    importer.normalize.importDir = importer.importDir.normalize := by
  rw [importDir, parent?_normalize h hname, importDir]
  cases importer.parent? <;> rfl

private theorem isAbsolute_joinSegments {dir : Path} (h : dir.isAbsolute = true)
    (segments : List Name) : (dir.joinSegments segments).isAbsolute = true := by
  induction segments generalizing dir with
  | nil => exact h
  | cons s rest ih => exact ih (isAbsolute_join h ⟨s⟩)

private theorem location_joinSegments_congr {dir dir' : Path} (h : dir.location = dir'.location)
    (segments : List Name) :
    (dir.joinSegments segments).location = (dir'.joinSegments segments).location := by
  induction segments generalizing dir dir' with
  | nil => exact h
  | cons s rest ih => exact ih (location_join_congr h ⟨s⟩)

end Path

namespace Resolver

variable {r : Resolver} {t : FileTree} {importer specifier package dir a : Path} {entry : String}

/-- What a package directory has for a bare specifier. -/
def inPackages? (r : Resolver) (t : FileTree) (package dir : Path) : Option Path :=
  if t.isDirectory dir then r.resolvePath? t (dir.joinSegments package.segments).normalize else none

/-- What an entry's package directory has in the directory at a location. -/
def inPackagesAt? (r : Resolver) (t : FileTree) (package : Path) (entry : String) (l : Location) :
    Option Path :=
  r.inPackages? t package ((rooted l.reverse).joinString entry)

/-- What the package directories of an entry have that is looked for from a directory upward. -/
def above? (r : Resolver) (t : FileTree) (package dir : Path) (entry : String) : Option Path :=
  dir.ancestors.findSome? fun a => r.inPackages? t package (a.joinString entry)

theorem resolveModule?_eq_above? (h : package.segments ≠ []) :
    r.resolveModule? t importer package =
      r.rules.modules.findSome? fun entry =>
        if ResolveRules.isAbsoluteModule entry then r.inPackages? t package (.ofString entry)
        else r.above? t package importer.importDir entry := by
  rw [resolveModule?, if_neg (by simpa using h), ← List.head?_filterMap, List.filterMap_filter,
    packageDirs, List.filterMap_flatMap, List.head?_flatMap]
  congr 1
  funext entry
  split
  · simp [inPackages?]
  · rw [List.filterMap_map, List.head?_filterMap, above?]
    rfl

/-- The package directories of an entry that are looked at from a directory upward are short enough
to be looked up, and the first that has the package is above where the directory's spelling
leads. -/
structure Straight (r : Resolver) (t : FileTree) (package dir : Path) (entry : String) : Prop where
  short : (dir.joinString entry).bytes.length ≤ FileTree.maxPathLength
  above : ∀ a,
    dir.ancestors.find? (fun a => (r.inPackages? t package (a.joinString entry)).isSome) = some a →
      a.location <:+ dir.location

instance : Decidable (Straight r t package dir entry) :=
  decidable_of_iff ((dir.joinString entry).bytes.length ≤ FileTree.maxPathLength ∧
      ∀ a ∈ dir.ancestors.find? fun a => (r.inPackages? t package (a.joinString entry)).isSome,
        a.location <:+ dir.location)
    ⟨fun ⟨hshort, habove⟩ => ⟨hshort, habove⟩, fun h => ⟨h.short, h.above⟩⟩

theorem Straight.of_segments (h : dotDot ∉ dir.segments)
    (hshort : (dir.joinString entry).bytes.length ≤ FileTree.maxPathLength) :
    Straight r t package dir entry :=
  ⟨hshort, fun _ ha => suffix_of_mem_ancestors h (List.mem_of_find?_eq_some ha)⟩

theorem Straight.normalize (h : Straight r t package dir entry) (hdir : dir.isAbsolute = true)
    (hentry : ResolveRules.isAbsoluteModule entry = false) :
    Straight r t package dir.normalize entry := by
  have hne := bytes_ne_nil (canonical_normalize hdir).isAbsolute
  exact .of_segments (dotDot_notMem_normalize hdir)
    ((length_join_le (normalize_sublist hdir) hne hentry).trans h.short)

private theorem inPackages?_normalize (hdir : dir.isAbsolute = true)
    (hexists : t.isDirectory dir = true) (hentry : ResolveRules.isAbsoluteModule entry = false)
    (hshort : (dir.joinString entry).bytes.length ≤ FileTree.maxPathLength)
    (ha : a ∈ dir.ancestors) :
    r.inPackages? t package (a.normalize.joinString entry) =
      r.inPackages? t package (a.joinString entry) := by
  have habsolute := isAbsolute_of_mem_ancestors hdir ha
  have hsame : t.isDirectory (a.normalize.joinString entry) = t.isDirectory (a.joinString entry) :=
    FileTree.isDirectory_join_normalize hdir hexists ha hentry hshort
  have hplace : ((a.normalize.joinString entry).joinSegments package.segments).normalize =
      ((a.joinString entry).joinSegments package.segments).normalize := by
    refine normalize_of_location (isAbsolute_joinSegments ?_ _) (isAbsolute_joinSegments ?_ _)
      (location_joinSegments_congr (location_join_congr (location_normalize habsolute) _) _)
    · exact isAbsolute_join (canonical_normalize habsolute).isAbsolute _
    · exact isAbsolute_join habsolute _
  rw [inPackages?, inPackages?, hsame, hplace]

/-- What is found straight upward is in the first directory above the location that has it. -/
theorem above?_of_straight (hdir : dir.isAbsolute = true) (hexists : t.isDirectory dir = true)
    (hentry : ResolveRules.isAbsoluteModule entry = false)
    (hstraight : Straight r t package dir entry) :
    r.above? t package dir entry =
      dir.location.tails.findSome? (r.inPackagesAt? t package entry) := by
  have hfound (a : Path) (ha : a ∈ dir.ancestors) :
      r.inPackages? t package (a.joinString entry) =
        r.inPackagesAt? t package entry a.location := by
    rw [inPackagesAt?, ← normalize_of_isAbsolute (isAbsolute_of_mem_ancestors hdir ha)]
    exact (inPackages?_normalize hdir hexists hentry hstraight.short ha).symm
  have hfirst := hstraight.above
  rw [List.find?_congr fun a ha => by rw [hfound a ha]] at hfirst
  rw [above?, ← List.head?_filterMap, List.filterMap_congr hfound, List.head?_filterMap]
  exact findSome?_ancestors hdir hfirst

/-- What the package directories have for an importer in a directory at a location: those of an
absolute entry, or those in the directories above the location. -/
def resolveAbove? (r : Resolver) (t : FileTree) (package : Path) (l : Location) : Option Path :=
  r.rules.modules.findSome? fun entry =>
    if ResolveRules.isAbsoluteModule entry then r.inPackages? t package (.ofString entry)
    else l.tails.findSome? (r.inPackagesAt? t package entry)

theorem resolveModule?_of_straight (hne : package.segments ≠ [])
    (hdir : importer.importDir.isAbsolute = true)
    (hexists : t.isDirectory importer.importDir = true)
    (hstraight : ∀ entry ∈ r.rules.modules, ResolveRules.isAbsoluteModule entry = false →
      Straight r t package importer.importDir entry) :
    r.resolveModule? t importer package =
      r.resolveAbove? t package importer.importDir.location := by
  rw [resolveModule?_eq_above? hne, resolveAbove?, ← List.head?_filterMap, ← List.head?_filterMap]
  refine congrArg List.head? (List.filterMap_congr fun entry hentry => ?_)
  split
  · rfl
  · next hrelative =>
    have hrelative := Bool.eq_false_iff.mpr hrelative
    exact above?_of_straight hdir hexists hrelative (hstraight entry hentry hrelative)

/-- The bare specifier that is looked for in the package directories, if one is: the specifier
itself, or what an alias put in its place. -/
def searched? (r : Resolver) (specifier : Path) : Option Path :=
  let target := (r.rewrite? specifier).getD specifier
  if specifier.kind = .bare ∧ target.kind = .bare then some target else none

theorem resolve?_of_searched (h : r.searched? specifier = some package) :
    r.resolve? t importer specifier = r.resolveModule? t importer package := by
  rw [searched?, Option.ite_none_right_eq_some] at h
  obtain ⟨⟨hspecifier, hpackage⟩, heq⟩ := h
  obtain rfl := Option.some.inj heq
  obtain ⟨hdotted, habsolute⟩ := kind_eq_bare_iff_isDotted.mp hspecifier
  rw [resolve?, hdotted, habsolute]
  cases hrewrite : r.rewrite? specifier with
  | none => rfl
  | some target =>
    rw [hrewrite, Option.getD_some, kind_eq_bare_iff_isDotted] at hpackage
    simp [resolveTarget?, hpackage]

/-- Where nothing is searched for, an importer counts for where relative specifiers lead. -/
theorem resolve?_of_not_searched {importer' : Path} (h : r.searched? specifier = none)
    (hdir : (importer'.importDir.join specifier).normalize =
      (importer.importDir.join specifier).normalize) :
    r.resolve? t importer' specifier = r.resolve? t importer specifier := by
  by_cases hbare : specifier.kind = .bare
  · cases hrewrite : r.rewrite? specifier with
    | none => simp [searched?, hrewrite, hbare] at h
    | some target =>
      have hpath : target.kind ≠ .bare := by simpa [searched?, hrewrite, hbare] using h
      rw [resolve?_of_target hbare hrewrite hpath, resolve?_of_target hbare hrewrite hpath]
  · rw [kind_eq_bare_iff_isDotted] at hbare
    rw [resolve?, resolve?, hdir]
    split
    · rfl
    · split
      · rfl
      · simp_all

end Resolver

open Resolver

/-- From its normal form an importer's specifiers resolve as they do from its spelling, if the
directory exists and the package directories are found straight upward from how it is spelled. A
package is then looked for in the directories above where the importer stands. -/
theorem resolve_normalize (r : Resolver) (t : FileTree) {importer : Path} {specifier : String}
    (habsolute : importer.isAbsolute = true) (hname : importer.fileName?.isSome = true)
    (hexists : t.isDirectory importer.importDir = true)
    (hstraight : ∀ package, r.searched? (ofString specifier) = some package →
      ∀ entry ∈ r.rules.modules, ResolveRules.isAbsoluteModule entry = false →
        Straight r t package importer.importDir entry) :
    (r.resolve t importer.normalize specifier).toOption =
        (r.resolve t importer specifier).toOption ∧
      ∀ package, r.searched? (ofString specifier) = some package → package.segments ≠ [] →
        (r.resolve t importer specifier).toOption =
          r.resolveAbove? t package importer.importDir.location := by
  have hdir := isAbsolute_importDir habsolute
  have hnormal := importDir_normalize habsolute hname
  have hspelled (package : Path) (h : r.searched? (ofString specifier) = some package)
      (hne : package.segments ≠ []) : r.resolve? t importer (ofString specifier) =
        r.resolveAbove? t package importer.importDir.location := by
    rw [resolve?_of_searched h]
    exact resolveModule?_of_straight hne hdir hexists (hstraight package h)
  simp only [toOption_resolve]
  refine ⟨?_, hspelled⟩
  cases hsearched : r.searched? (ofString specifier) with
  | none =>
    refine resolve?_of_not_searched hsearched ?_
    rw [hnormal, ← normalize_join]
  | some package =>
    by_cases hempty : package.segments = []
    · simp [resolve?_of_searched hsearched, resolveModule?, hempty]
    · have hdir' := hnormal ▸ (canonical_normalize hdir).isAbsolute
      have hexists' := hnormal ▸ FileTree.isDirectory_normalize hdir hexists
      rw [hspelled package hsearched hempty, resolve?_of_searched hsearched,
        resolveModule?_of_straight hempty hdir' hexists' fun entry hentry hrelative =>
          hnormal ▸ (hstraight package hsearched entry hentry hrelative).normalize hdir hrelative,
        hnormal, location_normalize hdir]

namespace Sample

/-- The project with a package directory in the directory at a location. -/
def vendored (l : Location) : FileTree :=
  (project.place (.ofString "node_modules" :: l) (.directory 0)).place
    (.ofString "mod.js" :: .ofString "node_modules" :: l) (.file [] 0)

def defaults : Resolver := ⟨projectRoot, {}⟩

/-- A spelling of the importer that climbs out of a directory. -/
def climbing : Path := .ofString "/proj/lib/.././/a.js"

end Sample

open Sample in
theorem resolve_normalize_of_climbing :
    climbing.normalize = projectImporter ∧
      (defaults.resolve (vendored [.ofString "proj"]) climbing "mod").toOption =
        some (.ofString "/proj/node_modules/mod.js") ∧
      (defaults.resolve (vendored [.ofString "proj"]) climbing.normalize "mod").toOption =
        some (.ofString "/proj/node_modules/mod.js") := by
  have hstraight : ∀ package, defaults.searched? (ofString "mod") = some package →
      ∀ entry ∈ defaults.rules.modules, ResolveRules.isAbsoluteModule entry = false →
        Straight defaults (vendored [.ofString "proj"]) package climbing.importDir entry := by
    intro package hsearched
    obtain rfl : ofString "mod" = package := Option.some.inj hsearched
    decide +kernel
  have hsame := resolve_normalize defaults (vendored [.ofString "proj"]) (by decide) (by decide)
    (by decide +kernel) hstraight
  have hspelled : (defaults.resolve (vendored [.ofString "proj"]) climbing "mod").toOption =
      some (.ofString "/proj/node_modules/mod.js") := by decide +kernel
  exact ⟨by decide +kernel, hspelled, hsame.1.trans hspelled⟩

open Sample in
/-- From a spelling that climbs a package is found where the importer does not stand. -/
theorem resolve_astray_of_climbing :
    climbing.isAbsolute = true ∧ climbing.fileName?.isSome = true ∧
      (vendored [.ofString "lib", .ofString "proj"]).isDirectory climbing.importDir = true ∧
      defaults.resolve (vendored [.ofString "lib", .ofString "proj"]) climbing "mod" =
        .ok (.ofString "/proj/lib/node_modules/mod.js") ∧
      defaults.resolve (vendored [.ofString "lib", .ofString "proj"]) climbing.normalize "mod" =
        .error ⟨"mod", climbing.normalize⟩ := by
  decide +kernel

end BuildCache
