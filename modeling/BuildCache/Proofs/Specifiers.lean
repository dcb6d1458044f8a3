import BuildCache.Proofs.Path.Within
import BuildCache.Proofs.ResolvedPaths

/-!
# How specifiers are spelled

A specifier counts by its kind and its segments. Slashes that are repeated or trail make no
difference, whether it is taken for a path, rewritten by an alias or looked for as a package.
-/

namespace BuildCache

open BuildCache.Path

namespace Path

variable {p q base : Path}

inductive Kind where
  | relative
  | absolute
  | bare
deriving DecidableEq

/-- What a path is taken for as a specifier. -/
def kind (p : Path) : Kind :=
  if p.Relative then .relative else if p.isAbsolute then .absolute else .bare

theorem kind_eq_relative_iff : p.kind = .relative ↔ p.Relative := by
  rw [kind]
  split
  · simp_all
  · split <;> simp_all

theorem kind_eq_absolute_iff : p.kind = .absolute ↔ p.isAbsolute = true := by
  rw [kind]
  split
  · next h => simp [h.not_isAbsolute]
  · split <;> simp_all

theorem kind_eq_bare_iff : p.kind = .bare ↔ ¬p.Relative ∧ p.isAbsolute = false := by
  rw [kind]
  split
  · simp_all
  · split <;> simp_all

theorem kind_eq_bare_iff_isDotted :
    p.kind = .bare ↔ p.isDotted = false ∧ p.isAbsolute = false := by
  rw [kind_eq_bare_iff, ← isDotted_iff, Bool.not_eq_true]

theorem kind_eq_iff :
    p.kind = q.kind ↔ (p.Relative ↔ q.Relative) ∧ p.isAbsolute = q.isAbsolute := by
  constructor
  · intro h
    rw [← kind_eq_relative_iff, ← kind_eq_relative_iff, Bool.eq_iff_iff, ← kind_eq_absolute_iff,
      ← kind_eq_absolute_iff, h]
    simp
  · rintro ⟨hrelative, habsolute⟩
    simp only [kind, hrelative, habsolute]

theorem head?_segments {n : Name} (h : (splitSlash p.bytes).head? = some n) (hn : n ≠ []) :
    p.segments.head? = some n := by
  obtain ⟨pieces, hpieces⟩ := List.head?_eq_some_iff.mp h
  rw [segments, hpieces, List.filter_cons_of_pos (by simpa using hn), List.head?_cons]

theorem startsHere_iff : p.startsHere = true ↔ p.Relative ∧ p.segments.head? = some dot := by
  rw [startsHere, beq_iff_eq]
  constructor
  · intro h
    exact ⟨isDotted_iff.mp (by simp [isDotted, h]), head?_segments h (by decide)⟩
  · rintro ⟨hrelative, hhead⟩
    have hdotted := isDotted_iff.mpr hrelative
    rw [isDotted, Bool.or_eq_true, beq_iff_eq, beq_iff_eq] at hdotted
    refine hdotted.resolve_right fun hdots => ?_
    rw [head?_segments hdots (by decide)] at hhead
    exact absurd hhead (by decide)

theorem components_congr (hkind : p.kind = q.kind) (hsegments : p.segments = q.segments) :
    p.components = q.components := by
  obtain ⟨hrelative, habsolute⟩ := kind_eq_iff.mp hkind
  have hhere : p.startsHere = q.startsHere := by
    rw [Bool.eq_iff_iff, startsHere_iff, startsHere_iff, hrelative, hsegments]
  rw [components, components, habsolute, hhere, hsegments]

theorem normalize_congr (hkind : p.kind = q.kind) (hsegments : p.segments = q.segments) :
    p.normalize = q.normalize := by
  rw [normalize, normalize, normalComponents, normalComponents, components_congr hkind hsegments]

theorem head?_splitSlash_append_slash (a b : Bytes) :
    (splitSlash (a ++ slash :: b)).head? = (splitSlash a).head? := by
  rw [splitSlash_append, List.head?_append]
  cases ha : splitSlash a with
  | nil => exact absurd ha (splitSlash_ne_nil a)
  | cons piece pieces => rfl

theorem head?_splitSlash_join (hbase : base.bytes ≠ []) (h : p.isAbsolute = false) :
    (splitSlash (base.join p).bytes).head? = (splitSlash base.bytes).head? := by
  rw [join, h, if_neg Bool.false_ne_true]
  split
  · next hends =>
    have hlast : base.endsInSlash = true := by simpa [hbase] using hends
    obtain ⟨front, hfront⟩ := List.getLast?_eq_some_iff.mp (beq_iff_eq.mp hlast)
    rw [hfront, List.append_assoc, List.singleton_append, head?_splitSlash_append_slash,
      head?_splitSlash_append_slash]
  · exact head?_splitSlash_append_slash base.bytes p.bytes

theorem kind_join (hbase : base.bytes ≠ []) (h : p.isAbsolute = false) :
    (base.join p).kind = base.kind := by
  rw [kind_eq_iff, ← isDotted_iff, ← isDotted_iff, isDotted, isDotted,
    head?_splitSlash_join hbase h, isAbsolute_join_eq, h, Bool.or_false]
  exact ⟨.rfl, rfl⟩

theorem normalize_join_congr (base : Path) (hkind : p.kind = q.kind)
    (hsegments : p.segments = q.segments) (h : p.isAbsolute = false) :
    (base.join p).normalize = (base.join q).normalize := by
  have hq : q.isAbsolute = false := (kind_eq_iff.mp hkind).2.symm.trans h
  by_cases hbase : base.bytes = []
  · have hjoin {p : Path} (h : p.isAbsolute = false) : base.join p = p := by
      simp [join, h, hbase]
    rw [hjoin h, hjoin hq]
    exact normalize_congr hkind hsegments
  · refine normalize_congr ?_ ?_
    · rw [kind_join hbase h, kind_join hbase hq]
    · rw [segments_join h, segments_join hq, hsegments]

end Path

namespace Resolver

variable {r : Resolver} {t : FileTree} {importer base p q : Path}

private theorem packagePlaces_congr (hsegments : p.segments = q.segments) :
    r.packagePlaces t importer p = r.packagePlaces t importer q := by
  rw [packagePlaces, packagePlaces, hsegments]

private theorem pointed_congr (hkind : p.kind = q.kind) (hsegments : p.segments = q.segments) :
    r.pointed t importer base p = r.pointed t importer base q := by
  obtain ⟨hrelative, habsolute⟩ := kind_eq_iff.mp hkind
  simp only [pointed, hrelative, habsolute]
  split
  · next h => rw [normalize_join_congr base hkind hsegments (hrelative.mpr h).not_isAbsolute]
  · split
    · rw [normalize_congr hkind hsegments]
    · exact packagePlaces_congr hsegments

/-- Where a specifier leads is told by its kind and its segments. -/
theorem places_congr (hkind : p.kind = q.kind) (hsegments : p.segments = q.segments) :
    r.places t importer p = r.places t importer q := by
  obtain ⟨hrelative, habsolute⟩ := kind_eq_iff.mp hkind
  have hrewrite : r.rewrite? p = r.rewrite? q := by rw [rewrite?, rewrite?, hsegments]
  simp only [places, hrelative, habsolute, hrewrite, pointed_congr hkind hsegments]

theorem toOption_resolve {s : String} :
    (r.resolve t importer s).toOption = r.resolve? t importer (ofString s) := by
  rw [resolve]
  cases r.resolve? t importer (ofString s) <;> rfl

/-- An alias target that is a path is looked for from the root, unless it is absolute. -/
theorem resolve?_of_target {specifier target : Path} (hbare : specifier.kind = .bare)
    (htarget : r.rewrite? specifier = some target) (hpath : target.kind ≠ .bare) :
    r.resolve? t importer specifier = r.resolvePath? t (r.root.join target).normalize := by
  obtain ⟨hdotted, habsolute⟩ := kind_eq_bare_iff_isDotted.mp hbare
  rw [resolve?, hdotted, habsolute, htarget]
  simp only [Bool.false_eq_true, if_false, resolveTarget?]
  split
  · next h => rw [join, if_pos h]
  · next h =>
    have hdotted : target.isDotted = true := by
      by_contra hdotted
      exact hpath (kind_eq_bare_iff_isDotted.mpr
        ⟨Bool.eq_false_iff.mpr hdotted, Bool.eq_false_iff.mpr h⟩)
    rw [if_pos hdotted]

end Resolver

open Resolver

/-- Specifiers of one kind with the same segments resolve to the same path or not at all. -/
theorem resolve_of_sameSegments (r : Resolver) (t : FileTree) (importer : Path) {s s' : String}
    (hkind : (ofString s).kind = (ofString s').kind)
    (hsegments : (ofString s).segments = (ofString s').segments) :
    (r.resolve t importer s).toOption = (r.resolve t importer s').toOption := by
  have hplaces : r.places t importer (ofString s) = r.places t importer (ofString s') :=
    places_congr hkind hsegments
  rw [toOption_resolve, toOption_resolve, resolve?_eq, resolve?_eq, hplaces]

namespace Sample

/-- Aliases whose keys and targets have slashes to spare. -/
def slashed : Resolver :=
  ⟨projectRoot, { aliases := OrderedMap.empty.insert "@app//" ".//" }⟩

end Sample

open Sample in
theorem resolve_of_slashed :
    (slashed.resolve project projectImporter "@app//lib/").toOption =
        some (.ofString "/proj/lib/index.js") ∧
      (slashed.resolve project projectImporter "@app/lib").toOption =
        some (.ofString "/proj/lib/index.js") := by
  have hkind : (ofString "@app//lib/").kind = (ofString "@app/lib").kind := by decide
  have hsegments : (ofString "@app//lib/").segments = (ofString "@app/lib").segments := by decide
  have hsame := resolve_of_sameSegments slashed project projectImporter hkind hsegments
  have hplain : (slashed.resolve project projectImporter "@app/lib").toOption =
      some (.ofString "/proj/lib/index.js") := by decide +kernel
  exact ⟨hsame.trans hplain, hplain⟩

end BuildCache
