import BuildCache.Proofs.Configuration
import BuildCache.Proofs.Path.Within

/-!
# Where the cache may be

The cache directory must not hold the project. What is compared are the normal forms of both as they
are written, and not where they are for a working directory. That is the same thing if the project
root is absolute, or if both are relative and climb equally far out of the working directory. But an
absolute cache directory is taken with every relative root, also one that holds it.
-/

namespace BuildCache

open BuildCache.Path

namespace ProjectConfig

variable {c : ProjectConfig} {text : String} {root : Path}

/-- Seen from a working directory, the cache directory is the project root or one of its parents: a
location has its last name first. -/
def HoldsProject (cwd : Path) (c : ProjectConfig) : Prop :=
  (cwd.join c.cacheDir).location <:+ (cwd.join c.root).location

instance (cwd : Path) (c : ProjectConfig) : Decidable (c.HoldsProject cwd) :=
  inferInstanceAs (Decidable (_ <:+ _))

theorem isAbsolute_cacheDir (c : ProjectConfig) :
    c.cacheDir.isAbsolute = (c.root.isAbsolute || c.cache.dir.isAbsolute) :=
  isAbsolute_join_eq c.root c.cache.dir

/-- What is compared are the places that both paths lead to if they are of one kind. -/
theorem startsWith_cacheDir_iff :
    c.root.normalizeWithin.startsWith c.cacheDir.normalizeWithin = true ↔
      c.root.isAbsolute = c.cacheDir.isAbsolute ∧ c.cacheDir.location <:+ c.root.location := by
  refine startsWith_normalizeWithin ?_
  rw [isAbsolute_cacheDir]
  cases c.root.isAbsolute <;> simp

/-- From a directory that is left equally far, both paths go on in the same way. -/
theorem holdsProject_iff {cwd : Path}
    (h : c.root.isAbsolute = true ∨
      c.cacheDir.isAbsolute = false ∧ c.cacheDir.climb = c.root.climb) :
    c.HoldsProject cwd ↔ c.root.isAbsolute = c.cacheDir.isAbsolute ∧
      c.cacheDir.location <:+ c.root.location := by
  rw [HoldsProject]
  rcases h with hroot | ⟨hdir, hclimb⟩
  · have hdir : c.cacheDir.isAbsolute = true := by rw [isAbsolute_cacheDir, hroot, Bool.true_or]
    rw [join, if_pos hdir, join, if_pos hroot, hroot, hdir]
    simp
  · have hroot : c.root.isAbsolute = false := by
      rw [isAbsolute_cacheDir, Bool.or_eq_false_iff] at hdir
      exact hdir.1
    rw [location_join hdir, location_join hroot, hclimb, List.suffix_append_self_iff, hroot, hdir]
    simp

/-- A configuration with usable names is accepted just if its cache directory, as it is written, is
not the root or a parent of it. Where the root is absolute, or both are relative and climb equally
far, these are the ones that do not hold the project, whatever the working directory. -/
theorem parse_eq_ok_iff (hparse : (Toml.parse? text).bind (ofToml? root) = some c)
    (hnames : c.UsableNames) :
    (parse text root = .ok c ↔ c.cache.dir.bytes ≠ [] ∧
      (root.isAbsolute = c.cacheDir.isAbsolute → ¬c.cacheDir.location <:+ root.location)) ∧
    ∀ cwd : Path, root.isAbsolute = true ∨
        c.cacheDir.isAbsolute = false ∧ c.cacheDir.climb = root.climb →
      (parse text root = .ok c ↔ c.cache.dir.bytes ≠ [] ∧ ¬c.HoldsProject cwd) := by
  have hroot : c.root = root := by
    obtain ⟨fields, -, hc⟩ := Option.bind_eq_some_iff.mp hparse
    exact root_of_ofToml? hc
  subst hroot
  have hok : parse text c.root = .ok c ↔ c.cache.dir.bytes ≠ [] ∧
      ¬(c.root.isAbsolute = c.cacheDir.isAbsolute ∧
        c.cacheDir.location <:+ c.root.location) := by
    rw [parse_ok_iff, violation?_eq_none_iff, ← startsWith_cacheDir_iff, Bool.not_eq_true]
    exact ⟨fun h => h.2.2, fun h => ⟨hparse, hnames, h⟩⟩
  refine ⟨hok.trans (by rw [not_and]), fun cwd hcwd => ?_⟩
  rw [hok, holdsProject_iff hcwd]

/-- A cache directory next to a project whose root is relative. -/
theorem parse_eq_ok_iff_of_beside :
    ∃ c : ProjectConfig,
      (Toml.parse? "[cache]\ndir = \"../out/./cache\"\n").bind (ofToml? (.ofString "proj/app")) =
        some c ∧
      c.UsableNames ∧ c.cacheDir.isAbsolute = false ∧ c.cacheDir.climb = c.root.climb ∧
      ¬c.HoldsProject (.ofString "/home/me") ∧
      parse "[cache]\ndir = \"../out/./cache\"\n" (.ofString "proj/app") = .ok c := by
  let c : ProjectConfig :=
    { root := .ofString "proj/app", cache := { dir := .ofString "../out/./cache" } }
  have hparse : (Toml.parse? "[cache]\ndir = \"../out/./cache\"\n").bind
      (ofToml? (.ofString "proj/app")) = some c := by decide +kernel
  have hnames : c.UsableNames := ⟨by decide, by decide, by decide, by decide⟩
  have hwithin : c.cacheDir.isAbsolute = false ∧ c.cacheDir.climb = c.root.climb := by
    decide +kernel
  have hapart : c.cache.dir.bytes ≠ [] ∧ ¬c.HoldsProject (.ofString "/home/me") := by
    decide +kernel
  have hok := ((parse_eq_ok_iff hparse hnames).2 (.ofString "/home/me") (.inr hwithin)).mpr hapart
  exact ⟨c, hparse, hnames, hwithin.1, hwithin.2, hapart.2, hok⟩

/-- For a project whose root is relative, the root of the file system is accepted, which holds every
project, and a directory that only its name makes look like the project is not. -/
theorem accepted_of_holding_and_rejected_of_beside :
    (∃ c : ProjectConfig,
      (Toml.parse? "[cache]\ndir = \"/\"\n").bind (ofToml? (.ofString "proj")) = some c ∧
      c.UsableNames ∧ (∀ cwd, c.HoldsProject cwd) ∧
      (parse "[cache]\ndir = \"/\"\n" (.ofString "proj")).toOption = some c) ∧
    ∃ c : ProjectConfig,
      (Toml.parse? "[cache]\ndir = \"../../proj\"\n").bind (ofToml? (.ofString "proj")) = some c ∧
      c.UsableNames ∧ c.cache.dir.bytes ≠ [] ∧ ¬c.HoldsProject (.ofString "/home") ∧
      (parse "[cache]\ndir = \"../../proj\"\n" (.ofString "proj")).toOption = none := by
  constructor
  · refine ⟨{ root := .ofString "proj", cache := { dir := .ofString "/" } }, by decide +kernel,
      ⟨by decide, by decide, by decide, by decide⟩, fun cwd => ?_, by decide +kernel⟩
    exact List.nil_suffix
  · exact ⟨{ root := .ofString "proj", cache := { dir := .ofString "../../proj" } },
      by decide +kernel, ⟨by decide, by decide, by decide, by decide⟩, by decide, by decide +kernel,
      by decide +kernel⟩

end ProjectConfig

end BuildCache
