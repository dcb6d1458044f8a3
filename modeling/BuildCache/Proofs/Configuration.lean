import BuildCache.Config.Loading
import Mathlib.Logic.Basic

/-!
# Valid configurations

A configuration that is read from a text breaks none of the rules.
-/

namespace BuildCache.ProjectConfig

variable {text : String} {root : Path} {c : ProjectConfig}

theorem root_of_ofToml? {fields : Toml.Fields} (h : ofToml? root fields = some c) :
    c.root = root := by
  simp only [ofToml?, Option.bind_eq_bind, Option.pure_def, Option.bind_eq_some_iff,
    Option.some.injEq] at h
  obtain ⟨cache, -, rules, -, rfl⟩ := h
  rfl

theorem parse_ok_iff :
    parse text root = .ok c ↔
      (Toml.parse? text).bind (ofToml? root) = some c ∧ c.violation? = none := by
  rw [parse]
  cases hread : (Toml.parse? text).bind (ofToml? root) with
  | none => simp
  | some c' =>
    simp only [Option.some.injEq]
    split
    · next v hv =>
      refine iff_of_false (by simp) ?_
      rintro ⟨rfl, hvalid⟩
      simp [hv] at hvalid
    · next hvalid =>
      rw [Except.ok.injEq]
      exact ⟨fun h => ⟨h, h ▸ hvalid⟩, fun h => h.1⟩

theorem parse_ok (h : parse text root = .ok c) : c.root = root ∧ c.violation? = none := by
  obtain ⟨hread, hvalid⟩ := parse_ok_iff.mp h
  obtain ⟨fields, -, hfields⟩ := Option.bind_eq_some_iff.mp hread
  exact ⟨root_of_ofToml? hfields, hvalid⟩

/-- The names that a configuration gives can all be used. -/
structure UsableNames (c : ProjectConfig) : Prop where
  extensions : ∀ ext ∈ c.resolve.extensions, isExtension ext = true
  aliases : "" ∉ c.resolve.aliases.keys
  modules : "" ∉ c.resolve.modules
  mainFiles : "" ∉ c.resolve.mainFiles

theorem violation?_eq_none_iff :
    c.violation? = none ↔ c.UsableNames ∧ c.cache.dir.bytes ≠ [] ∧
      c.root.normalizeWithin.startsWith c.cacheDir.normalizeWithin = false := by
  have hextension : c.resolve.extensions.find? (!isExtension ·) = none ↔
      ∀ ext ∈ c.resolve.extensions, isExtension ext = true := by simp
  have hkey : c.resolve.aliases.keys.find? (·.isEmpty) = none ↔ "" ∉ c.resolve.aliases.keys := by
    rw [List.find?_eq_none]
    constructor
    · intro h hmem
      exact h "" hmem rfl
    · intro h key hkey hempty
      obtain rfl := String.isEmpty_iff.mp hempty
      exact h hkey
  have hnames : c.UsableNames ↔ (∀ ext ∈ c.resolve.extensions, isExtension ext = true) ∧
      "" ∉ c.resolve.aliases.keys ∧ "" ∉ c.resolve.modules ∧ "" ∉ c.resolve.mainFiles :=
    ⟨fun h => ⟨h.extensions, h.aliases, h.modules, h.mainFiles⟩,
      fun ⟨h₁, h₂, h₃, h₄⟩ => ⟨h₁, h₂, h₃, h₄⟩⟩
  rw [hnames, violation?, ← hextension, ← hkey]
  split
  · simp_all
  · split
    · simp_all
    · simp_all [ite_eq_iff, and_assoc]

end BuildCache.ProjectConfig
