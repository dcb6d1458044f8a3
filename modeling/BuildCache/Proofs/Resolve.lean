import BuildCache.Proofs.ReverseIndex
import BuildCache.Session

/-!
# What imports resolve to

A specifier resolves to a file that is there, by whichever way it is found. The imports of a file
name each dependency once.
-/

namespace BuildCache

namespace Resolver

variable {r : Resolver} {t : FileTree} {p q importer : Path}

private theorem isFile_of_findSome {α : Type} {as : List α} {f : α → Option Path}
    (hf : ∀ a q, f a = some q → t.isFile q = true) (h : as.findSome? f = some q) :
    t.isFile q = true := by
  obtain ⟨a, -, ha⟩ := List.exists_of_findSome?_eq_some h
  exact hf a q ha

private theorem isFile_of_or {x y : Option Path} (hx : x = some q → t.isFile q = true)
    (hy : y = some q → t.isFile q = true) (h : x.or y = some q) : t.isFile q = true := by
  rcases Option.or_eq_some_iff.mp h with h | ⟨-, h⟩
  · exact hx h
  · exact hy h

private theorem isFile_of_ite {c : Prop} [Decidable c] {x : Option Path}
    (hx : x = some q → t.isFile q = true) (h : (if c then x else none) = some q) :
    t.isFile q = true := by
  split at h
  · exact hx h
  · contradiction

theorem isFile_of_resolveFile (h : r.resolveFile? t p = some q) : t.isFile q = true :=
  List.find?_some h

theorem isFile_of_resolveMainFile (h : r.resolveMainFile? t p = some q) : t.isFile q = true :=
  isFile_of_findSome (fun _ _ => isFile_of_resolveFile) h

theorem isFile_of_resolveEntry (h : r.resolveEntry? t p = some q) : t.isFile q = true :=
  isFile_of_or isFile_of_resolveFile (isFile_of_ite isFile_of_resolveMainFile) h

theorem isFile_of_resolveManifest (h : r.resolveManifest? t p = some q) : t.isFile q = true := by
  obtain ⟨manifest, -, h⟩ := Option.bind_eq_some_iff.mp h
  exact isFile_of_findSome (fun _ _ => isFile_of_resolveEntry) h

theorem isFile_of_resolvePath (h : r.resolvePath? t p = some q) : t.isFile q = true :=
  isFile_of_or isFile_of_resolveFile
    (isFile_of_ite (isFile_of_or isFile_of_resolveManifest isFile_of_resolveMainFile)) h

theorem isFile_of_resolveModule (h : r.resolveModule? t importer p = some q) :
    t.isFile q = true := by
  rw [resolveModule?] at h
  split at h
  · contradiction
  · exact isFile_of_findSome (fun _ _ => isFile_of_resolvePath) h

theorem isFile_of_resolveTarget (h : r.resolveTarget? t importer p = some q) :
    t.isFile q = true := by
  rw [resolveTarget?] at h
  split at h
  · exact isFile_of_resolvePath h
  · split at h
    · exact isFile_of_resolvePath h
    · exact isFile_of_resolveModule h

theorem isFile_of_resolve {specifier : String} (h : r.resolve t importer specifier = .ok q) :
    t.isFile q = true := by
  rw [resolve] at h
  split at h
  · next p hp =>
    obtain rfl : p = q := by simpa using h
    rw [resolve?] at hp
    split at hp
    · exact isFile_of_resolvePath hp
    · split at hp
      · exact isFile_of_resolvePath hp
      · split at hp
        · exact isFile_of_resolveTarget hp
        · exact isFile_of_resolveModule hp
  · simp at h

private theorem eraseDupsBy_spec {α : Type} (same : α → α → Bool) (as : List α) :
    (∀ a ∈ as.eraseDupsBy same, a ∈ as) ∧
      (as.eraseDupsBy same).Pairwise fun a b => same b a = false := by
  induction hn : as.length using Nat.strongRecOn generalizing as with
  | ind n ih =>
    cases as with
    | nil => simp
    | cons a as =>
      have hlength := List.length_filter_le (fun b => same b a = false) as
      rw [List.length_cons] at hn
      obtain ⟨hmem, hpairwise⟩ := ih (as.filter fun b => same b a = false).length (by omega) _ rfl
      rw [List.eraseDupsBy_cons]
      have hrest (b : α) (hb : b ∈ (as.filter fun b => same b a = false).eraseDupsBy same) :
          b ∈ as ∧ same b a = false := by simpa using hmem b hb
      refine ⟨fun b hb => ?_, List.pairwise_cons.mpr ⟨fun b hb => (hrest b hb).2, hpairwise⟩⟩
      rcases List.mem_cons.mp hb with rfl | hb
      · exact List.mem_cons_self
      · exact List.mem_cons_of_mem a (hrest b hb).1

theorem exists_of_mem_dependencies {specifiers : List String}
    (h : p ∈ (r.imports t importer specifiers).dependencies) :
    ∃ specifier ∈ specifiers, r.resolve t importer specifier = .ok p := by
  have hmem := (eraseDupsBy_spec Path.same _).1 p h
  obtain ⟨result, hresult, hok⟩ := List.mem_filterMap.mp hmem
  obtain ⟨specifier, hspecifier, rfl⟩ := List.mem_map.mp hresult
  refine ⟨specifier, List.mem_eraseDups.mp hspecifier, ?_⟩
  cases hresolve : r.resolve t importer specifier with
  | ok q =>
    rw [hresolve] at hok
    cases hok
    rfl
  | error u =>
    rw [hresolve] at hok
    cases hok

theorem isFile_of_mem_dependencies {specifiers : List String}
    (h : p ∈ (r.imports t importer specifiers).dependencies) : t.isFile p = true := by
  obtain ⟨specifier, -, hresolve⟩ := exists_of_mem_dependencies h
  exact isFile_of_resolve hresolve

theorem pairwise_dependencies (r : Resolver) (t : FileTree) (importer : Path)
    (specifiers : List String) :
    (r.imports t importer specifiers).dependencies.Pairwise fun p q => q.same p = false :=
  (eraseDupsBy_spec Path.same _).2

end Resolver

end BuildCache
