import BuildCache.Proofs.ResolvedPaths

/-!
# What a normal form names

A tree has no links, so `..` leads back to where the walk came from, and a walk that gets through
has passed a directory at each step. What the normal form leaves out is a way there and back.
-/

namespace BuildCache.FileTree

open BuildCache.Path

/-- The normal form of an absolute path that leads somewhere spells the names on the way there, one
by one from the root, and so it leads to the same place of the tree. -/
theorem lookup_normalize {t : FileTree} {p : Path} {e : Entry} (habsolute : p.isAbsolute = true)
    (h : t.stat p = .ok e) :
    ∃ l, t.locate p = .ok l ∧ t.entry? l = some e ∧ p.normalize = rooted l.reverse ∧
      t.locate p.normalize = .ok l ∧ t.stat p.normalize = .ok e := by
  cases hlocate : t.locate p with
  | error error => simp [stat, hlocate, bind, Except.bind] at h
  | ok l =>
    have hentry : t.entry? l = some e := location_of_locate hlocate ▸ entry?_of_stat h
    have hspelled : p.normalize = rooted l.reverse := by
      rw [normalize_of_isAbsolute habsolute, location_of_locate hlocate]
    exact ⟨l, rfl, hentry, hspelled, locate_normalize habsolute hlocate,
      stat_normalize habsolute h⟩

open Sample in
theorem lookup_normalize_of_winding :
    (ofString "//proj/./x.d//../../proj/lib/").isAbsolute = true ∧
      project.stat (ofString "//proj/./x.d//../../proj/lib/") = .ok (.directory 0) ∧
      ∃ l, project.locate (ofString "//proj/./x.d//../../proj/lib/") = .ok l ∧
        project.locate (ofString "/proj/lib") = .ok l := by
  have hstat : project.stat (ofString "//proj/./x.d//../../proj/lib/") = .ok (.directory 0) := rfl
  have hnormal : (ofString "//proj/./x.d//../../proj/lib/").normalize = .ofString "/proj/lib" := by
    decide
  obtain ⟨l, hl, -, -, hnormalized, -⟩ := lookup_normalize rfl hstat
  exact ⟨rfl, hstat, l, hl, hnormal ▸ hnormalized⟩

end BuildCache.FileTree
