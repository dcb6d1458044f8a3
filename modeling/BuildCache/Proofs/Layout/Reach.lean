import BuildCache.Proofs.FileTree.Lacking
import BuildCache.Proofs.Layout.Confinement
import BuildCache.Proofs.Layout.Purging

/-!
# Lookups beside a cache

What a cache does stays in its region. So a lookup finds the same before and after, if it comes by
nothing that the cache owns and by nothing that is to be made on the way to the cache directory.
-/

namespace BuildCache.Layout

open FileTree BuildCache.Path

/-- A lookup of the path neither comes by what the cache owns nor by what is missing on the way to
the cache directory. It does not end at the cache directory, nor at a directory of the way that
lacks the next one. -/
structure OutOfReach (layout : Layout) (t : FileTree) (p : Path) : Prop where
  own : Avoids p.segments layout.region.own
  missing : Avoids p.segments fun k => layout.region.way k ∧ t.entry? k = none
  home : p.location ≠ layout.dir.location
  grown : ∀ n, layout.region.way (n :: p.location) → t.entry? (n :: p.location) ≠ none

variable {layout : Layout} {t t' : FileTree} {k : Location} {p : Path}

theorem avoids_own (h : Avoids p.segments (layout.dir.location <:+ ·)) :
    Avoids p.segments layout.region.own := fun k hk hown => h k hk (suffix_of_own hown)

theorem Open.outOfReach (h : layout.Open t) (hown : Avoids p.segments layout.region.own)
    (hhome : p.location ≠ layout.dir.location) : layout.OutOfReach t p := by
  have hthere {k : Location} (hway : layout.region.way k) : t.entry? k ≠ none := by
    rw [← Option.isSome_iff_ne_none]
    exact entry?_isSome_of_isDirectoryAt (h.isDirectoryAt_of_onWay hway)
  exact ⟨hown, fun k _ hk => hthere hk.1 hk.2, hhome, fun n => hthere⟩

namespace Confined

theorem kept_or_directory (h : layout.Confined t t') (hown : ¬layout.region.own k)
    (hmissing : ¬(layout.region.way k ∧ t.entry? k = none)) :
    t'.entry? k = t.entry? k ∨
      t.isDirectoryAt k = true ∧ t'.isDirectoryAt k = true ∧ (k = layout.dir.location ∨
        ∃ n, layout.region.way (n :: k) ∧ t.entry? (n :: k) = none) := by
  rcases h.frame k hown with hsame | hmade
  · exact .inl hsame
  · have hdir : t.isDirectoryAt k = true := by
      rw [← Bool.not_eq_false]
      intro hdir
      exact hmissing ⟨hmade.way, entry?_eq_none_iff.mpr ⟨hdir, hmade.noFile⟩⟩
    refine .inr ⟨hdir, hmade.isDirectoryAt, (hmade.grown hdir).imp_right ?_⟩
    rintro ⟨n, hway, hnone, -⟩
    exact ⟨n, hway, hnone⟩

theorem walk_of_outOfReach (h : layout.Confined t t') (hp : layout.OutOfReach t p) :
    t'.walk [] p.segments = t.walk [] p.segments := by
  refine walk_congr fun front rest heq => ?_
  have hfront : OnWay p.segments (follow [] front) := ⟨front, ⟨rest, heq.symm⟩, rfl⟩
  rcases h.kept_or_directory (hp.own _ hfront) (hp.missing _ hfront) with hsame | ⟨hdir, hdir', -⟩
  · rw [isDirectoryAt_eq, isDirectoryAt_eq, hsame]
    exact ⟨rfl, rfl⟩
  · refine ⟨hdir'.trans hdir.symm, ?_⟩
    rw [← Option.not_isSome, ← Option.not_isSome, entry?_isSome_of_isDirectoryAt hdir,
      entry?_isSome_of_isDirectoryAt hdir']

theorem entry?_of_outOfReach (h : layout.Confined t t') (hp : layout.OutOfReach t p) :
    t'.entry? p.location = t.entry? p.location := by
  refine (h.kept_or_directory hp.own.location hp.missing.location).resolve_right ?_
  rintro ⟨-, -, hhome | ⟨n, hway, hnone⟩⟩
  · exact hp.home hhome
  · exact hp.grown n hway hnone

/-- Work that keeps to the region of a cache is not seen from out of its reach. -/
theorem stat_of_outOfReach (h : layout.Confined t t') (hp : layout.OutOfReach t p) :
    t'.stat p = t.stat p := by
  have hentry := h.entry?_of_outOfReach hp
  have hlocate : t'.locate p = t.locate p := by
    rw [locate, locate, h.walk_of_outOfReach hp]
    cases hl : t.walk [] p.segments with
    | error e => rfl
    | ok l =>
      obtain rfl : l = p.location := eq_follow_of_walk hl
      simp only [bind, Except.bind, isDirectoryAt_eq, hentry]
  rw [stat, stat, hlocate]
  cases hl : t.locate p with
  | error e => rfl
  | ok l =>
    obtain rfl := location_of_locate hl
    simp only [bind, Except.bind, hentry]

end Confined

end BuildCache.Layout
