import BuildCache.Proofs.Path.Origin

/-!
# Normal forms that stay within their start

A normal form that drops the `..` for which there is nothing to take back spells where the path
leads from the root. From another directory a relative path leads there too, as far as it does not
climb out of that directory.
-/

namespace BuildCache.Path

variable {p q : Path}

theorem components_normalizeWithin (p : Path) :
    p.normalizeWithin.components = p.outset.components ++ p.location.reverse.map Component.name := by
  rw [normalizeWithin_eq_spell, Origin.components_spell _ plain_of_mem_names]

/-- The name that a component gives to a location. -/
def nameOf? : Component → Option Name
  | .name n => some n
  | _ => none

theorem location_congr (h : p.components = q.components) : p.location = q.location := by
  have hnames (p : Path) :
      p.normalizeWithin.components.filterMap nameOf? = p.location.reverse := by
    have hself : nameOf? ∘ Component.name = some := rfl
    rw [components_normalizeWithin, List.filterMap_append, List.filterMap_map, outset, hself,
      List.filterMap_some]
    split <;> rfl
  have hnormal : p.normalizeWithin = q.normalizeWithin := by
    simp only [normalizeWithin, h]
  rw [← List.reverse_inj, ← hnames, ← hnames, hnormal]

/-- A directory holds what its names lead to with more names behind them. An absolute one holds
nothing that is relative. -/
theorem startsWith_normalizeWithin (h : q.isAbsolute = true ∨ p.isAbsolute = false) :
    p.normalizeWithin.startsWith q.normalizeWithin = true ↔
      p.isAbsolute = q.isAbsolute ∧ q.location <:+ p.location := by
  have hnames (front : List Component) :
      front ++ q.location.reverse.map Component.name <+:
          front ++ p.location.reverse.map Component.name ↔ q.location <:+ p.location := by
    rw [List.prefix_append_right_inj,
      List.prefix_map_iff_of_injective fun _ _ => Component.name.inj, List.reverse_prefix]
  rw [startsWith, components_normalizeWithin, components_normalizeWithin,
    List.isPrefixOf_iff_prefix, outset, outset]
  cases hp : p.isAbsolute <;> cases hq : q.isAbsolute
  · simpa using hnames []
  · -- the root is no component of a relative path
    refine iff_of_false (fun hroot => ?_) (by simp)
    have hmem : Component.root ∈ p.location.reverse.map Component.name :=
      hroot.subset (List.mem_append_left _ List.mem_cons_self)
    simp at hmem
  · simp [hp, hq] at h
  · simpa using hnames [.root]

theorem follow_append_drop (l base : Location) (names : List Name) :
    follow (l ++ base) names = follow l names ++ base.drop (climbFrom l.length names) := by
  induction names generalizing l base with
  | nil => rfl
  | cons s rest ih =>
    rw [follow, follow, climbFrom]
    by_cases hdot : s = dot
    · simp only [hdot, if_true]
      exact ih l base
    · rw [if_neg hdot, if_neg hdot, if_neg hdot]
      by_cases hdots : s = dotDot
      · rw [if_pos hdots, if_pos hdots, if_pos hdots]
        cases l with
        | nil =>
          have hrest := ih [] base.tail
          rw [List.drop_tail] at hrest
          exact hrest
        | cons n l => exact ih l base
      · rw [if_neg hdots, if_neg hdots, if_neg hdots]
        exact ih (s :: l) base

theorem location_join {base : Path} (h : p.isAbsolute = false) :
    (base.join p).location = p.location ++ base.location.drop p.climb := by
  rw [location, segments_join h, follow_append]
  exact follow_append_drop [] base.location p.segments

end BuildCache.Path
