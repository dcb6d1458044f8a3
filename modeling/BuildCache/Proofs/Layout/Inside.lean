import BuildCache.Proofs.Layout.Writing

/-!
# What lies in the cache directory

Whoever leaves the inside of the cache directory alone, and the way to it open, changes nothing of
the cache.
-/

namespace BuildCache

open FileTree

namespace Layout

theorem open_iff {layout : Layout} {t : FileTree} : layout.Open t ↔
    (t.walk [] layout.dir.segments).toOption = some layout.dir.location ∧
      t.isDirectoryAt layout.dir.location = true := by
  refine ⟨fun h => ⟨by rw [h.walk]; rfl, h.isDirectoryAt⟩, fun ⟨hwalk, hdir⟩ => ⟨?_, hdir⟩⟩
  cases h : t.walk [] layout.dir.segments with
  | error e => simp [h, Except.toOption] at hwalk
  | ok l => simpa [h, Except.toOption] using hwalk

instance (layout : Layout) (t : FileTree) : Decidable (layout.Open t) :=
  decidable_of_iff _ open_iff.symm

/-- What lies in the cache directory, however deep. -/
def inside (layout : Layout) (t : FileTree) : OrderedMap Location Entry :=
  t.entries.filter fun k _ => layout.dir.location.isSuffixOf k && k != layout.dir.location

/-- The trees differ outside of the cache directory only, and the way to it does not close. -/
def Outside (layout : Layout) (t t' : FileTree) : Prop :=
  layout.inside t' = layout.inside t ∧ (layout.Open t → layout.Open t')

instance (layout : Layout) (t t' : FileTree) : Decidable (layout.Outside t t') :=
  inferInstanceAs (Decidable (_ ∧ _))

variable {layout : Layout} {t t' : FileTree}

private theorem get?_inside {n : Name} {l : Location} (hl : layout.dir.location <:+ l) :
    (layout.inside t).get? (n :: l) = t.entry? (n :: l) := by
  have hbelow : (layout.dir.location.isSuffixOf (n :: l) && n :: l != layout.dir.location) =
      true := by
    rw [Bool.and_eq_true, List.isSuffixOf_iff_suffix, bne_iff_ne]
    refine ⟨hl.trans (List.suffix_cons n l), fun heq => ?_⟩
    have hlength := hl.length_le
    rw [← heq, List.length_cons] at hlength
    omega
  rw [inside, OrderedMap.get?_filter]
  show Option.filter _ (t.entries.get? (n :: l)) = t.entries.get? (n :: l)
  cases t.entries.get? (n :: l) with
  | none => rfl
  | some e => rw [Option.filter, if_pos hbelow]

theorem entry?_of_inside (h : layout.inside t' = layout.inside t) {n : Name} {l : Location}
    (hl : layout.dir.location <:+ l) : t'.entry? (n :: l) = t.entry? (n :: l) := by
  rw [← get?_inside hl, h, get?_inside hl]

theorem Outside.changes (hout : layout.Outside t t') : layout.Changes (fun _ => False) t t' := by
  obtain ⟨h, hopen⟩ := hout
  have hslot (s : Slot) : t'.contentAt (s.location layout) = t.contentAt (s.location layout) := by
    rw [contentAt, Slot.location, entry?_of_inside h (Slot.dir_location_suffix_dir layout s), contentAt]
  refine ⟨fun s _ => hslot s, ?_, fun hh n hn => hh n ?_⟩
  · rintro (hs | hs)
    · exact .inl (hopen hs)
    · exact .inr fun s => (hslot s).trans (hs s)
  · rwa [entry?_of_inside h] at hn
    rw [Slot.location_files]
    exact List.suffix_cons _ _

/-- The cache directory is empty or missing. -/
def Vacant (layout : Layout) (t : FileTree) : Prop := layout.inside t = .empty

instance (layout : Layout) (t : FileTree) : Decidable (layout.Vacant t) :=
  inferInstanceAs (Decidable (_ = _))

theorem Vacant.entry?_eq_none (h : layout.Vacant t) {n : Name} {l : Location}
    (hl : layout.dir.location <:+ l) : t.entry? (n :: l) = none := by
  rw [← get?_inside hl, show layout.inside t = .empty from h, OrderedMap.get?_empty]

theorem Vacant.contentAt_eq_none (h : layout.Vacant t) (s : Slot) :
    t.contentAt (s.location layout) = none := by
  rw [contentAt, Slot.location, h.entry?_eq_none (Slot.dir_location_suffix_dir layout s), Option.bind_none]

theorem Vacant.settled (h : layout.Vacant t) : layout.Settled t := .inr h.contentAt_eq_none

theorem Vacant.housed (h : layout.Vacant t) : layout.Housed t := by
  intro n hn
  rw [h.entry?_eq_none] at hn
  · contradiction
  · rw [Slot.location_files]
    exact List.suffix_cons _ _

end Layout

end BuildCache
