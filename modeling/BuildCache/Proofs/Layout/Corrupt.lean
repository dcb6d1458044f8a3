import BuildCache.Proofs.Layout.Purging
import BuildCache.Proofs.Workspace.Linked
import Mathlib.Data.List.Induction

/-!
# Corrupt files

A table, or a record of an id that is in use, is corrupt if it is a regular file that does not hold a
value of its type. What remains of a cache directory without such files lacks nothing else.
-/

namespace BuildCache

open FileTree BuildCache.Path

namespace Slot

variable {layout : Layout} {s : Slot} {t : FileTree}

/-- Whether the id of a record is in the id table on disk. -/
def Tracked (layout : Layout) (t : FileTree) : Slot → Prop
  | entry id .record => id ∈ (t.tableAt layout.ids : IdTable).values
  | _ => True

instance (layout : Layout) (t : FileTree) : (s : Slot) → Decidable (s.Tracked layout t)
  | entry _ .record => inferInstanceAs (Decidable (_ ∈ _))
  | marker | ids | dependents | entry _ (.code _) | entry _ (.sourceMap _) => .isTrue trivial

/-- A regular file that holds no value of its type, in the place of a table or of the record of a
tracked id. -/
structure Corrupt (layout : Layout) (t : FileTree) (s : Slot) : Prop where
  isFile : t.isFile (s.path layout) = true
  garbled : s.Garbled layout t
  tracked : s.Tracked layout t

instance (layout : Layout) (t : FileTree) (s : Slot) : Decidable (s.Corrupt layout t) :=
  decidable_of_iff (t.isFile (s.path layout) = true ∧ s.Garbled layout t ∧ s.Tracked layout t)
    ⟨fun ⟨h, h', h''⟩ => ⟨h, h', h''⟩, fun ⟨h, h', h''⟩ => ⟨h, h', h''⟩⟩

theorem isFile_path_iff : t.isFile (s.path layout) = true ↔
    s.Fits layout ∧ layout.Open t ∧ (t.contentAt (s.location layout)).isSome = true := by
  have hread : t.isFile (s.path layout) = true ↔ ∃ c, t.read (s.path layout) = .ok c := by
    rw [FileTree.isFile, FileTree.read]
    rcases t.stat (s.path layout) with e | ⟨c, m⟩ | m <;> simp [Entry.isDirectory, bind, Except.bind]
  rw [hread, Option.isSome_iff_exists]
  constructor
  · rintro ⟨c, hc⟩
    obtain ⟨hfits, hreach, hcontent⟩ := read_path_iff.mp hc
    exact ⟨hfits, open_of_reaches hreach (contentAt_isDirectoryAt hcontent), c, hcontent⟩
  · rintro ⟨hfits, hopen, c, hc⟩
    exact ⟨c, read_path_iff.mpr ⟨hfits, reaches_of_open hopen (contentAt_isDirectoryAt hc), hc⟩⟩

theorem Corrupt.spoiled (h : s.Corrupt layout t) : s.Spoiled layout t := by
  obtain ⟨hfits, hopen, -⟩ := isFile_path_iff.mp h.isFile
  exact ⟨hopen, hfits, h.garbled⟩

end Slot

/-- A tree without some files of a cache. -/
def FileTree.without (t : FileTree) (layout : Layout) (ss : List Slot) : FileTree :=
  ss.foldl (fun t s => t.discard (s.path layout)) t

namespace Layout

variable {layout : Layout} {ss : List Slot} {t t' : FileTree}

private theorem lacks_without {gone loose : Location → Prop} (h : Lacks gone loose t t')
    (hgone : ∀ s ∈ ss, gone (s.location layout))
    (hloose : ∀ s : Slot, loose (s.dir layout).location) :
    Lacks gone loose t (t'.without layout ss) := by
  induction ss generalizing t' with
  | nil => exact h
  | cons s ss ih =>
    obtain ⟨hs, hgone⟩ := List.forall_mem_cons.mp hgone
    refine ih (h.discard_right ?_ ?_) hgone
    · rw [Slot.location_path]
      exact hs
    · rw [Slot.holder_path]
      exact hloose s

/-- Without its corrupt files a cache lacks nothing else. -/
theorem purged_without (hhoused : layout.Housed t) (hss : ∀ s ∈ ss, s.Corrupt layout t) :
    layout.Purged (· ∈ ss) t (t.without layout ss) := by
  have hlacks : Lacks (fun k => ∃ s, s ∈ ss ∧ k = s.location layout) layout.Holder t
      (t.without layout ss) :=
    lacks_without (.refl _ _ t) (fun s hs => ⟨s, hs, rfl⟩) layout.holder_dir
  refine ⟨hlacks, fun s hgone => ?_, hhoused⟩
  obtain ⟨s', hs', heq⟩ := hlacks.of_gone hgone
  obtain rfl := Slot.location_injective heq
  exact (hss s hs').spoiled

end Layout

end BuildCache
