import BuildCache.Proofs.FileTree.Replace
import BuildCache.Proofs.Layout.Slots

/-!
# Reading and writing the files of a layout

What a file of the layout reads as depends on its content, on whether its path can be walked, and on
whether the path fits the limits on lengths. A change of one file leaves the others alone.
-/

namespace BuildCache

open FileTree

/-- Directories that were there are still there. -/
def FileTree.KeepsDirectories (t t' : FileTree) : Prop :=
  ∀ k, t.isDirectoryAt k = true → t'.isDirectoryAt k = true

namespace FileTree

theorem KeepsDirectories.trans {t t' t'' : FileTree} (h : KeepsDirectories t t')
    (h' : KeepsDirectories t' t'') : KeepsDirectories t t'' :=
  fun k hk => h' k (h k hk)

theorem Puts.keeps {t t' : FileTree} {l : Location} {c : Option Bytes} (h : Puts t t' l c) :
    KeepsDirectories t t' := fun k hk => (h.isDirectoryAt k).trans hk

theorem Puts.keeps_symm {t t' : FileTree} {l : Location} {c : Option Bytes} (h : Puts t t' l c) :
    KeepsDirectories t' t := fun k hk => (h.isDirectoryAt k).symm.trans hk

end FileTree

namespace Layout

/-- The way to the cache directory can be walked to its end. -/
structure Open (layout : Layout) (t : FileTree) : Prop where
  walk : t.walk [] layout.dir.segments = .ok layout.dir.location
  isDirectoryAt : t.isDirectoryAt layout.dir.location = true

theorem Open.mono {layout : Layout} {t t' : FileTree} (h : layout.Open t)
    (hdirs : KeepsDirectories t t') : layout.Open t' :=
  ⟨walk_mono hdirs h.walk h.isDirectoryAt, hdirs _ h.isDirectoryAt⟩

/-- Of a cache directory whose way is closed, nothing can come to light later. -/
def Settled (layout : Layout) (t : FileTree) : Prop :=
  layout.Open t ∨ ∀ s : Slot, t.contentAt (s.location layout) = none

end Layout

namespace Slot

variable {layout : Layout} {s s' : Slot} {t t' : FileTree}

/-- The path of a file of the layout is within the limits of a lookup. -/
structure Fits (layout : Layout) (s : Slot) : Prop where
  spelling : checkSpelling (s.path layout) = .ok ()
  length : (Bytes.ofString s.name).length ≤ maxNameLength

/-- The way to the directory that holds a file of the layout. -/
def Reaches (layout : Layout) (s : Slot) (t : FileTree) : Prop :=
  t.walk [] (s.dir layout).segments = .ok (s.dir layout).location

theorem Reaches.mono (h : s.Reaches layout t) (hdir : t.isDirectoryAt (s.dir layout).location = true)
    (hdirs : KeepsDirectories t t') : s.Reaches layout t' :=
  walk_mono hdirs h hdir

private theorem walk_cons_plain {l : Location} {n : Name} {names : List Name} (hn : Path.Plain n) :
    t.walk l (n :: names) =
      if !t.isDirectoryAt l then .error .notDirectory
      else if maxNameLength < n.length then .error .nameTooLong
      else if (t.entry? (n :: l)).isNone then .error .notFound
      else t.walk (n :: l) names := by
  rw [FileTree.walk, if_neg hn.ne_dot, if_neg hn.ne_dotDot]

theorem reaches_of_open (h : layout.Open t)
    (hdir : t.isDirectoryAt (s.dir layout).location = true) : s.Reaches layout t := by
  cases s with
  | entry id part =>
    have hfiles : t.isDirectoryAt (Bytes.ofString "files" :: layout.dir.location) = true :=
      location_files layout ▸ hdir
    have hsome := entry?_isSome_of_isDirectoryAt hfiles
    have hnone : (t.entry? (Bytes.ofString "files" :: layout.dir.location)).isNone = false := by
      cases he : t.entry? (Bytes.ofString "files" :: layout.dir.location) <;> simp_all
    have hlength : ¬maxNameLength < (Bytes.ofString "files").length := by decide
    rw [Reaches, dir, segments_files, location_files, walk_append, h.walk, Except.bind,
      walk_cons_plain plain_files, h.isDirectoryAt, hnone, if_neg hlength]
    rfl
  | _ => exact h.walk

theorem open_of_reaches (hreach : s.Reaches layout t)
    (hdir : t.isDirectoryAt (s.dir layout).location = true) : layout.Open t := by
  cases s with
  | entry id part =>
    rw [dir, location_files] at hdir
    have hparent := isDirectoryAt_of_cons (entry?_isSome_of_isDirectoryAt hdir)
    rw [Reaches, dir, segments_files, walk_append] at hreach
    cases hwalk : t.walk [] layout.dir.segments with
    | error e => simp [hwalk, Except.bind] at hreach
    | ok l =>
      obtain rfl : l = layout.dir.location := eq_follow_of_walk hwalk
      exact ⟨hwalk, hparent⟩
  | _ => exact ⟨hreach, hdir⟩

theorem contentAt_isDirectoryAt {c : Bytes} (h : t.contentAt (s.location layout) = some c) :
    t.isDirectoryAt (s.dir layout).location = true :=
  isDirectoryAt_of_contentAt_cons h

theorem read_path_iff {c : Bytes} :
    t.read (s.path layout) = .ok c ↔
      s.Fits layout ∧ s.Reaches layout t ∧ t.contentAt (s.location layout) = some c := by
  have hwalk : t.walk [] (s.path layout).segments =
      (t.walk [] (s.dir layout).segments).bind fun l => t.walk l [Bytes.ofString s.name] := by
    rw [segments_path, walk_append]
  have hlast (l : Location) : t.walk l [Bytes.ofString s.name] =
      if !t.isDirectoryAt l then .error .notDirectory
      else if maxNameLength < (Bytes.ofString s.name).length then .error .nameTooLong
      else if (t.entry? (Bytes.ofString s.name :: l)).isNone then .error .notFound
      else .ok (Bytes.ofString s.name :: l) := by
    rw [walk_cons_plain s.plain_name, FileTree.walk]
  constructor
  · intro h
    simp only [FileTree.read, stat, locate, bind, Except.bind, hwalk, not_endsInSlash_path, Bool.false_and,
      Bool.false_eq_true, if_false] at h
    cases hspelling : checkSpelling (s.path layout) with
    | error e => simp [hspelling] at h
    | ok u =>
      simp only [hspelling] at h
      cases hdir : t.walk [] (s.dir layout).segments with
      | error e => simp [hdir] at h
      | ok l =>
        obtain rfl : l = (s.dir layout).location := eq_follow_of_walk hdir
        simp only [hdir, hlast] at h
        by_cases hl : t.isDirectoryAt (s.dir layout).location = true
        · by_cases hlength : maxNameLength < (Bytes.ofString s.name).length
          · simp [hl, hlength] at h
          · refine ⟨⟨hspelling, Nat.le_of_not_lt hlength⟩, hdir, ?_⟩
            rw [location, contentAt]
            cases he : t.entry? (Bytes.ofString s.name :: (s.dir layout).location) with
            | none => simp [hl, hlength, he] at h
            | some e => cases e <;> simp_all [Entry.content?]
        · simp [hl] at h
  · rintro ⟨hfits, hreach, hc⟩
    have hl := contentAt_isDirectoryAt hc
    rw [location] at hc
    obtain ⟨modified, he⟩ := exists_file_of_contentAt hc
    have hlength : ¬maxNameLength < (Bytes.ofString s.name).length := Nat.not_lt.mpr hfits.length
    have hreach' : t.walk [] (s.dir layout).segments = .ok (s.dir layout).location := hreach
    simp [FileTree.read, stat, locate, bind, Except.bind, hwalk, not_endsInSlash_path, hfits.spelling,
      hreach', hlast, hl, hlength, he]

theorem readText?_path_iff {x : String} :
    t.readText? (s.path layout) = some x ↔
      s.Fits layout ∧ s.Reaches layout t ∧
        (t.contentAt (s.location layout)).bind Bytes.text? = some x := by
  rw [readText?]
  cases hread : t.read (s.path layout) with
  | ok c =>
    obtain ⟨hfits, hreach, hc⟩ := read_path_iff.mp hread
    simp [hfits, hreach, hc]
  | error e =>
    simp only [reduceCtorEq, false_iff]
    rintro ⟨hfits, hreach, hx⟩
    obtain ⟨c, hc, -⟩ := Option.bind_eq_some_iff.mp hx
    rw [read_path_iff.mpr ⟨hfits, hreach, hc⟩] at hread
    contradiction

theorem readText?_path_eq_none (h : t.contentAt (s.location layout) = none) :
    t.readText? (s.path layout) = none := by
  rw [← Option.not_isSome_iff_eq_none, Option.isSome_iff_exists]
  rintro ⟨x, hx⟩
  simpa [h] using (readText?_path_iff.mp hx).2.2

/-- A readable file of the layout lies in an open cache directory. -/
theorem open_of_readText? {x : String} (h : t.readText? (s.path layout) = some x) :
    layout.Open t := by
  obtain ⟨-, hreach, hx⟩ := readText?_path_iff.mp h
  obtain ⟨c, hc, -⟩ := Option.bind_eq_some_iff.mp hx
  exact open_of_reaches hreach (contentAt_isDirectoryAt hc)

/-- In an open cache directory a file reads as its content, if its path fits. -/
theorem readText?_path_of_open {x : String} (h : layout.Open t) :
    t.readText? (s.path layout) = some x ↔
      s.Fits layout ∧ (t.contentAt (s.location layout)).bind Bytes.text? = some x := by
  rw [readText?_path_iff]
  refine ⟨fun ⟨hfits, _, hx⟩ => ⟨hfits, hx⟩, fun ⟨hfits, hx⟩ => ⟨hfits, ?_, hx⟩⟩
  obtain ⟨c, hc, -⟩ := Option.bind_eq_some_iff.mp hx
  exact reaches_of_open h (contentAt_isDirectoryAt hc)

/-- A settled directory reads the same as long as the contents of its files stay. -/
theorem readText?_path_congr (h : layout.Settled t) (h' : layout.Settled t')
    (hc : t'.contentAt (s.location layout) = t.contentAt (s.location layout)) :
    t'.readText? (s.path layout) = t.readText? (s.path layout) := by
  rcases h with h | h
  · rcases h' with h' | h'
    · exact Option.ext fun x => by
        rw [readText?_path_of_open h, readText?_path_of_open h', hc]
    · rw [readText?_path_eq_none (h' s), readText?_path_eq_none (hc ▸ h' s)]
  · rw [readText?_path_eq_none (h s), readText?_path_eq_none (hc.trans (h s))]

theorem readText?_path_of_same_directories (hdirs : KeepsDirectories t t')
    (hdirs' : KeepsDirectories t' t)
    (hc : t'.contentAt (s.location layout) = t.contentAt (s.location layout)) :
    t'.readText? (s.path layout) = t.readText? (s.path layout) := by
  refine Option.ext fun x => ?_
  rw [readText?_path_iff, readText?_path_iff, hc]
  constructor
  · rintro ⟨hfits, hreach, hx⟩
    obtain ⟨c, hc', -⟩ := Option.bind_eq_some_iff.mp hx
    exact ⟨hfits, hreach.mono (hdirs _ (contentAt_isDirectoryAt hc')) hdirs', hx⟩
  · rintro ⟨hfits, hreach, hx⟩
    obtain ⟨c, hc', -⟩ := Option.bind_eq_some_iff.mp hx
    exact ⟨hfits, hreach.mono (contentAt_isDirectoryAt hc') hdirs, hx⟩

end Slot

end BuildCache
