import BuildCache.Proofs.FileTree.Frames
import BuildCache.Proofs.Layout.Clearing

/-!
# Staying inside the layout

A cache owns its marker, its tables and the directory of its files. Whatever is done to one of its
files, the rest is left alone but for the way to the cache directory, and no other file appears.
-/

namespace BuildCache

open FileTree BuildCache.Path

namespace Slot

/-- The name of a temporary file of a slot. -/
def temporaryName (s : Slot) (attempt : Nat) : String := s.name ++ (".tmp." ++ temporaryMark attempt)

private theorem slash_not_mem_temporaryMark (attempt : Nat) :
    '/' ∉ (temporaryMark attempt).toList := by
  rw [temporaryMark, String.toList_append, List.mem_append, not_or]
  refine ⟨by decide, fun h => ?_⟩
  have hdigits : (toString attempt).toList = Nat.toDigits 10 attempt := by
    simp [toString, Nat.repr]
  exact absurd (Nat.isDigit_of_mem_toDigits (by decide) (by decide) (hdigits ▸ h)) (by decide)

theorem plain_temporaryName (s : Slot) (attempt : Nat) :
    Plain (Bytes.ofString (s.temporaryName attempt)) := by
  have hmem : 't' ∈ (s.temporaryName attempt).toList := by
    simp [temporaryName, String.toList_append]
  have hother (x : String) (hx : 't' ∉ x.toList) : s.temporaryName attempt ≠ x := by
    rintro rfl
    exact hx hmem
  refine plain_ofString (hother "" (by decide)) ?_ (hother "." (by decide)) (hother ".." (by decide))
  rw [temporaryName, String.toList_append, String.toList_append, List.mem_append, List.mem_append]
  rintro (h | h | h)
  · exact s.slash_not_mem_name h
  · exact absurd h (by decide)
  · exact slash_not_mem_temporaryMark attempt h

theorem path_temporary (layout : Layout) (s : Slot) (attempt : Nat) :
    temporary (s.path layout) (temporaryMark attempt) =
      (holdingDir (s.path layout)).join ⟨Bytes.ofString (s.temporaryName attempt)⟩ := by
  have hname : (s.path layout).fileName? = some (Bytes.ofString s.name) :=
    s.plain_name.fileName?_join _
  rw [temporary, hname, Option.getD_some, temporaryName, Bytes.ofString_append s.name]

theorem location_holdingDir (layout : Layout) (s : Slot) :
    (holdingDir (s.path layout)).location = (s.dir layout).location :=
  s.plain_name.location_holdingDir _

theorem location_temporary (layout : Layout) (s : Slot) (attempt : Nat) :
    (temporary (s.path layout) (temporaryMark attempt)).location =
      Bytes.ofString (s.temporaryName attempt) :: (s.dir layout).location := by
  rw [path_temporary, (plain_temporaryName s attempt).location_join, location_holdingDir]

theorem holder_temporary (layout : Layout) (s : Slot) (attempt : Nat) :
    (temporary (s.path layout) (temporaryMark attempt)).holder = (s.dir layout).location := by
  rw [path_temporary, (plain_temporaryName s attempt).holder_join, location_holdingDir]

theorem location_path (layout : Layout) (s : Slot) :
    (s.path layout).location = s.location layout := s.plain_name.location_join _

theorem holder_path (layout : Layout) (s : Slot) :
    (s.path layout).holder = (s.dir layout).location := s.plain_name.holder_join _

end Slot

instance (n : Name) : Decidable (Plain n) :=
  decidable_of_iff (n ≠ [] ∧ slash ∉ n ∧ n ≠ dot ∧ n ≠ dotDot)
    ⟨fun ⟨hnil, hslash, hdot, hdots⟩ => ⟨hnil, hslash, hdot, hdots⟩,
      fun h => ⟨h.ne_nil, h.noSlash, h.ne_dot, h.ne_dotDot⟩⟩

namespace Layout

instance (layout : Layout) (t : FileTree) : Decidable (layout.Housed t) :=
  decidable_of_iff (∀ n ∈ t.childrenAt layout.files.location, Plain n)
    ⟨fun h n hn => h n (mem_childrenAt hn), fun h n hn => h n (entry?_isSome_of_mem_childrenAt hn)⟩

/-- What a cache owns, the directory that holds it, and the way there. -/
def region (layout : Layout) : Region where
  own k := k = layout.marker.location ∨ k = layout.ids.location ∨ k = layout.dependents.location ∨
    layout.files.location <:+ k
  home := layout.dir.location
  way := OnWay layout.dir.segments
  way_home := onWay_follow _
  held n k h := by
    have hparts (s : Slot) (hs : s.dir layout = layout.dir)
        (h : n :: k = (s.path layout).location) : k = layout.dir.location := by
      rw [Slot.location_path, Slot.location, hs] at h
      exact (List.cons.inj h).2
    rcases h with h | h | h | h
    · exact .inr (hparts .marker rfl h)
    · exact .inr (hparts .ids rfl h)
    · exact .inr (hparts .dependents rfl h)
    · rcases List.suffix_cons_iff.mp h with h | h
      · rw [Slot.location_files] at h
        exact .inr (List.cons.inj h).2.symm
      · exact .inl (.inr (.inr (.inr h)))

variable {layout : Layout}

theorem own_location (s : Slot) : layout.region.own (s.location layout) := by
  rw [← Slot.location_path]
  cases s with
  | marker => exact .inl rfl
  | ids => exact .inr (.inl rfl)
  | dependents => exact .inr (.inr (.inl rfl))
  | entry id part =>
    rw [Slot.location_path]
    exact .inr (.inr (.inr (List.suffix_cons _ _)))

theorem suffix_of_own {k : Location} (h : layout.region.own k) : layout.dir.location <:+ k := by
  have hunder (s : Slot) (hs : s.dir layout = layout.dir) :
      layout.dir.location <:+ (s.path layout).location := by
    rw [Slot.location_path, Slot.location, hs]
    exact List.suffix_cons _ _
  rcases h with rfl | rfl | rfl | h
  · exact hunder .marker rfl
  · exact hunder .ids rfl
  · exact hunder .dependents rfl
  · rw [Slot.location_files] at h
    exact (List.suffix_cons _ _).trans h

theorem own_or_home (s : Slot) : layout.region.own (s.dir layout).location ∨
    (s.dir layout).location = layout.region.home :=
  layout.region.held _ _ (own_location s)

theorem own_or_way {s : Slot} {k : Location} (h : OnWay (s.dir layout).segments k) :
    layout.region.own k ∨ layout.region.way k := by
  cases s with
  | entry id part =>
    obtain ⟨front, hfront, rfl⟩ := h
    rw [Slot.dir, Slot.segments_files] at hfront
    rcases List.prefix_concat_iff.mp hfront with rfl | hfront
    · rw [← Slot.segments_files]
      exact .inl (.inr (.inr (.inr (List.suffix_refl _))))
    · exact .inr ⟨front, hfront, rfl⟩
  | _ => exact .inr h

/-- A change keeps inside the region of a cache. Files appear in its slots only, and names that a
lookup can follow stay so. -/
structure Confined (layout : Layout) (t t' : FileTree) : Prop where
  frame : layout.region.Frame t t'
  written : ∀ k c, t'.contentAt k = some c →
    t.contentAt k = some c ∨ ∃ s : Slot, k = s.location layout
  housed : layout.Housed t → layout.Housed t'

variable {t t' t'' : FileTree}

theorem Confined.refl (layout : Layout) (t : FileTree) : layout.Confined t t :=
  ⟨.refl _ t, fun _ _ => .inl, id⟩

theorem Confined.trans (h : layout.Confined t t') (h' : layout.Confined t' t'') :
    layout.Confined t t'' where
  frame := h.frame.trans h'.frame
  written k c hc := (h'.written k c hc).elim (h.written k c) .inr
  housed := h'.housed ∘ h.housed

theorem confined_of_prepare {s : Slot} {dir : Path} {r : Except StoreError Unit}
    (hdir : ∀ k, OnWay dir.segments k → OnWay (s.dir layout).segments k)
    (h : t.prepare dir = (r, t')) : layout.Confined t t' := by
  have hadds := addsDirectories_prepare h
  have hchanges : layout.Changes (fun _ => False) t t' := changes_of_addsDirectories hadds
  exact ⟨Region.frame_prepare h fun k hk => own_or_way (hdir k hk),
    fun k c hc => .inl (hadds.contentAt k ▸ hc), hchanges.housed⟩

theorem isDirectoryAt_home {s : Slot} (h : t.isDirectoryAt (s.dir layout).location = true) :
    t.isDirectoryAt layout.region.home = true := by
  cases s with
  | entry id part =>
    have hfiles : t.isDirectoryAt (Bytes.ofString "files" :: layout.dir.location) = true :=
      Slot.location_files layout ▸ h
    exact isDirectoryAt_of_cons (entry?_isSome_of_isDirectoryAt hfiles)
  | _ => exact h

end Layout

namespace Slot

variable {layout : Layout} {s : Slot} {t t' : FileTree}

theorem confined_of_puts {content : Option Bytes} (h : Puts t t' (s.path layout).location content)
    (hagree : Agree (Beside (s.path layout)) t t')
    (hdir : t.isDirectoryAt (s.path layout).holder = true) : layout.Confined t t' := by
  rw [location_path] at h
  rw [holder_path] at hdir
  have hhome := Layout.isDirectoryAt_home hdir
  refine ⟨Region.frame_of_agree hagree ?_ hhome ((h.isDirectoryAt _).trans hhome), fun k c hc => ?_,
    housed_of_puts h⟩
  · rintro k (rfl | rfl)
    · rw [location_path]
      exact .inl (Layout.own_location s)
    · rw [holder_path]
      exact Layout.own_or_home s
  · rw [h.contentAt] at hc
    split at hc
    · next heq => exact .inr ⟨s, heq⟩
    · exact .inl hc

theorem confined_removeFile (h : t.removeFile (s.path layout) = .ok t') : layout.Confined t t' := by
  obtain ⟨n, l, c, htarget, -, hputs⟩ := puts_of_removeFile h
  rw [location_of_target htarget] at hputs
  exact confined_of_puts hputs (agree_removeFile h)
    (holder_of_target htarget ▸ isDirectoryAt_of_target htarget)

theorem confined_write {c : Bytes} (h : t.write (s.path layout) c = .ok t') :
    layout.Confined t t' := by
  obtain ⟨n, l, htarget, hputs⟩ := puts_of_write h
  rw [location_of_target htarget] at hputs
  exact confined_of_puts hputs (agree_write h)
    (holder_of_target htarget ▸ isDirectoryAt_of_target htarget)

theorem confined_discard (layout : Layout) (s : Slot) (t : FileTree) :
    layout.Confined t (t.discard (s.path layout)) := by
  rw [FileTree.discard]
  split
  · next h => exact confined_removeFile h
  · exact .refl layout t

theorem onWay_holdingDir {k : Location} (h : OnWay (holdingDir (s.path layout)).segments k) :
    OnWay (s.dir layout).segments k := by
  have hk := onWay_of_holdingDir h
  rwa [segments_path, List.dropLast_concat] at hk

theorem confined_replace {c : Bytes} {r : Except StoreError Unit}
    (h : t.replace (s.path layout) c = (r, t')) : layout.Confined t t' := by
  obtain ⟨prepared, t₁, hprepare, hend⟩ := replaces_of_replace h
  have hprepared := Layout.confined_of_prepare (fun _ => onWay_holdingDir) hprepare
  rcases hend with rfl | ⟨attempt, ⟨content, hputs⟩, hagree, hholder⟩
  · exact hprepared
  · rw [holder_temporary, ← holder_path] at hagree hholder
    refine hprepared.trans (confined_of_puts hputs (hagree.mono ?_) hholder)
    rintro k (hk | hk)
    · exact hk
    · exact .inr hk

end Slot

namespace Layout

variable {layout : Layout} {t t' : FileTree}

theorem confined_of_shrinks (h : Shrinks t t') (hframe : layout.region.Frame t t') :
    layout.Confined t t' := by
  refine ⟨hframe, fun k c hc => ?_, h.housed⟩
  rcases h.contentAt k with hk | hk
  · exact .inl (hk ▸ hc)
  · rw [hk] at hc
    contradiction

theorem confined_of_clearFiles {ps : List Path} (hps : ∀ p ∈ ps, ∃ s : Slot, p = s.path layout)
    {r : Except StoreError Unit} (h : clearFiles t ps = (r, t')) : layout.Confined t t' := by
  induction ps generalizing t with
  | nil =>
    cases h
    exact .refl _ _
  | cons p rest ih =>
    obtain ⟨⟨s, rfl⟩, hrest⟩ := List.forall_mem_cons.mp hps
    rw [clearFiles] at h
    split at h
    · next hremove => exact (Slot.confined_removeFile hremove).trans (ih hrest h)
    · exact ih hrest h
    · cases h
      exact .refl _ _

private theorem isDirectoryAt_dir (h : t.isDirectoryAt layout.files.location = true) :
    t.isDirectoryAt layout.dir.location = true := by
  rw [Slot.location_files] at h
  exact isDirectoryAt_of_cons (entry?_isSome_of_isDirectoryAt h)

theorem confined_removeTree (layout : Layout) (t : FileTree) :
    layout.Confined t (t.removeTree layout.files).2 := by
  cases hfiles : t.isDirectoryAt layout.files.location with
  | false =>
    rw [removeTree_of_not_directory hfiles]
    exact .refl layout t
  | true =>
    have hhome := isDirectoryAt_dir hfiles
    have hbelow : ¬layout.files.location <:+ layout.dir.location := fun h => by
      have hlength := h.length_le
      rw [Slot.location_files, List.length_cons] at hlength
      omega
    refine confined_of_shrinks (shrinks_removeTree t layout.files).1
      (Region.frame_of_agree (agree_removeTree t layout.files) ?_ hhome
        (isDirectoryAt_removeTree hbelow hhome))
    rintro k (hk | hk)
    · exact .inl (.inr (.inr (.inr hk)))
    · exact .inr (hk.trans (Slot.plain_files.holder_join _))

theorem confined_clear {r : Except StoreError Unit} (h : layout.clear t = (r, t')) :
    layout.Confined t t' := by
  have hslots : ∀ p ∈ [layout.marker, layout.ids, layout.dependents],
      ∃ s : Slot, p = s.path layout := by
    simp only [List.mem_cons, List.not_mem_nil, or_false]
    rintro p (rfl | rfl | rfl)
    · exact ⟨.marker, rfl⟩
    · exact ⟨.ids, rfl⟩
    · exact ⟨.dependents, rfl⟩
  rw [clear] at h
  split at h
  · next hfiles =>
    cases h
    exact confined_of_clearFiles hslots hfiles
  · next t₁ hfiles =>
    obtain rfl : (t₁.removeTree layout.files).2 = t' := by
      split at h <;> next hremoved => rw [hremoved]; exact (Prod.mk.inj h).2
    exact (confined_of_clearFiles hslots hfiles).trans (confined_removeTree layout t₁)

private theorem confined_of_remove {n : Name} (hn : Plain n)
    (h : t.removeFile (layout.files.join ⟨n⟩) = .ok t') : layout.Confined t t' := by
  obtain ⟨m, l, c, htarget, -, hputs⟩ := puts_of_removeFile h
  have hholder := hn.holder_join layout.files
  have hl : t.isDirectoryAt layout.files.location = true := by
    rw [← hholder, ← holder_of_target htarget]
    exact isDirectoryAt_of_target htarget
  have hhome := isDirectoryAt_dir hl
  refine confined_of_shrinks hputs.shrinks
    (Region.frame_of_agree (agree_removeFile h) ?_ hhome ((hputs.isDirectoryAt _).trans hhome))
  rintro k (hk | hk)
  · rw [hk, hn.location_join]
    exact .inl (.inr (.inr (.inr (List.suffix_cons _ _))))
  · rw [hk, hholder]
    exact .inl (.inr (.inr (.inr (List.suffix_refl _))))

private theorem confined_collectNames {debug : Bool} {live : List CacheId} {names : List Name}
    (hplain : ∀ n ∈ names, Plain n) {count : Nat} {r : Except StoreError Nat}
    (h : ArtifactStore.collectNames ⟨layout.files, debug⟩ live count t names = (r, t')) :
    layout.Confined t t' := by
  induction names generalizing t count with
  | nil =>
    cases h
    exact .refl _ _
  | cons n names ih =>
    obtain ⟨hn, hrest⟩ := List.forall_mem_cons.mp hplain
    rw [ArtifactStore.collectNames] at h
    simp only at h
    split at h
    · exact ih hrest h
    · split at h
      · exact ih hrest h
      · split at h
        · next hremove => exact (confined_of_remove hn hremove).trans (ih hrest h)
        · cases h
          exact .refl _ _

theorem confined_collect {debug : Bool} {live : List CacheId} {r : Except StoreError Nat}
    (hh : layout.Housed t) (h : ArtifactStore.collect ⟨layout.files, debug⟩ t live = (r, t')) :
    layout.Confined t t' := by
  rw [ArtifactStore.collect] at h
  split at h
  · cases h
    exact .refl _ _
  · next l hlocate =>
    split at h
    · refine confined_collectNames (fun n hn => hh n ?_) h
      rw [← location_of_locate hlocate]
      exact entry?_isSome_of_mem_childrenAt hn
    · cases h
      exact .refl _ _

end Layout

end BuildCache
