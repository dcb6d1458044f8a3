import BuildCache.Proofs.FileTree.Mirroring
import BuildCache.Proofs.Layout.Confinement

/-!
# Temporary files of a layout

The temporary files of a slot lie beside it, all at different locations, and none where another slot
is. One of those that are tried is free, so trees that differ in slots only pick the same.
-/

namespace BuildCache

open FileTree BuildCache.Path

namespace Slot

variable {layout : Layout} {gone loose : Location → Prop} {t t' : FileTree}

private theorem count_dot_name_le (s : Slot) : s.name.toList.count '.' ≤ 2 := by
  cases s with
  | entry id part =>
    have hid : id.text.toList.count '.' = 0 :=
      List.count_eq_zero.mpr fun h => absurd (CacheId.isAlphanum_of_mem h) (by decide)
    have hsuffix : part.suffix.toList.count '.' ≤ 2 := by
      rcases part with _ | (_ | _) | (_ | _) <;> decide
    rw [name, String.toList_append, List.count_append, hid]
    omega
  | _ => decide

private theorem count_dot_temporaryName (s : Slot) (attempt : Nat) :
    3 ≤ (s.temporaryName attempt).toList.count '.' := by
  have htmp : ".tmp.".toList.count '.' = 2 := by decide
  have hone : "1.".toList.count '.' = 1 := by decide
  rw [temporaryName, temporaryMark, String.toList_append, String.toList_append,
    String.toList_append, List.count_append, List.count_append, List.count_append, htmp, hone]
  omega

/-- A temporary file has more dots in its name than a file that it may replace. -/
theorem location_temporary_ne (s s' : Slot) (attempt : Nat) :
    (temporary (s.path layout) (temporaryMark attempt)).location ≠ s'.location layout := by
  rw [location_temporary]
  intro h
  have hname : s.temporaryName attempt = s'.name := Bytes.ofString_injective (List.cons.inj h).1
  have htemporary := count_dot_temporaryName s attempt
  have hslot := count_dot_name_le s'
  rw [hname] at htemporary
  omega

private theorem location_temporary_injective (s : Slot) {i j : Nat}
    (h : (temporary (s.path layout) (temporaryMark i)).location =
      (temporary (s.path layout) (temporaryMark j)).location) : i = j := by
  rw [location_temporary, location_temporary] at h
  have hname : s.temporaryName i = s.temporaryName j :=
    Bytes.ofString_injective (List.cons.inj h).1
  have hdigits : Nat.toDigits 10 i = Nat.toDigits 10 j := by
    have hlist := congrArg String.toList hname
    simpa [temporaryName, temporaryMark, String.toList_append, Nat.toString_eq_ofList_toDigits]
      using hlist
  rw [← Nat.ofDigitChars_ten_toDigits (n := i), hdigits, Nat.ofDigitChars_ten_toDigits]

/-- There is one more temporary file to try than there are entries in the tree. -/
private theorem exists_free (layout : Layout) (s : Slot) (t : FileTree) :
    ∃ i ∈ List.range (t.entries.size + 1),
      (t.stat (temporary (s.path layout) (temporaryMark i))).toOption.isNone = true := by
  by_contra hall
  simp only [not_exists, not_and] at hall
  let locations := (List.range (t.entries.size + 1)).map fun i =>
    (temporary (s.path layout) (temporaryMark i)).location
  have hnodup : locations.Nodup :=
    List.Nodup.map_on (fun i _ j _ h => location_temporary_injective s h) List.nodup_range
  have hsub : locations ⊆ t.entries.keys := by
    intro k hk
    obtain ⟨i, hi, rfl⟩ := List.mem_map.mp hk
    have htaken := hall i hi
    rw [stat] at htaken
    cases hl : t.locate (temporary (s.path layout) (temporaryMark i)) with
    | error e => simp [hl, bind, Except.bind, Except.toOption] at htaken
    | ok l =>
      obtain rfl := location_of_locate hl
      cases he : t.entry? (temporary (s.path layout) (temporaryMark i)).location with
      | none => simp [hl, he, bind, Except.bind, Except.toOption] at htaken
      | some e =>
        rw [location_temporary] at he ⊢
        exact mem_keys_of_isSome (by rw [he]; rfl)
  have hlength := hnodup.length_le_of_subset hsub
  simp only [locations, OrderedMap.keys, OrderedMap.size, List.length_map, List.length_range]
    at hlength
  omega

/-- The way to a temporary file of a slot is the way to the slot, and the file itself is new. -/
theorem avoids_temporary {s : Slot} (hdir : Avoids (s.dir layout).segments gone)
    (hslots : ∀ k, gone k → ∃ s' : Slot, k = s'.location layout) (attempt : Nat) :
    Avoids (temporary (s.path layout) (temporaryMark attempt)).segments gone := by
  rintro k ⟨front, hfront, rfl⟩ hk
  obtain ⟨s', hs'⟩ := hslots _ hk
  rw [path_temporary, (plain_temporaryName s attempt).segments_join] at hfront
  rcases List.prefix_concat_iff.mp hfront with rfl | hfront
  · refine location_temporary_ne s s' attempt (?_ : _ = s'.location layout)
    rw [← hs', path_temporary, Path.location, (plain_temporaryName s attempt).segments_join]
  · exact hdir _ (onWay_holdingDir ⟨front, hfront, rfl⟩) hk

private theorem find?_range {f : Nat → Path} {p : Path → Bool} {m n i : Nat}
    (hi : i ∈ List.range m) (hn : m ≤ n) (hp : p (f i) = true) :
    ((List.range n).map f).find? p = ((List.range m).map f).find? p := by
  obtain ⟨k, rfl⟩ := Nat.exists_eq_add_of_le hn
  rw [List.range_add, List.map_append, List.find?_append]
  have hsome : (((List.range m).map f).find? p).isSome = true :=
    List.find?_isSome.mpr ⟨f i, List.mem_map_of_mem hi, hp⟩
  cases hfound : ((List.range m).map f).find? p with
  | none => simp [hfound] at hsome
  | some q => rfl

/-- However many entries either tree has, the first temporary file that is free is the same. -/
private theorem freshTemporary_eq {s : Slot}
    (hfree : ∀ i, (t'.stat (temporary (s.path layout) (temporaryMark i))).toOption.isNone =
      (t.stat (temporary (s.path layout) (temporaryMark i))).toOption.isNone) :
    t'.freshTemporary (s.path layout) = t.freshTemporary (s.path layout) := by
  have hpredicate (n : Nat) :
      ((List.range n).map (temporary (s.path layout) ∘ temporaryMark)).find?
          (fun q => (t'.stat q).toOption.isNone) =
        ((List.range n).map (temporary (s.path layout) ∘ temporaryMark)).find?
          (fun q => (t.stat q).toOption.isNone) := by
    rw [List.find?_map, List.find?_map]
    exact congrArg (Option.map _) (congrArg (List.find? · _) (funext hfree))
  obtain ⟨i, hi, hfreeI⟩ := exists_free layout s t
  obtain ⟨j, hj, hfreeJ⟩ := exists_free layout s t'
  rw [freshTemporary, freshTemporary]
  rcases Nat.le_total (t.entries.size + 1) (t'.entries.size + 1) with hle | hle
  · rw [hpredicate, find?_range hi hle hfreeI]
  · rw [← hpredicate, find?_range hj hle hfreeJ]

end Slot

namespace FileTree.Lacks

variable {layout : Layout} {gone loose : Location → Prop} {t t' : FileTree}

theorem replace (h : Lacks gone loose t t') {s : Slot} (hdir : Avoids (s.dir layout).segments gone)
    (hslots : ∀ k, gone k → ∃ s' : Slot, k = s'.location layout) (c : Bytes) :
    Mirrors (Lacks gone loose) (t.replace (s.path layout) c) (t'.replace (s.path layout) c) := by
  have hholding : Avoids (holdingDir (s.path layout)).segments gone := fun k hk =>
    hdir k (Slot.onWay_holdingDir hk)
  have htemp := Slot.avoids_temporary hdir hslots
  obtain ⟨r, t₁, t₁', hleft, hright, hfiles⟩ := (h.prepare hholding).parts
  rw [FileTree.replace, FileTree.replace, hleft, hright]
  cases r with
  | error e => exact ⟨rfl, hfiles⟩
  | ok u =>
    have hfresh : t₁'.freshTemporary (s.path layout) = t₁.freshTemporary (s.path layout) := by
      refine Slot.freshTemporary_eq fun i => ?_
      rcases hfiles.stat (htemp i) with heq | ⟨-, m, m', heq, heq'⟩
      · rw [heq]
      · rw [heq, heq']
        rfl
    obtain ⟨attempt, hattempt⟩ := exists_freshTemporary t₁ (s.path layout)
    have hp := htemp attempt
    rw [← hattempt] at hp
    simp only [hfresh]
    generalize t₁.freshTemporary (s.path layout) = temp at hp
    have hcreated := hfiles.createFile hp c
    cases hcreate : t₁.createFile temp c with
    | error e =>
      rw [hcreate] at hcreated
      generalize t₁'.createFile temp c = x' at hcreated
      cases hcreated
      exact ⟨rfl, hfiles⟩
    | ok t₂ =>
      obtain ⟨n, l, htarget, -, -, hput⟩ := puts_of_createFile hcreate
      have htarget₂ := target_mono (fun k hk => (hput.isDirectoryAt k).trans hk) htarget
      rw [hcreate] at hcreated
      generalize t₁'.createFile temp c = x' at hcreated
      cases hcreated with
      | @ok _ t₂' hfiles₂ =>
        have hrenamed := hfiles₂.rename hp (q := s.path layout)
          (by rwa [Slot.segments_path, List.dropLast_concat]) htarget₂
          (by rw [hput.contentAt, if_pos rfl])
        have hremoved := hfiles₂.removeFile hp
        simp only
        generalize t₂.rename temp (s.path layout) = y at hrenamed
        generalize t₂'.rename temp (s.path layout) = y' at hrenamed
        cases hrenamed with
        | ok hfiles₃ => exact ⟨rfl, hfiles₃⟩
        | error e =>
          simp only
          generalize t₂.removeFile temp = z at hremoved
          generalize t₂'.removeFile temp = z' at hremoved
          cases hremoved with
          | ok hfiles₃ => exact ⟨rfl, hfiles₃⟩
          | error e => exact ⟨rfl, hfiles₂⟩

end FileTree.Lacks

end BuildCache
