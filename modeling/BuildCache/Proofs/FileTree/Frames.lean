import BuildCache.Proofs.FileTree.Removal
import BuildCache.Proofs.FileTree.Replace
import BuildCache.Proofs.Path.Parents

/-!
# What changes leave alone

A single change touches the entry where its path leads and the time of the directory that holds it.
Seen from a region where a program keeps its files, all that changes outside is that directories on
the way to it are made.
-/

namespace BuildCache.FileTree

open BuildCache.Path

/-- Every entry but the touched ones is as it was, with its time. -/
def Agree (touched : Location → Prop) (t t' : FileTree) : Prop :=
  ∀ k, ¬touched k → t'.entry? k = t.entry? k

namespace Agree

variable {touched touched' : Location → Prop} {t t' t'' : FileTree}

theorem refl (touched : Location → Prop) (t : FileTree) : Agree touched t t := fun _ _ => rfl

theorem trans (h : Agree touched t t') (h' : Agree touched t' t'') : Agree touched t t'' :=
  fun k hk => (h' k hk).trans (h k hk)

theorem mono (h : Agree touched t t') (hsub : ∀ k, touched k → touched' k) :
    Agree touched' t t' :=
  fun k hk => h k (mt (hsub k) hk)

end Agree

variable {t t' : FileTree} {n : Name} {l : Location} {p : Path} {c : Bytes}

theorem agree_place (l : Location) (e : Entry) : Agree (· = l) t (t.place l e) :=
  fun _ hk => entry?_place_other hk

theorem agree_stampDirectory (l : Location) : Agree (· = l) t (t.stampDirectory l) :=
  agree_place l _

theorem agree_prune (n : Name) (l : Location) : Agree (n :: l <:+ ·) t (t.prune (n :: l)) :=
  fun k hk => by rw [entry?_prune, if_neg (mt List.isSuffixOf_iff_suffix.mp hk)]

theorem agree_prune_one (hn : t.isDirectoryAt (n :: l) = false) :
    Agree (· = n :: l) t (t.prune (n :: l)) := by
  intro k hk
  by_cases hsuffix : n :: l <:+ k
  · rw [entry?_eq_none_below hn hsuffix hk, entry?_prune,
      if_pos (List.isSuffixOf_iff_suffix.mpr hsuffix)]
  · exact agree_prune n l k hsuffix

theorem agree_addEntry (e : Entry) :
    Agree (fun k => k = n :: l ∨ k = l) t (t.addEntry n l e) :=
  ((agree_place (n :: l) e).mono fun _ => .inl).trans
    ((agree_stampDirectory l).mono fun _ => .inr)

theorem agree_dropEntry (n : Name) (l : Location) :
    Agree (fun k => n :: l <:+ k ∨ k = l) t (t.dropEntry n l) :=
  ((agree_prune n l).mono fun _ => .inl).trans ((agree_stampDirectory l).mono fun _ => .inr)

theorem agree_dropEntry_one (hn : t.isDirectoryAt (n :: l) = false) :
    Agree (fun k => k = n :: l ∨ k = l) t (t.dropEntry n l) :=
  ((agree_prune_one hn).mono fun _ => .inl).trans ((agree_stampDirectory l).mono fun _ => .inr)

theorem holder_of_target {n? : Option Name} (h : t.target p = .ok (n?, l)) : l = p.holder := by
  simp only [target, bind, Except.bind] at h
  split at h
  · contradiction
  · split at h
    · contradiction
    · next hwalk =>
      rw [holder, ← eq_follow_of_walk hwalk]
      split at h
      · contradiction
      · split at h
        · exact (Prod.mk.inj (Except.ok.inj h)).2.symm
        · split at h
          · exact (Prod.mk.inj (Except.ok.inj h)).2.symm
          · split at h
            · contradiction
            · exact (Prod.mk.inj (Except.ok.inj h)).2.symm

/-- What a change of a path may touch. -/
def Beside (p : Path) (k : Location) : Prop := k = p.location ∨ k = p.holder

theorem beside_of_target (h : t.target p = .ok (some n, l)) {k : Location}
    (hk : k = n :: l ∨ k = l) : Beside p k :=
  hk.imp (fun hk => hk.trans (location_of_target h)) fun hk => hk.trans (holder_of_target h)

theorem agree_createFile (h : t.createFile p c = .ok t') : Agree (Beside p) t t' := by
  obtain ⟨n, l, htarget, -, -, rfl⟩ := eq_of_createFile h
  exact (agree_addEntry _).mono fun _ => beside_of_target htarget

theorem agree_write (h : t.write p c = .ok t') : Agree (Beside p) t t' := by
  obtain ⟨n, l, htarget, -, rfl | rfl⟩ := eq_of_write h
  · exact (agree_place _ _).mono fun _ hk => beside_of_target htarget (.inl hk)
  · exact (agree_addEntry _).mono fun _ => beside_of_target htarget

theorem agree_createDirectory (h : t.createDirectory p = .ok t') : Agree (Beside p) t t' := by
  obtain ⟨n, l, htarget, -, rfl⟩ := eq_of_createDirectory h
  exact (agree_addEntry _).mono fun _ => beside_of_target htarget

theorem agree_removeFile (h : t.removeFile p = .ok t') : Agree (Beside p) t t' := by
  obtain ⟨n, l, c, htarget, hc, rfl⟩ := eq_of_removeFile h
  exact (agree_dropEntry_one (isDirectoryAt_eq_false_of_contentAt hc)).mono fun _ =>
    beside_of_target htarget

theorem agree_rename {q : Path} (h : t.rename p q = .ok t')
    (hp : t.target p = .ok (some n, l)) (hc : t.contentAt (n :: l) = some c) :
    Agree (fun k => Beside p k ∨ Beside q k) t t' := by
  obtain ⟨m, k, hq, ⟨-, rfl⟩ | ⟨hm, rfl⟩⟩ := eq_of_rename h hp hc
  · exact .refl _ _
  · have hn := isDirectoryAt_eq_false_of_contentAt hc
    have hm' : (t.prune (n :: l)).isDirectoryAt (m :: k) = false :=
      ((puts_prune hn).isDirectoryAt _).trans hm
    obtain ⟨modified, hrelocate⟩ := relocate_eq_of_file (m := m) (k := k) hc
    have hfrom : ∀ x, (x = n :: l ∨ x = l) → Beside p x ∨ Beside q x :=
      fun _ hx => .inl (beside_of_target hp hx)
    have hto : ∀ x, (x = m :: k ∨ x = k) → Beside p x ∨ Beside q x :=
      fun _ hx => .inr (beside_of_target hq hx)
    rw [hrelocate]
    exact (((((agree_prune_one hn).mono fun x hx => hfrom x (.inl hx)).trans
      ((agree_prune_one hm').mono fun x hx => hto x (.inl hx))).trans
      ((agree_place _ _).mono fun x hx => hto x (.inl hx))).trans
      ((agree_stampDirectory l).mono fun x hx => hfrom x (.inr hx))).trans
      ((agree_stampDirectory k).mono fun x hx => hto x (.inr hx))

theorem exists_freshTemporary (t : FileTree) (p : Path) :
    ∃ attempt, t.freshTemporary p = temporary p (temporaryMark attempt) := by
  rw [freshTemporary]
  generalize h : List.find? _ _ = found
  cases found with
  | none => exact ⟨0, rfl⟩
  | some q =>
    obtain ⟨attempt, -, rfl⟩ := List.mem_map.mp (List.mem_of_find?_eq_some h)
    exact ⟨attempt, rfl⟩

/-- What a replacement does after the directories are made: its file has the new content or the old
one, and the temporary file beside it is gone. -/
structure Replaces (p temp : Path) (t t' : FileTree) : Prop where
  puts : ∃ content, Puts t t' p.location content
  agree : Agree (fun k => Beside p k ∨ k = temp.holder) t t'
  holder : t.isDirectoryAt temp.holder = true

private theorem replaces_of_puts {temp : Path} {content : Option Bytes}
    (htemp : t.target temp = .ok (some n, l)) (hnone : t.entry? (n :: l) = none)
    (hputs : Puts t t' p.location content)
    (hagree : Agree (fun k => Beside temp k ∨ Beside p k) t t') : Replaces p temp t t' := by
  have hlocation := location_of_target htemp
  refine ⟨⟨content, hputs⟩, fun k hk => ?_,
    holder_of_target htemp ▸ isDirectoryAt_of_target htemp⟩
  obtain ⟨hp, hholder⟩ := not_or.mp hk
  by_cases hkt : k = n :: l
  · -- the temporary file was not there before and is gone
    have hne : k ≠ p.location := fun heq => hp (.inl heq)
    subst hkt
    rw [hnone, entry?_eq_none_iff, hputs.isDirectoryAt, hputs.contentAt, if_neg hne]
    exact entry?_eq_none_iff.mp hnone
  · refine hagree k ?_
    rintro ((heq | heq) | h)
    · exact hkt (heq.trans hlocation.symm)
    · exact hholder heq
    · exact hp h

theorem replaces_of_replace {r : Except StoreError Unit} (h : t.replace p c = (r, t')) :
    ∃ prepared t₁, t.prepare (holdingDir p) = (prepared, t₁) ∧
      (t' = t₁ ∨ ∃ attempt, Replaces p (temporary p (temporaryMark attempt)) t₁ t') := by
  obtain ⟨prepared, t₁, hprepare, ⟨-, rfl⟩ | ⟨t₂, hcreate, hend⟩⟩ := replace_cases h
  · exact ⟨prepared, t', hprepare, .inl rfl⟩
  · obtain ⟨attempt, hattempt⟩ := exists_freshTemporary t₁ p
    obtain ⟨n, l, htemp, -, hnone, hput⟩ := puts_of_createFile hcreate
    have hcreated : Agree (fun k => Beside (t₁.freshTemporary p) k ∨ Beside p k) t₁ t₂ :=
      (agree_createFile hcreate).mono fun _ => .inl
    refine ⟨prepared, t₁, hprepare, .inr ⟨attempt, hattempt ▸ ?_⟩⟩
    rcases hend with ⟨-, hrename⟩ | ⟨-, hremove⟩
    · obtain ⟨m, k, hp, hputs⟩ := puts_of_create_rename hcreate hrename
      rw [location_of_target hp] at hputs
      have htemp₂ := target_mono (fun k hk => (hput.isDirectoryAt k).trans hk) htemp
      exact replaces_of_puts htemp hnone hputs
        (hcreated.trans (agree_rename hrename htemp₂ (by rw [hput.contentAt, if_pos rfl])))
    · have halike := alike_of_create_remove hcreate hremove
      have hputs : Puts t₁ t' p.location (t₁.contentAt p.location) := by
        refine ⟨fun k => ?_, halike.isDirectoryAt⟩
        rw [halike.contentAt]
        split
        · next heq => rw [heq]
        · rfl
      exact replaces_of_puts htemp hnone hputs
        (hcreated.trans ((agree_removeFile hremove).mono fun _ => .inl))

theorem agree_emptyDirectory (l : Location) :
    Agree (l <:+ ·) t (t.emptyDirectory l) := by
  have hfold (names : List Name) (t : FileTree) :
      Agree (l <:+ ·) t (names.foldl (fun t n => t.dropEntry n l) t) := by
    induction names generalizing t with
    | nil => exact .refl _ _
    | cons n names ih =>
      refine ((agree_dropEntry n l).mono ?_).trans (ih _)
      rintro k (hk | rfl)
      · exact (List.suffix_cons n l).trans hk
      · exact List.suffix_refl _
  exact hfold _ t

private theorem agree_removeDirectory (h : t.removeDirectory p = .ok t') :
    Agree (fun k => p.location <:+ k ∨ k = p.holder) t t' := by
  obtain ⟨n, l, htarget, rfl⟩ := eq_of_removeDirectory h
  rw [← location_of_target htarget, ← holder_of_target htarget]
  exact agree_dropEntry n l

theorem agree_removeTree (t : FileTree) (p : Path) :
    Agree (fun k => p.location <:+ k ∨ k = p.holder) t (t.removeTree p).2 := by
  rw [removeTree]
  split
  · exact .refl _ t
  · next l hlocate =>
    obtain rfl := location_of_locate hlocate
    split
    · exact .refl _ t
    · have hemptied : Agree (fun k => p.location <:+ k ∨ k = p.holder) t
          (t.emptyDirectory p.location) := (agree_emptyDirectory _).mono fun _ => .inl
      simp only
      split
      · next hremove => exact hemptied.trans (agree_removeDirectory hremove)
      · exact hemptied
      · exact hemptied

/-- Where a program may work: the locations that are its own, the directory that holds them, and the
way there. -/
structure Region where
  own : Location → Prop
  home : Location
  way : Location → Prop
  way_home : way home
  held : ∀ n k, own (n :: k) → own k ∨ k = home

/-- A directory on the way was made. One that was there before has another time, for the home was
worked in and any other got a directory on the way that it lacked. -/
structure Region.Makes (r : Region) (t t' : FileTree) (k : Location) : Prop where
  way : r.way k
  noFile : t.contentAt k = none
  isDirectoryAt : t'.isDirectoryAt k = true
  grown : t.isDirectoryAt k = true → k = r.home ∨
    ∃ n, r.way (n :: k) ∧ t.entry? (n :: k) = none ∧ t'.isDirectoryAt (n :: k) = true

/-- Outside of a region nothing changed, but for directories that were made on the way to it. -/
def Region.Frame (r : Region) (t t' : FileTree) : Prop :=
  ∀ k, ¬r.own k → t'.entry? k = t.entry? k ∨ r.Makes t t' k

namespace Region

variable {r : Region} {t'' : FileTree}

theorem Frame.refl (r : Region) (t : FileTree) : r.Frame t t := fun _ _ => .inl rfl

private theorem isDirectoryAt_congr {k : Location} (h : t'.entry? k = t.entry? k) :
    t'.isDirectoryAt k = t.isDirectoryAt k := by
  rw [isDirectoryAt_eq, h, ← isDirectoryAt_eq]

theorem Frame.keeps (h : r.Frame t t') {k : Location} (hk : ¬r.own k)
    (hd : t.isDirectoryAt k = true) : t'.isDirectoryAt k = true := by
  rcases h k hk with hsame | hmade
  · exact (isDirectoryAt_congr hsame).trans hd
  · exact hmade.isDirectoryAt

private theorem Frame.lacks (h : r.Frame t t') {k : Location} (hk : ¬r.own k)
    (hnone : t'.entry? k = none) : t.entry? k = none := by
  rcases h k hk with hsame | hmade
  · exact hsame.symm.trans hnone
  · have hsome := entry?_isSome_of_isDirectoryAt hmade.isDirectoryAt
    simp [hnone] at hsome

theorem Frame.trans (h : r.Frame t t') (h' : r.Frame t' t'') : r.Frame t t'' := by
  intro k hk
  have hheld (n : Name) (hn : r.own (n :: k)) : k = r.home :=
    (r.held n k hn).resolve_left hk
  rcases h k hk with hsame | hmade
  · rcases h' k hk with hsame' | hmade'
    · exact .inl (hsame'.trans hsame)
    · -- what was lacking then was lacking at first
      refine .inr ⟨hmade'.way, ?_, hmade'.isDirectoryAt, fun hd => ?_⟩
      · rw [contentAt, ← hsame]
        exact hmade'.noFile
      · rcases hmade'.grown ((isDirectoryAt_congr hsame).trans hd) with hhome | ⟨n, hway, hnone, hd'⟩
        · exact .inl hhome
        · by_cases hn : r.own (n :: k)
          · exact .inl (hheld n hn)
          · exact .inr ⟨n, hway, h.lacks hn hnone, hd'⟩
  · -- what was made first is still there
    refine .inr ⟨hmade.way, hmade.noFile, h'.keeps hk hmade.isDirectoryAt, fun hd => ?_⟩
    rcases hmade.grown hd with hhome | ⟨n, hway, hnone, hd'⟩
    · exact .inl hhome
    · by_cases hn : r.own (n :: k)
      · exact .inl (hheld n hn)
      · exact .inr ⟨n, hway, hnone, h'.keeps hn hd'⟩

/-- Work on what is the region's own. -/
theorem frame_of_agree {touched : Location → Prop} (h : Agree touched t t')
    (htouched : ∀ k, touched k → r.own k ∨ k = r.home)
    (hhome : t.isDirectoryAt r.home = true) (hhome' : t'.isDirectoryAt r.home = true) :
    r.Frame t t' := by
  intro k hk
  by_cases htouch : touched k
  · obtain rfl := (htouched k htouch).resolve_left hk
    exact .inr ⟨r.way_home, contentAt_eq_none_of_isDirectoryAt hhome, hhome', fun _ => .inl rfl⟩
  · exact .inl (h k htouch)

theorem frame_createDirectory (h : t.createDirectory p = .ok t')
    (hway : ∀ k, OnWay p.segments k → r.own k ∨ r.way k) : r.Frame t t' := by
  have hadds := addsDirectories_of_createDirectory h
  obtain ⟨n, l, htarget, hnone, -⟩ := eq_of_createDirectory h
  have hl := isDirectoryAt_of_target htarget
  have hnew := isDirectoryAt_of_createDirectory h htarget
  have hlocation := location_of_target htarget
  have hholder := holder_of_target htarget
  intro k hk
  by_cases htouch : Beside p k
  · have hwayk : r.way k := by
      refine (hway k ?_).resolve_left hk
      rcases htouch with rfl | rfl
      · exact onWay_follow _
      · exact onWay_holder p
    refine .inr ⟨hwayk, ?_, ?_, fun hd => ?_⟩
    · rcases htouch with rfl | rfl
      · exact hlocation ▸ (entry?_eq_none_iff.mp hnone).2
      · exact contentAt_eq_none_of_isDirectoryAt (hholder ▸ hl)
    · rcases htouch with rfl | rfl
      · exact hlocation ▸ hnew
      · exact hholder ▸ hadds.isDirectoryAt l hl
    · rcases htouch with rfl | rfl
      · rw [← hlocation, (entry?_eq_none_iff.mp hnone).1] at hd
        contradiction
      · rw [← hholder] at hk ⊢
        rcases hway (n :: l) (hlocation ▸ onWay_follow _) with hown | hmade
        · exact .inl ((r.held n l hown).resolve_left hk)
        · exact .inr ⟨n, hmade, hnone, hnew⟩
  · exact .inl (agree_createDirectory h k htouch)

theorem frame_createFirst (t : FileTree) {ps : List Path}
    (hway : ∀ p ∈ ps, ∀ k, OnWay p.segments k → r.own k ∨ r.way k) :
    r.Frame t (t.createFirst ps).2 := by
  induction ps generalizing t with
  | nil => exact .refl r t
  | cons p above ih =>
    have habove := ih t fun q hq => hway q (List.mem_cons_of_mem p hq)
    have hone {t t' : FileTree} (h : t.createDirectory p = .ok t') : r.Frame t t' :=
      frame_createDirectory h (hway p List.mem_cons_self)
    rw [createFirst]
    split
    · exact .refl r t
    · split
      · next h => exact hone h
      · split
        · next h => exact h ▸ habove
        · next h =>
          rw [h] at habove
          split
          · next h' => exact habove.trans (hone h')
          · exact habove
      · exact .refl r t

theorem frame_prepare {dir : Path} {result : Except StoreError Unit}
    (h : t.prepare dir = (result, t'))
    (hway : ∀ k, OnWay dir.segments k → r.own k ∨ r.way k) : r.Frame t t' := by
  have hfirst := frame_createFirst (r := r) t fun q (hq : q ∈ dir.ancestors) k hk =>
    hway k (hk.mono (segments_of_mem_ancestors hq))
  rw [prepare, createDirectories] at h
  split at h <;> next h₁ => rw [h₁] at hfirst; cases h; exact hfirst

end Region

end BuildCache.FileTree
