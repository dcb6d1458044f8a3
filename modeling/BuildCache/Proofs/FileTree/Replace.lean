import BuildCache.Proofs.FileTree.Change

/-!
# Replacing and discarding files

A file that is replaced has the new content or the old one. The temporary file is gone in either
case, and of the rest only missing directories may have appeared.
-/

namespace BuildCache.FileTree

open BuildCache.Path

theorem addsDirectories_createFirst (t : FileTree) (ps : List Path) :
    AddsDirectories t (t.createFirst ps).2 := by
  induction ps generalizing t with
  | nil => exact .refl t
  | cons p above ih =>
    rw [createFirst]
    split
    · exact .refl t
    · have habove := ih t
      split
      · next h => exact addsDirectories_of_createDirectory h
      · split
        · next h =>
          rw [h] at habove
          exact habove
        · next h =>
          rw [h] at habove
          split
          · next h' => exact habove.trans (addsDirectories_of_createDirectory h')
          · exact habove
      · exact .refl t

theorem addsDirectories_prepare {t t' : FileTree} {dir : Path} {r : Except StoreError Unit}
    (h : t.prepare dir = (r, t')) : AddsDirectories t t' := by
  have hfirst := addsDirectories_createFirst t dir.ancestors
  rw [prepare, createDirectories] at h
  split at h <;> next t₁ h₁ => rw [h₁] at hfirst; cases h; exact hfirst

private theorem filter_entries_of_file {t : FileTree} {n : Name} {l : Location} {e : Entry}
    {c : Bytes} (he : t.entry? (n :: l) = some e) (hc : t.contentAt (n :: l) = some c) :
    (t.entries.entries.filter fun x => (n :: l).isSuffixOf x.1) = [(n :: l, e)] := by
  have hmem : (n :: l, e) ∈ t.entries.entries := by
    obtain ⟨k, hk, hcmp⟩ := OrderedMap.get?_eq_some_iff.mp he
    rw [Std.LawfulEqCmp.compare_eq_iff_eq] at hcmp
    exact hcmp ▸ hk
  have hall : ∀ x ∈ t.entries.entries.filter fun x => (n :: l).isSuffixOf x.1,
      x = (n :: l, e) := by
    rintro ⟨k, e'⟩ hx
    obtain ⟨hx, hs⟩ := List.mem_filter.mp hx
    have hget : t.entries.get? k = some e' := OrderedMap.get?_of_mem_entries hx
    by_cases hk : k = n :: l
    · subst hk
      have he' : t.entries.get? (n :: l) = some e := he
      rw [hget, Option.some.injEq] at he'
      rw [he']
    · have hnone := entry?_eq_none_below (isDirectoryAt_eq_false_of_contentAt hc)
        (List.isSuffixOf_iff_suffix.mp hs) hk
      cases k with
      | nil => simp at hs
      | cons m k => simp [entry?_cons, hget] at hnone
  have hsorted := t.entries.sorted.filter fun x => (n :: l).isSuffixOf x.1
  have hin : (n :: l, e) ∈ t.entries.entries.filter fun x => (n :: l).isSuffixOf x.1 :=
    List.mem_filter.mpr ⟨hmem, by simp⟩
  match hf : t.entries.entries.filter fun x => (n :: l).isSuffixOf x.1 with
  | [] => simp [hf] at hin
  | [x] =>
    rw [hf] at hall
    rw [hf, hall x (by simp)]
  | x :: y :: rest =>
    rw [hf] at hall hsorted
    have hlt := (List.pairwise_cons.mp hsorted).1 y (by simp)
    simp [hall x (by simp), hall y (by simp)] at hlt

theorem relocate_of_file {t : FileTree} {n m : Name} {l k : Location} {c : Bytes} {modified : Int}
    (he : t.entry? (n :: l) = some (.file c modified)) : t.relocate (n :: l) (m :: k) =
      ((((t.prune (n :: l)).prune (m :: k)).place (m :: k) (.file c modified)).stampDirectory
        l).stampDirectory k := by
  have hc : t.contentAt (n :: l) = some c := by rw [contentAt, he]; rfl
  simp [relocate, filter_entries_of_file he hc]

theorem relocate_eq_of_file {t : FileTree} {n m : Name} {l k : Location} {c : Bytes}
    (hc : t.contentAt (n :: l) = some c) : ∃ modified, t.relocate (n :: l) (m :: k) =
      ((((t.prune (n :: l)).prune (m :: k)).place (m :: k) (.file c modified)).stampDirectory
        l).stampDirectory k := by
  obtain ⟨modified, he⟩ := exists_file_of_contentAt hc
  exact ⟨modified, relocate_of_file he⟩

theorem eq_of_rename {t t' : FileTree} {p q : Path} {n : Name} {l : Location} {c : Bytes}
    (h : t.rename p q = .ok t') (hp : t.target p = .ok (some n, l))
    (hc : t.contentAt (n :: l) = some c) :
    ∃ m k, t.target q = .ok (some m, k) ∧ (n :: l = m :: k ∧ t' = t ∨
      t.isDirectoryAt (m :: k) = false ∧ t' = t.relocate (n :: l) (m :: k)) := by
  rw [rename, hp] at h
  cases hq : t.target q with
  | error e => simp [hq, bind, Except.bind] at h
  | ok x =>
    obtain ⟨m?, k⟩ := x
    cases m? with
    | none => simp [hq, bind, Except.bind] at h
    | some m =>
      refine ⟨m, k, rfl, ?_⟩
      simp only [hq, bind, Except.bind] at h
      have hdir := isDirectoryAt_eq_false_of_contentAt hc
      split at h
      · contradiction
      · split at h
        · contradiction
        · split at h
          · next heq =>
            cases h
            exact .inl ⟨heq, rfl⟩
          · split at h
            · contradiction
            · next hthere =>
              cases h
              refine .inr ⟨?_, rfl⟩
              rw [isDirectoryAt_eq]
              simpa using hthere
      · next he =>
        rw [isDirectoryAt_eq, he] at hdir
        contradiction

private theorem relocate_file {t : FileTree} {n m : Name} {l k : Location} {c : Bytes}
    (hc : t.contentAt (n :: l) = some c) (hk : t.isDirectoryAt k = true)
    (hm : t.isDirectoryAt (m :: k) = false) :
    (∀ x, (t.relocate (n :: l) (m :: k)).contentAt x =
      if x = m :: k then some c else if x = n :: l then none else t.contentAt x) ∧
    ∀ x, (t.relocate (n :: l) (m :: k)).isDirectoryAt x = t.isDirectoryAt x := by
  have hl : t.isDirectoryAt l = true := isDirectoryAt_of_contentAt_cons hc
  have hsource := puts_prune (isDirectoryAt_eq_false_of_contentAt hc)
  have htarget := puts_prune ((hsource.isDirectoryAt _).trans hm)
  have hk' : ((t.prune (n :: l)).prune (m :: k)).isDirectoryAt k = true :=
    (htarget.isDirectoryAt k).trans ((hsource.isDirectoryAt k).trans hk)
  obtain ⟨modified, hrelocate⟩ := relocate_eq_of_file (m := m) (k := k) hc
  have hplaced := puts_place_file (c := c) modified hk'
    ((htarget.isDirectoryAt _).trans ((hsource.isDirectoryAt _).trans hm))
  have hstamped := (hplaced.stampDirectory
    ((htarget.isDirectoryAt l).trans ((hsource.isDirectoryAt l).trans hl))).stampDirectory hk'
  rw [hrelocate]
  constructor
  · intro x
    rw [hstamped.contentAt, htarget.contentAt, hsource.contentAt]
    by_cases hx : x = m :: k <;> simp [hx]
  · intro x
    rw [hstamped.isDirectoryAt, htarget.isDirectoryAt, hsource.isDirectoryAt]

theorem contentAt_of_rename {t t' : FileTree} {p q : Path} {n : Name} {l : Location} {c : Bytes}
    (h : t.rename p q = .ok t') (hp : t.target p = .ok (some n, l))
    (hc : t.contentAt (n :: l) = some c) :
    ∃ m k, t.target q = .ok (some m, k) ∧
      (∀ x, t'.contentAt x =
        if x = m :: k then some c else if x = n :: l then none else t.contentAt x) ∧
      ∀ x, t'.isDirectoryAt x = t.isDirectoryAt x := by
  obtain ⟨m, k, hq, ⟨heq, rfl⟩ | ⟨hm, rfl⟩⟩ := eq_of_rename h hp hc
  · refine ⟨m, k, hq, fun x => ?_, fun x => rfl⟩
    by_cases hx : x = m :: k
    · rw [if_pos hx, hx, ← heq, hc]
    · rw [if_neg hx, heq, if_neg hx]
  · exact ⟨m, k, hq, relocate_file hc (isDirectoryAt_of_target hq) hm⟩

theorem exists_removeFile {t t' : FileTree} {p : Path} {content : Bytes}
    (h : t.createFile p content = .ok t') : ∃ t'', t'.removeFile p = .ok t'' := by
  obtain ⟨n, l, htarget, hslash, hnone, hput⟩ := puts_of_createFile h
  have htarget' := target_mono (fun k hk => (hput.isDirectoryAt k).trans hk) htarget
  have hc : t'.contentAt (n :: l) = some content := by rw [hput.contentAt, if_pos rfl]
  obtain ⟨modified, he⟩ := exists_file_of_contentAt hc
  exact ⟨t'.dropEntry n l, by simp [removeFile, htarget', he, hslash, bind, Except.bind]⟩

/-- Nothing was written, the new file was moved into its place, or it was taken away again. -/
theorem replace_cases {t t' : FileTree} {p : Path} {content : Bytes} {r : Except StoreError Unit}
    (h : t.replace p content = (r, t')) :
    ∃ prepared t₁, t.prepare (holdingDir p) = (prepared, t₁) ∧
      ((∃ e, r = .error e) ∧ t' = t₁ ∨
        ∃ t₂, t₁.createFile (t₁.freshTemporary p) content = .ok t₂ ∧
          (r = .ok () ∧ t₂.rename (t₁.freshTemporary p) p = .ok t' ∨
            (∃ e, r = .error e) ∧ t₂.removeFile (t₁.freshTemporary p) = .ok t')) := by
  rw [replace] at h
  split at h
  · next hprepare =>
    cases h
    exact ⟨_, _, hprepare, .inl ⟨⟨_, rfl⟩, rfl⟩⟩
  · next t₁ hprepare =>
    refine ⟨_, _, hprepare, ?_⟩
    simp only at h
    split at h
    · cases h
      exact .inl ⟨⟨_, rfl⟩, rfl⟩
    · next t₂ hcreate =>
      refine .inr ⟨t₂, hcreate, ?_⟩
      split at h
      · next hrename =>
        cases h
        exact .inl ⟨rfl, hrename⟩
      · split at h
        · next hremove =>
          cases h
          exact .inr ⟨⟨_, rfl⟩, hremove⟩
        · next hremove =>
          obtain ⟨t₃, hremoved⟩ := exists_removeFile hcreate
          rw [hremove] at hremoved
          contradiction

/-- A temporary file that was created and removed again was never there. -/
theorem alike_of_create_remove {t t₁ t' : FileTree} {p : Path} {content : Bytes}
    (hcreate : t.createFile p content = .ok t₁) (hremove : t₁.removeFile p = .ok t') :
    Alike t t' := by
  obtain ⟨n, l, htarget, -, hnone, hput⟩ := puts_of_createFile hcreate
  have htarget₁ := target_mono (fun k hk => (hput.isDirectoryAt k).trans hk) htarget
  obtain ⟨n', l', c, htarget', -, hput'⟩ := puts_of_removeFile hremove
  obtain ⟨rfl, rfl⟩ : n = n' ∧ l = l' := by simpa [htarget₁] using htarget'
  refine ⟨fun k => ?_, fun k => ?_⟩
  · rw [hput'.contentAt, hput.contentAt]
    by_cases hk : k = n :: l
    · simp [hk, (entry?_eq_none_iff.mp hnone).2]
    · simp [hk]
  · rw [hput'.isDirectoryAt, hput.isDirectoryAt]

theorem puts_of_create_rename {t t₁ t' : FileTree} {p q : Path} {content : Bytes}
    (hcreate : t.createFile p content = .ok t₁) (hrename : t₁.rename p q = .ok t') :
    ∃ n l, t.target q = .ok (some n, l) ∧ Puts t t' (n :: l) (some content) := by
  obtain ⟨n', l', htemp, -, hnone, hput⟩ := puts_of_createFile hcreate
  have htemp₁ := target_mono (fun k hk => (hput.isDirectoryAt k).trans hk) htemp
  obtain ⟨n, l, htarget, hcontent, hdirs⟩ :=
    contentAt_of_rename hrename htemp₁ (by rw [hput.contentAt, if_pos rfl])
  refine ⟨n, l, target_mono (fun k hk => (hput.isDirectoryAt k).symm.trans hk) htarget, ?_, ?_⟩
  · intro k
    rw [hcontent, hput.contentAt]
    by_cases hk : k = n' :: l'
    · simp [hk, (entry?_eq_none_iff.mp hnone).2]
    · simp [hk]
  · intro k
    rw [hdirs, hput.isDirectoryAt]

theorem replace_ok {t t' : FileTree} {p : Path} {content : Bytes}
    (h : t.replace p content = (.ok (), t')) :
    ∃ t₁ n l, AddsDirectories t t₁ ∧ t₁.target p = .ok (some n, l) ∧
      Puts t₁ t' (n :: l) (some content) := by
  obtain ⟨prepared, t₁, hprepare, ⟨⟨e, he⟩, -⟩ | ⟨t₂, hcreate, hend⟩⟩ := replace_cases h
  · cases he
  · rcases hend with ⟨-, hrename⟩ | ⟨⟨e, he⟩, -⟩
    · obtain ⟨n, l, htarget, hputs⟩ := puts_of_create_rename hcreate hrename
      exact ⟨t₁, n, l, addsDirectories_prepare hprepare, htarget, hputs⟩
    · cases he

theorem replace_error {t t' : FileTree} {p : Path} {content : Bytes} {e : StoreError}
    (h : t.replace p content = (.error e, t')) : AddsDirectories t t' := by
  obtain ⟨prepared, t₁, hprepare, ⟨-, rfl⟩ | ⟨t₂, hcreate, hend⟩⟩ := replace_cases h
  · exact addsDirectories_prepare hprepare
  · rcases hend with ⟨hr, -⟩ | ⟨-, hremove⟩
    · cases hr
    · exact (addsDirectories_prepare hprepare).trans
        (alike_of_create_remove hcreate hremove).addsDirectories

theorem read_of_target {t : FileTree} {p : Path} {n : Name} {l : Location} {c : Bytes}
    (h : t.target p = .ok (some n, l)) (hslash : p.endsInSlash = false)
    (hc : t.contentAt (n :: l) = some c) : t.read p = .ok c := by
  have hdir := isDirectoryAt_of_target h
  obtain ⟨hspelling, hlength, hplain, front, hsegments, hwalk⟩ := walk_of_target h
  obtain ⟨modified, hentry⟩ := exists_file_of_contentAt hc
  have hlast : t.walk l [n] = .ok (n :: l) := by
    simp [walk, hdir, hplain.ne_dot, hplain.ne_dotDot, Nat.not_lt.mpr hlength, hentry]
  have hlocate : t.locate p = .ok (n :: l) := by
    simp [locate, bind, Except.bind, hspelling, hsegments, walk_append, hwalk, hlast, hslash]
  simp [FileTree.read, stat, bind, Except.bind, hlocate, hentry]

theorem not_endsInSlash_of_rename {t t' : FileTree} {p q : Path} {n : Name} {l : Location}
    {c : Bytes} (h : t.rename p q = .ok t') (hp : t.target p = .ok (some n, l))
    (hc : t.contentAt (n :: l) = some c) : q.endsInSlash = false := by
  obtain ⟨modified, hentry⟩ := exists_file_of_contentAt hc
  rw [rename, hp] at h
  cases hq : t.target q with
  | error e => simp [hq, bind, Except.bind] at h
  | ok x =>
    obtain ⟨m?, k⟩ := x
    cases m? with
    | none => simp [hq, bind, Except.bind] at h
    | some m =>
      simp only [hq, bind, Except.bind, hentry] at h
      split at h
      · contradiction
      · next hslash => simp_all

theorem read_of_replace {t t' : FileTree} {p : Path} {content : Bytes}
    (h : t.replace p content = (.ok (), t')) : t'.read p = .ok content := by
  obtain ⟨prepared, t₁, -, ⟨⟨e, he⟩, -⟩ | ⟨t₂, hcreate, ⟨-, hrename⟩ | ⟨⟨e, he⟩, -⟩⟩⟩ :=
    replace_cases h
  · cases he
  · obtain ⟨n, l, htarget, hputs⟩ := puts_of_create_rename hcreate hrename
    obtain ⟨m, k, htemp, -, -, hput⟩ := puts_of_createFile hcreate
    have htemp₂ := target_mono (fun k hk => (hput.isDirectoryAt k).trans hk) htemp
    have hslash := not_endsInSlash_of_rename hrename htemp₂ (by rw [hput.contentAt, if_pos rfl])
    have htarget' := target_mono (fun k hk => (hputs.isDirectoryAt k).trans hk) htarget
    exact read_of_target htarget' hslash (by rw [hputs.contentAt, if_pos rfl])
  · cases he

end BuildCache.FileTree
