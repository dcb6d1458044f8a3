import BuildCache.Proofs.FileTree.Frames

/-!
# A file is replaced or left alone

A replacement makes directories, writes a temporary file and moves it into place, and any of these
may fail. Full disks are not seen in a tree, so the writing is given here with a fault that may stop
it. However it ends, the only file that can be another is the destination, and that only if the
replacement succeeds.
-/

namespace BuildCache.FileTree

open BuildCache.Path

/-- A replacement that is stopped, if it is given a fault, once so much of the temporary file is
written. -/
def replaceUntil (fault : Option (Bytes × FileError)) (t : FileTree) (p : Path) (content : Bytes) :
    Except StoreError Unit × FileTree :=
  match t.prepare (holdingDir p) with
  | (.error e, t) => (.error e, t)
  | (.ok (), t) =>
    let temp := t.freshTemporary p
    match t.createFile temp (fault.elim content Prod.fst) with
    | .error e => (.error (.io (temporary p "*") e), t)
    | .ok t =>
      match fault.elim (t.rename temp p) (.error ·.2) with
      | .ok t => (.ok (), t)
      | .error e =>
        match t.removeFile temp with
        | .ok t => (.error (.io p e), t)
        | .error _ => (.error (.io p e), t)

variable {fault : Option (Bytes × FileError)} {t t' t'' : FileTree} {p : Path} {content : Bytes}
  {r : Except StoreError Unit} {k : Location}

theorem replaceUntil_none : t.replaceUntil none p content = t.replace p content := rfl

/-- A location holds what it held, though a directory may have another time. -/
def Stays (t t' : FileTree) (k : Location) : Prop :=
  t'.entry? k = t.entry? k ∨ t.isDirectoryAt k = true ∧ t'.isDirectoryAt k = true

/-- A location held nothing and is a directory now, and the way to a path passes it. -/
structure MadeFor (p : Path) (t t' : FileTree) (k : Location) : Prop where
  vacant : t.entry? k = none
  isDirectoryAt : t'.isDirectoryAt k = true
  onWay : OnWay p.segments k

theorem Stays.refl (t : FileTree) (k : Location) : Stays t t k := .inl rfl

theorem Stays.isDirectoryAt (h : Stays t t' k) : t'.isDirectoryAt k = t.isDirectoryAt k := by
  rcases h with heq | ⟨hdir, hdir'⟩
  · rw [isDirectoryAt_eq, heq, ← isDirectoryAt_eq]
  · rw [hdir, hdir']

theorem Stays.contentAt (h : Stays t t' k) : t'.contentAt k = t.contentAt k := by
  rcases h with heq | ⟨hdir, hdir'⟩
  · rw [FileTree.contentAt, heq, ← FileTree.contentAt]
  · rw [contentAt_eq_none_of_isDirectoryAt hdir, contentAt_eq_none_of_isDirectoryAt hdir']

theorem Stays.trans (h : Stays t t' k) (h' : Stays t' t'' k) : Stays t t'' k := by
  by_cases hdir : t.isDirectoryAt k = true
  · have hdir' : t'.isDirectoryAt k = true := h.isDirectoryAt.trans hdir
    exact .inr ⟨hdir, h'.isDirectoryAt.trans hdir'⟩
  · have heq : t'.entry? k = t.entry? k := h.resolve_right fun h => hdir h.1
    have heq' : t''.entry? k = t'.entry? k :=
      h'.resolve_right fun h' => hdir (h.isDirectoryAt.symm.trans h'.1)
    exact .inl (heq'.trans heq)

theorem MadeFor.trans (h : MadeFor p t t' k) (h' : Stays t' t'' k) : MadeFor p t t'' k :=
  ⟨h.vacant, h'.isDirectoryAt.trans h.isDirectoryAt, h.onWay⟩

theorem MadeFor.contentAt (h : MadeFor p t t' k) : t'.contentAt k = none :=
  contentAt_eq_none_of_isDirectoryAt h.isDirectoryAt

theorem stays_of_agree {touched : Location → Prop} (hagree : Agree touched t t')
    (hcontent : t'.contentAt k = t.contentAt k) (hdir : t'.isDirectoryAt k = t.isDirectoryAt k)
    (htouched : touched k → t.contentAt k = none) : Stays t t' k := by
  by_cases hk : touched k
  · have hnone : t.contentAt k = none := htouched hk
    by_cases hd : t.isDirectoryAt k = true
    · exact .inr ⟨hd, hdir.trans hd⟩
    · rw [Bool.not_eq_true] at hd
      have hvacant : t.entry? k = none := entry?_eq_none_iff.mpr ⟨hd, hnone⟩
      have hvacant' : t'.entry? k = none :=
        entry?_eq_none_iff.mpr ⟨hdir.trans hd, hcontent.trans hnone⟩
      exact .inl (hvacant'.trans hvacant.symm)
  · exact .inl (hagree k hk)

theorem stays_or_madeFor_of_prepare {dir : Path} (h : t.prepare dir = (r, t')) (k : Location) :
    Stays t t' k ∨ MadeFor dir t t' k := by
  have hframe : Region.Frame ⟨fun _ => False, dir.location, OnWay dir.segments, onWay_follow _,
      fun _ _ => False.elim⟩ t t' := Region.frame_prepare h fun k hk => .inr hk
  rcases hframe k id with hsame | hmade
  · exact .inl (.inl hsame)
  · by_cases hdir : t.isDirectoryAt k = true
    · exact .inl (.inr ⟨hdir, hmade.isDirectoryAt⟩)
    · rw [Bool.not_eq_true] at hdir
      exact .inr ⟨entry?_eq_none_iff.mpr ⟨hdir, hmade.noFile⟩, hmade.isDirectoryAt, hmade.way⟩

private theorem contentAt_of_beside {n : Name} {l : Location} (h : t.target p = .ok (some n, l))
    (hk : Beside p k) (hne : k = p.location → t.contentAt k = none) : t.contentAt k = none := by
  rcases hk with hlocation | rfl
  · exact hne hlocation
  · rw [← holder_of_target h]
    exact contentAt_eq_none_of_isDirectoryAt (isDirectoryAt_of_target h)

theorem stays_of_create_remove {temp : Path} (hcreate : t.createFile temp content = .ok t')
    (hremove : t'.removeFile temp = .ok t'') (k : Location) : Stays t t'' k := by
  have halike := alike_of_create_remove hcreate hremove
  have hagree : Agree (Beside temp) t t'' :=
    (agree_createFile hcreate).trans (agree_removeFile hremove)
  obtain ⟨n, l, htarget, -, hvacant, -⟩ := puts_of_createFile hcreate
  apply stays_of_agree hagree (halike.contentAt k) (halike.isDirectoryAt k)
  intro hk
  apply contentAt_of_beside htarget hk
  intro hlocation
  rw [hlocation, ← location_of_target htarget]
  exact (entry?_eq_none_iff.mp hvacant).2

theorem stays_of_create_rename {temp : Path} (hcreate : t.createFile temp content = .ok t')
    (hrename : t'.rename temp p = .ok t'') (hk : k ≠ p.location) : Stays t t'' k := by
  obtain ⟨n, l, htemp, -, hvacant, hput⟩ := puts_of_createFile hcreate
  obtain ⟨m, l', htarget, hputs⟩ := puts_of_create_rename hcreate hrename
  have htemp' : t'.target temp = .ok (some n, l) :=
    target_mono (fun k hk => (hput.isDirectoryAt k).trans hk) htemp
  have hagree : Agree (fun k => Beside temp k ∨ Beside p k) t t'' :=
    ((agree_createFile hcreate).mono fun _ => .inl).trans
      (agree_rename hrename htemp' (by rw [hput.contentAt, if_pos rfl]))
  have hcontent : t''.contentAt k = t.contentAt k := by
    rw [hputs.contentAt, location_of_target htarget, if_neg hk]
  apply stays_of_agree hagree hcontent (hputs.isDirectoryAt k)
  rintro (htouched | htouched)
  · apply contentAt_of_beside htemp htouched
    intro hlocation
    rw [hlocation, ← location_of_target htemp]
    exact (entry?_eq_none_iff.mp hvacant).2
  · apply contentAt_of_beside htarget htouched
    intro hlocation
    contradiction

/-- No temporary file came to be, or it was moved into its place, or it was taken away again. -/
theorem replaceUntil_cases (h : t.replaceUntil fault p content = (r, t')) :
    ∃ prepared t₁, t.prepare (holdingDir p) = (prepared, t₁) ∧
      ((∃ e, r = .error e) ∧ t' = t₁ ∨
        ∃ c t₂, t₁.createFile (t₁.freshTemporary p) c = .ok t₂ ∧
          (r = .ok () ∧ t₁.createFile (t₁.freshTemporary p) content = .ok t₂ ∧
              t₂.rename (t₁.freshTemporary p) p = .ok t' ∨
            (∃ e, r = .error e) ∧ t₂.removeFile (t₁.freshTemporary p) = .ok t')) := by
  cases fault with
  | none =>
    obtain ⟨prepared, t₁, hprepare, hfailed | ⟨t₂, hcreate, hend⟩⟩ := replace_cases h
    · exact ⟨prepared, t₁, hprepare, .inl hfailed⟩
    · refine ⟨prepared, t₁, hprepare, .inr ⟨content, t₂, hcreate, ?_⟩⟩
      exact hend.imp_left fun ⟨hok, hrename⟩ => ⟨hok, hcreate, hrename⟩
  | some stop =>
    obtain ⟨written, cause⟩ := stop
    simp only [replaceUntil, Option.elim_some] at h
    split at h
    · next hprepare =>
      cases h
      exact ⟨_, _, hprepare, .inl ⟨⟨_, rfl⟩, rfl⟩⟩
    · next t₁ hprepare =>
      refine ⟨_, t₁, hprepare, ?_⟩
      split at h
      · cases h
        exact .inl ⟨⟨_, rfl⟩, rfl⟩
      · next t₂ hcreate =>
        obtain ⟨t₃, hremove⟩ := exists_removeFile hcreate
        rw [hremove] at h
        cases h
        exact .inr ⟨written, t₂, hcreate, .inr ⟨⟨_, rfl⟩, hremove⟩⟩

/-- Only the destination of a replacement that succeeds is another file than before. Everywhere
else, and at the destination too if there is an error, there is what was there, or a directory on
the way to the destination that was missing. -/
theorem stays_or_madeFor_of_replaceUntil (h : t.replaceUntil fault p content = (r, t'))
    (hk : r = .ok () → k ≠ p.location) : Stays t t' k ∨ MadeFor (holdingDir p) t t' k := by
  obtain ⟨prepared, t₁, hprepare, hend⟩ := replaceUntil_cases h
  have hmade := stays_or_madeFor_of_prepare hprepare k
  have hstays : Stays t₁ t' k := by
    rcases hend with ⟨-, rfl⟩ | ⟨c, t₂, hcreate, ⟨hok, hwritten, hrename⟩ | ⟨-, hremove⟩⟩
    · exact .refl t' k
    · exact stays_of_create_rename hwritten hrename (hk hok)
    · exact stays_of_create_remove hcreate hremove k
  rcases hmade with hmade | hmade
  · exact .inl (hmade.trans hstays)
  · exact .inr (hmade.trans hstays)

theorem read_of_replaceUntil (h : t.replaceUntil fault p content = (.ok (), t')) :
    t'.read p = .ok content ∧ t'.contentAt p.location = some content := by
  cases fault with
  | none =>
    rw [replaceUntil_none] at h
    obtain ⟨t₁, n, l, -, htarget, hputs⟩ := replace_ok h
    refine ⟨read_of_replace h, ?_⟩
    rw [hputs.contentAt, location_of_target htarget, if_pos rfl]
  | some stop =>
    -- every way through a replacement that is stopped ends in an error
    simp only [replaceUntil, Option.elim_some] at h
    repeat' split at h
    all_goals cases h

/-- Whatever stops a replacement, on whatever tree: with success the destination holds the content,
and with an error it is as it was, unless the path leads through the destination itself. No file is
there, a temporary one or another, that was not there before. -/
theorem replaceUntil_replaces_or_leaves (fault : Option (Bytes × FileError)) (t : FileTree)
    (p : Path) (content : Bytes) (r : Except StoreError Unit) (t' : FileTree)
    (h : t.replaceUntil fault p content = (r, t')) :
    (r = .ok () → t'.read p = .ok content ∧ t'.contentAt p.location = some content) ∧
      (∀ e, r = .error e → ¬OnWay (holdingDir p).segments p.location → Stays t t' p.location) ∧
      (∀ k, (r = .ok () → k ≠ p.location) → Stays t t' k ∨ MadeFor (holdingDir p) t t' k) ∧
      ∀ k c, t'.contentAt k = some c →
        t.contentAt k = some c ∨ r = .ok () ∧ k = p.location ∧ c = content := by
  refine ⟨?_, ?_, fun k => stays_or_madeFor_of_replaceUntil h, ?_⟩
  · rintro rfl
    exact read_of_replaceUntil h
  · rintro e rfl hway
    have hmade := stays_or_madeFor_of_replaceUntil (k := p.location) h (by simp)
    exact hmade.resolve_right fun hmade => hway hmade.onWay
  · intro k c hc
    by_cases hk : r = .ok () ∧ k = p.location
    · obtain ⟨rfl, rfl⟩ := hk
      rw [(read_of_replaceUntil h).2, Option.some.injEq] at hc
      exact .inr ⟨rfl, rfl, hc.symm⟩
    · rcases stays_or_madeFor_of_replaceUntil h fun hok heq => hk ⟨hok, heq⟩ with hstays | hmade
      · exact .inl (hstays.contentAt.symm.trans hc)
      · rw [hmade.contentAt] at hc
        contradiction

end BuildCache.FileTree

namespace BuildCache

open FileTree BuildCache.Path

namespace Sample

/-- A directory with one file. -/
def shelf : FileTree :=
  let dir := Bytes.ofString "d"
  ((FileTree.empty 0).place [dir] (.directory 0)).place [.ofString "f", dir]
    (.file (.ofString "old") 0)

def shelved : Path := .ofString "/d/f"

def addition : Path := .ofString "/e/g"

/-- The disk is full after two bytes. -/
def stopped : Except StoreError Unit × FileTree :=
  shelf.replaceUntil (some (.ofString "ne", .other "No space left on device (os error 28)")) shelved
    (.ofString "new")

def added : Except StoreError Unit × FileTree :=
  shelf.replaceUntil none addition (.ofString "new")

/-- The file that makes its own directory. -/
def looped : Except StoreError Unit × FileTree :=
  (FileTree.empty 0).replace (.ofString "/a/../a") []

end Sample

open Sample in
/-- A full disk leaves the old content, and a new file in a new directory leaves the others. -/
theorem FileTree.replaceUntil_of_full_disk_and_new_directory :
    (∃ e, stopped.1 = .error e) ∧ shelf.Stays stopped.2 shelved.location ∧
      added.1 = .ok () ∧ added.2.read addition = .ok (.ofString "new") ∧
      (shelf.Stays added.2 shelved.location ∨
        MadeFor (holdingDir addition) shelf added.2 shelved.location) := by
  have hfacts : stopped.1.toOption = none ∧ added.1.toOption = some () := by decide +kernel
  have hstopped : ∃ e, stopped.1 = .error e := by
    cases h : stopped.1 with
    | error e => exact ⟨e, rfl⟩
    | ok u => simp [h, Except.toOption] at hfacts
  have hadded : added.1 = .ok () := by
    cases h : added.1 with
    | error e => simp [h, Except.toOption] at hfacts
    | ok u => rfl
  have hway : ¬OnWay (holdingDir shelved).segments shelved.location := by decide
  have hother : shelved.location ≠ addition.location := by decide
  obtain ⟨e, he⟩ := hstopped
  obtain ⟨-, hkept, -⟩ := replaceUntil_replaces_or_leaves _ shelf shelved _ stopped.1 stopped.2
    (Prod.eta stopped).symm
  obtain ⟨hread, -, hrest, -⟩ := replaceUntil_replaces_or_leaves none shelf addition
    (.ofString "new") added.1 added.2 (Prod.eta added).symm
  exact ⟨⟨e, he⟩, hkept e he hway, hadded, (hread hadded).1, hrest shelved.location fun _ => hother⟩

open Sample in
/-- The way to a path may lead through its own place. Its directories are made first, and then the
replacement fails for what was made where the file should be. -/
theorem FileTree.replace_leaves_directory_at_destination :
    ¬∀ (t : FileTree) (p : Path) (content : Bytes) (e : StoreError) (t' : FileTree),
      t.replace p content = (.error e, t') → t.Stays t' p.location := by
  intro hclaim
  have hfacts : looped.1.toOption = none ∧
      (FileTree.empty 0).isDirectoryAt (ofString "/a/../a").location = false ∧
      looped.2.isDirectoryAt (ofString "/a/../a").location = true := by decide +kernel
  cases hresult : looped.1 with
  | ok u => simp [hresult, Except.toOption] at hfacts
  | error e =>
    have hstays := hclaim (FileTree.empty 0) (.ofString "/a/../a") [] e looped.2
      (Prod.ext hresult rfl)
    have hdir := hstays.isDirectoryAt
    rw [hfacts.2.1, hfacts.2.2] at hdir
    contradiction

end BuildCache
