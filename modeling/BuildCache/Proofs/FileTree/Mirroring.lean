import BuildCache.Proofs.FileTree.Lacking

/-!
# Changes of trees that lack some files

A change along a path that does not pass what is lacking ends the same way in both trees and leaves
them related as they were. A file that the second tree lacks may be removed from the first, or put
into both.
-/

namespace BuildCache.FileTree

open BuildCache.Path

/-- Both changes fail for the same reason, or both succeed with related trees. -/
inductive Matches (R : FileTree → FileTree → Prop) :
    Except FileError FileTree → Except FileError FileTree → Prop where
  | error (e : FileError) : Matches R (.error e) (.error e)
  | ok {t t' : FileTree} (h : R t t') : Matches R (.ok t) (.ok t')

/-- Both have the same result and leave related trees. -/
structure Mirrors {α : Type} (R : FileTree → FileTree → Prop) (x x' : α × FileTree) : Prop where
  result : x'.1 = x.1
  files : R x.2 x'.2

theorem Mirrors.parts {α : Type} {R : FileTree → FileTree → Prop} {x x' : α × FileTree}
    (h : Mirrors R x x') : ∃ r t t', x = (r, t) ∧ x' = (r, t') ∧ R t t' :=
  ⟨x.1, x.2, x'.2, rfl, by rw [← h.result], h.files⟩

variable {gone loose : Location → Prop} {t t' : FileTree} {n : Name} {l : Location} {p q : Path}

namespace Lacks

private theorem matches_of_target (h : Lacks gone loose t t') (hp : Avoids p.segments.dropLast gone)
    {e : FileError} {f f' : Name → Location → Except FileError FileTree}
    (hf : ∀ n l, t.target p = .ok (some n, l) → Matches (Lacks gone loose) (f n l) (f' n l)) :
    Matches (Lacks gone loose)
      (t.target p >>= fun x => match x with
        | (none, _) => .error e
        | (some n, l) => f n l)
      (t'.target p >>= fun x => match x with
        | (none, _) => .error e
        | (some n, l) => f' n l) := by
  rw [h.target hp]
  cases htarget : t.target p with
  | error e' => exact .error e'
  | ok x =>
    obtain ⟨n?, l⟩ := x
    cases n? with
    | none => exact .error e
    | some n => exact hf n l htarget

private theorem isSome_of_target (h : Lacks gone loose t t') (hp : Avoids p.segments gone)
    (htarget : t.target p = .ok (some n, l)) :
    (t'.entry? (n :: l)).isSome = (t.entry? (n :: l)).isSome :=
  h.isSome_entry (location_of_target htarget ▸ hp.location)

theorem createDirectory (h : Lacks gone loose t t') (hp : Avoids p.segments gone) :
    Matches (Lacks gone loose) (t.createDirectory p) (t'.createDirectory p) := by
  refine h.matches_of_target hp.dropLast fun n l htarget => ?_
  rw [h.isSome_of_target hp htarget, h.now]
  split
  · exact .error _
  · exact .ok (h.addEntry n l _)

theorem createFile (h : Lacks gone loose t t') (hp : Avoids p.segments gone) (c : Bytes) :
    Matches (Lacks gone loose) (t.createFile p c) (t'.createFile p c) := by
  refine h.matches_of_target hp.dropLast fun n l htarget => ?_
  rw [h.isSome_of_target hp htarget, h.now]
  split
  · exact .error _
  · split
    · exact .error _
    · exact .ok (h.addEntry n l _)

theorem write (h : Lacks gone loose t t') (hp : Avoids p.segments gone) (c : Bytes) :
    Matches (Lacks gone loose) (t.write p c) (t'.write p c) := by
  refine h.matches_of_target hp.dropLast fun n l htarget => ?_
  rw [h.isSome_of_target hp htarget, h.now, h.isDirectoryAt]
  split
  · exact .error _
  · split
    · exact .ok (h.place _ _)
    · exact .ok (h.addEntry n l _)

theorem createFirst (h : Lacks gone loose t t') {ps : List Path}
    (hps : ∀ p ∈ ps, Avoids p.segments gone) :
    Mirrors (Lacks gone loose) (t.createFirst ps) (t'.createFirst ps) := by
  induction ps generalizing t t' with
  | nil => exact ⟨rfl, h⟩
  | cons p above ih =>
    obtain ⟨hp, habove⟩ := List.forall_mem_cons.mp hps
    rw [FileTree.createFirst, FileTree.createFirst]
    split
    · exact ⟨rfl, h⟩
    · have hone {t t' : FileTree} (h : Lacks gone loose t t') := h.createDirectory hp
      have hfirst := hone h
      generalize t.createDirectory p = x at hfirst
      generalize t'.createDirectory p = x' at hfirst
      cases hfirst with
      | ok hmade => exact ⟨rfl, hmade⟩
      | error e =>
        by_cases he : e = .notFound
        · subst he
          obtain ⟨r, t₁, t₁', hleft, hright, hfiles⟩ := (ih h habove).parts
          rw [hleft, hright]
          cases r with
          | error e => exact ⟨rfl, hfiles⟩
          | ok u =>
            have hlast := hone hfiles
            have hthere := hfiles.isDirectory hp
            simp only
            generalize t₁.createDirectory p = z at hlast
            generalize t₁'.createDirectory p = z' at hlast
            cases hlast with
            | ok hmade => exact ⟨rfl, hmade⟩
            | error e => exact ⟨by simp only [hthere], hfiles⟩
        · have hthere := h.isDirectory hp
          cases e with
          | notFound => exact absurd rfl he
          | _ => exact ⟨by simp only [hthere], h⟩

theorem prepare (h : Lacks gone loose t t') (hp : Avoids p.segments gone) :
    Mirrors (Lacks gone loose) (t.prepare p) (t'.prepare p) := by
  have hancestors (q : Path) (hq : q ∈ p.ancestors) : Avoids q.segments gone :=
    hp.mono (segments_of_mem_ancestors hq)
  obtain ⟨r, t₁, t₁', hleft, hright, hfiles⟩ := (h.createFirst hancestors).parts
  rw [FileTree.prepare, FileTree.prepare, createDirectories, createDirectories, hleft, hright]
  cases r with
  | ok u => exact ⟨rfl, hfiles⟩
  | error e => exact ⟨rfl, hfiles⟩

/-- A file is removed from both trees or from neither, or else the second tree lacks it and does not
find it. -/
theorem removeFile_or (h : Lacks gone loose t t') (hp : Avoids p.segments.dropLast gone)
    (hgone : gone p.location → p.endsInSlash = false ∧ loose p.holder) :
    Matches (Lacks gone loose) (t.removeFile p) (t'.removeFile p) ∨
      gone p.location ∧ ∃ t₁, t.removeFile p = .ok t₁ ∧ t'.removeFile p = .error .notFound ∧
        Lacks gone loose t₁ t' := by
  rw [FileTree.removeFile, FileTree.removeFile, h.target hp]
  cases htarget : t.target p with
  | error e => exact .inl (.error e)
  | ok x =>
    obtain ⟨n?, l⟩ := x
    cases n? with
    | none => exact .inl (.error _)
    | some n =>
      have hdir := h.isDirectoryAt (n :: l)
      have he := h.entry (n :: l)
      rw [isDirectoryAt_eq, isDirectoryAt_eq] at hdir
      simp only [bind, Except.bind]
      rw [← location_of_target htarget, ← holder_of_target htarget] at hgone
      rw [← location_of_target htarget]
      cases hentry : t.entry? (n :: l) with
      | none =>
        rw [hentry] at he
        generalize t'.entry? (n :: l) = e?' at he
        cases he
        exact .inl (.error _)
      | some e =>
        rw [hentry] at he
        cases hentry' : t'.entry? (n :: l) with
        | none =>
          rw [hentry'] at he
          cases he with
          | gone hg c m =>
            obtain ⟨hslash, hloose⟩ := hgone hg
            have hn : t.isDirectoryAt (n :: l) = false := by rw [isDirectoryAt_eq, hentry]; rfl
            exact .inr ⟨hg, t.dropEntry n l, by simp [hslash], rfl,
              h.dropEntry_left hn hentry' (isDirectoryAt_of_target htarget) hloose⟩
        | some e' =>
          rw [hentry'] at he
          cases he with
          | stamped => exact .inl (.error _)
          | same =>
            cases e with
            | directory => exact .inl (.error _)
            | file c m =>
              simp only
              split
              · exact .inl (.error _)
              · exact .inl (.ok (h.dropEntry n l))

theorem removeFile (h : Lacks gone loose t t') (hp : Avoids p.segments gone) :
    Matches (Lacks gone loose) (t.removeFile p) (t'.removeFile p) :=
  (h.removeFile_or hp.dropLast fun hg => absurd hg hp.location).resolve_right fun hg =>
    hp.location hg.1

theorem discard (h : Lacks gone loose t t') (hp : Avoids p.segments.dropLast gone)
    (hgone : gone p.location → p.endsInSlash = false ∧ loose p.holder) :
    Lacks gone loose (t.discard p) (t'.discard p) := by
  rw [FileTree.discard, FileTree.discard]
  rcases h.removeFile_or hp hgone with hboth | ⟨-, t₁, hleft, hright, hfiles⟩
  · generalize t.removeFile p = x at hboth
    generalize t'.removeFile p = x' at hboth
    cases hboth with
    | error => exact h
    | ok hfiles => exact hfiles
  · rw [hleft, hright]
    exact hfiles

theorem discard_right (h : Lacks gone loose t t') (hgone : gone p.location)
    (hloose : loose p.holder) : Lacks gone loose t (t'.discard p) := by
  rw [FileTree.discard]
  cases hremove : t'.removeFile p with
  | error e => exact h
  | ok t₁ =>
    obtain ⟨n, l, c, htarget, hc, rfl⟩ := eq_of_removeFile hremove
    rw [← location_of_target htarget] at hgone
    rw [← holder_of_target htarget] at hloose
    exact h.dropEntry_right hc hgone (isDirectoryAt_of_target htarget) hloose

/-- A file is moved in both trees alike, also to a place where the second lacks one. -/
theorem rename (h : Lacks gone loose t t') (hp : Avoids p.segments gone)
    (hq : Avoids q.segments.dropLast gone) (hsource : t.target p = .ok (some n, l)) {c : Bytes}
    (hc : t.contentAt (n :: l) = some c) :
    Matches (Lacks gone loose) (t.rename p q) (t'.rename p q) := by
  obtain ⟨modified, hfile⟩ := exists_file_of_contentAt hc
  have hfile' := h.entry?_of_file (location_of_target hsource ▸ hp.location) hfile
  have hsource' : t'.target p = .ok (some n, l) := (h.target hp.dropLast).trans hsource
  rw [FileTree.rename, FileTree.rename, hsource, hsource', h.target hq]
  cases htarget : t.target q with
  | error e => exact .error e
  | ok x =>
    obtain ⟨m?, k⟩ := x
    cases m? with
    | none => exact .error _
    | some m =>
      have hdir := h.isDirectoryAt (m :: k)
      rw [isDirectoryAt_eq, isDirectoryAt_eq] at hdir
      simp only [bind, Except.bind, hfile, hfile', hdir]
      split
      · exact .error _
      · split
        · exact .ok h
        · split
          · exact .error _
          · rw [relocate_of_file hfile, relocate_of_file hfile']
            exact .ok (((((h.prune n l).prune m k).place _ _).stampDirectory l).stampDirectory k)

private theorem now_emptyDirectory (t : FileTree) (l : Location) :
    (t.emptyDirectory l).now = t.now := by
  rw [FileTree.emptyDirectory]
  generalize t.childrenAt l = names
  induction names generalizing t with
  | nil => rfl
  | cons n names ih =>
    rw [List.foldl_cons, ih, FileTree.dropEntry, now_stampDirectory, now_prune]

theorem emptyDirectory (h : Lacks gone loose t t') (hl : t.isDirectoryAt l = true)
    (hloose : loose l) : Lacks gone loose (t.emptyDirectory l) (t'.emptyDirectory l) := by
  have hl' : t'.isDirectoryAt l = true := (h.isDirectoryAt l).trans hl
  refine h.of_entries (by rw [now_emptyDirectory, now_emptyDirectory, h.now]) fun k => ?_
  by_cases hk : l <:+ k
  · obtain ⟨names, rfl⟩ := hk
    cases hnames : names.getLast? with
    | none =>
      obtain rfl : names = [] := List.getLast?_eq_none_iff.mp hnames
      obtain ⟨m, hm⟩ := exists_directory (isDirectoryAt_emptyDirectory_self hl)
      obtain ⟨m', hm'⟩ := exists_directory (isDirectoryAt_emptyDirectory_self hl')
      rw [List.nil_append, hm, hm']
      exact .inr (.stamped hloose _ _)
    | some n =>
      obtain ⟨front, rfl⟩ := List.getLast?_eq_some_iff.mp hnames
      have hbelow : n :: l <:+ front ++ [n] ++ l := ⟨front, by simp⟩
      rw [entry?_emptyDirectory hl hbelow, entry?_emptyDirectory hl' hbelow]
      exact .inr (.same none)
  · exact .inl ⟨agree_emptyDirectory l k hk, agree_emptyDirectory l k hk⟩

private theorem childrenAt_emptyDirectory (hl : t.isDirectoryAt l = true) :
    (t.emptyDirectory l).childrenAt l = [] := by
  refine List.eq_nil_iff_forall_not_mem.mpr fun n hn => ?_
  have hsome := entry?_isSome_of_mem_childrenAt hn
  rw [entry?_emptyDirectory hl (List.suffix_refl _)] at hsome
  cases hsome

private theorem removeDirectory (h : Lacks gone loose t t') (hp : Avoids p.segments gone)
    (hempty : t.childrenAt p.location = []) (hempty' : t'.childrenAt p.location = []) :
    Matches (Lacks gone loose) (t.removeDirectory p) (t'.removeDirectory p) := by
  refine h.matches_of_target hp.dropLast fun n l htarget => ?_
  have hlocation := location_of_target htarget
  rw [hlocation, hempty, hempty']
  have he := h.entry p.location
  generalize t.entry? p.location = e? at he
  generalize t'.entry? p.location = e?' at he
  cases he with
  | stamped => exact .ok (h.dropEntry n l)
  | gone hg => exact absurd hg hp.location
  | same =>
    rcases e? with _ | ⟨c, modified⟩ | modified
    · exact .error _
    · exact .error _
    · exact .ok (h.dropEntry n l)

theorem removeTree (h : Lacks gone loose t t') (hp : Avoids p.segments gone)
    (hloose : loose p.location) :
    Mirrors (Lacks gone loose) (t.removeTree p) (t'.removeTree p) := by
  rw [FileTree.removeTree, FileTree.removeTree, h.locate hp]
  cases hl : t.locate p with
  | error e => exact ⟨rfl, h⟩
  | ok l =>
    obtain rfl := location_of_locate hl
    cases hdir : t.isDirectoryAt p.location with
    | false => exact ⟨by simp [h.isDirectoryAt, hdir], by simpa [h.isDirectoryAt, hdir] using h⟩
    | true =>
      have hdir' : t'.isDirectoryAt p.location = true := (h.isDirectoryAt _).trans hdir
      have hemptied := h.emptyDirectory hdir hloose
      have hremoved := hemptied.removeDirectory hp (childrenAt_emptyDirectory hdir)
        (childrenAt_emptyDirectory hdir')
      simp only [hdir, hdir', Bool.not_true, Bool.false_eq_true, if_false]
      generalize (t.emptyDirectory p.location).removeDirectory p = x at hremoved
      generalize (t'.emptyDirectory p.location).removeDirectory p = x' at hremoved
      cases hremoved with
      | ok hfiles => exact ⟨rfl, hfiles⟩
      | error e => cases e <;> exact ⟨rfl, hemptied⟩

theorem wait (h : Lacks gone loose t t') (nanoseconds : Int) :
    Lacks gone loose (t.wait nanoseconds) (t'.wait nanoseconds) := by
  have hentry (t : FileTree) (k : Location) :
      FileTree.entry? (t.wait nanoseconds) k = t.entry? k := by
    cases k <;> rfl
  exact h.of_entries (congrArg (· + nanoseconds) h.now) fun k => .inl ⟨hentry t k, hentry t' k⟩

theorem touch (h : Lacks gone loose t t') (hp : Avoids p.segments gone) (modified : Int) :
    Matches (Lacks gone loose) (t.touch p modified) (t'.touch p modified) := by
  rw [FileTree.touch, FileTree.touch, h.locate hp]
  cases hl : t.locate p with
  | error e => exact .error e
  | ok l =>
    obtain rfl := location_of_locate hl
    have he := h.entry p.location
    simp only [bind, Except.bind]
    generalize t.entry? p.location = e? at he
    generalize t'.entry? p.location = e?' at he
    cases he with
    | stamped => exact .ok (h.place _ _)
    | gone hg => exact absurd hg hp.location
    | same =>
      cases e? with
      | none => exact .error _
      | some e => exact .ok (h.place _ _)

end Lacks

end BuildCache.FileTree
