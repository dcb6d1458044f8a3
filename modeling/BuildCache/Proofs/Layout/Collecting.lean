import BuildCache.Proofs.Layout.Clearing
import BuildCache.Proofs.Looking
import BuildCache.Proofs.Path.Ancestors

/-!
# What a collection takes

A collection goes through the names of one directory, and what it does with one of them makes no
difference to the others. So the files that are gone in the end are those that it would have taken
from the directory as it was, and a second collection finds none.
-/

namespace BuildCache

open FileTree BuildCache.Path

namespace FileTree

variable {names : List Name} {l : Location} {t t' t'' : FileTree} {p : Path} {n m : Name}

/-- The files of those names are gone from a directory. Nothing else differs, but perhaps the time
of the directory. -/
structure Drops (names : List Name) (l : Location) (t t' : FileTree) : Prop where
  lacks : Lacks (fun k => ∃ n ∈ names, k = n :: l) (· = l) t t'
  gone : ∀ n ∈ names, Gone t t' (n :: l)

theorem Drops.nil (l : Location) (t : FileTree) : Drops [] l t t :=
  ⟨.refl _ _ t, fun _ hn => absurd hn List.not_mem_nil⟩

theorem Drops.cons (h : Drops [n] l t t') (h' : Drops names l t' t'') :
    Drops (n :: names) l t t'' := by
  constructor
  · refine (h.lacks.trans h'.lacks).of_forall fun k hk => ?_
    rcases (h.lacks.trans h'.lacks).of_gone hk with ⟨m, hm, rfl⟩ | ⟨m, hm, rfl⟩
    · exact ⟨m, List.mem_cons.mpr (.inl (List.mem_singleton.mp hm)), rfl⟩
    · exact ⟨m, List.mem_cons_of_mem n hm, rfl⟩
  · intro m hm
    rcases List.mem_cons.mp hm with rfl | hm
    · obtain ⟨hsome, hnone⟩ := h.gone m List.mem_cons_self
      exact ⟨hsome, h'.lacks.entry?_eq_none hnone⟩
    · obtain ⟨hsome, hnone⟩ := h'.gone m hm
      refine ⟨?_, hnone⟩
      rw [← Option.ne_none_iff_isSome] at hsome ⊢
      exact fun hfirst => hsome (h.lacks.entry?_eq_none hfirst)

theorem drops_of_removeFile (hn : Plain n) (h : t.removeFile (p.join ⟨n⟩) = .ok t') :
    Drops [n] p.location t t' := by
  obtain ⟨m, l, c, htarget, hc, rfl⟩ := eq_of_removeFile h
  have hlocation := location_of_target htarget
  rw [hn.location_join] at hlocation
  obtain ⟨rfl, rfl⟩ := List.cons.inj hlocation
  have hl := isDirectoryAt_of_target htarget
  have hfile := isDirectoryAt_eq_false_of_contentAt hc
  have hputs : Puts t (t.dropEntry m p.location) (m :: p.location) none :=
    (puts_prune hfile).stampDirectory hl
  constructor
  · exact (Lacks.refl _ _ t).dropEntry_right hc ⟨m, List.mem_singleton_self m, rfl⟩ hl rfl
  · intro k hk
    obtain rfl := List.mem_singleton.mp hk
    refine ⟨by simp [← Option.ne_none_iff_isSome, entry?_eq_none_iff, hc], ?_⟩
    rw [entry?_eq_none_iff, hputs.isDirectoryAt, hputs.contentAt, if_pos rfl]
    exact ⟨hfile, rfl⟩

theorem Drops.isFile_join (h : Drops [n] p.location t t') (hm : Plain m) (hne : m ≠ n) :
    t'.isFile (p.join ⟨m⟩) = t.isFile (p.join ⟨m⟩) := by
  refine (h.lacks.isFile_or _).resolve_right ?_
  rintro ⟨-, hgone⟩
  rw [hm.location_join] at hgone
  obtain ⟨m', hm', heq⟩ := h.lacks.of_gone hgone
  rw [List.mem_singleton.mp hm'] at heq
  exact hne (List.cons.inj heq).1

end FileTree

namespace ArtifactStore

variable {s : ArtifactStore} {live : List CacheId} {t t' : FileTree} {names : List Name} {n : Name}
  {count result : Nat}

/-- A name that a collection takes: that of a file whose name belongs to no live id. -/
def takes (s : ArtifactStore) (live : List CacheId) (t : FileTree) (n : Name) : Bool :=
  (Bytes.text? n).any (!isLiveName live ·) && t.isFile (s.dir.join ⟨n⟩)

theorem collectNames_cons (s : ArtifactStore) (live : List CacheId) (count : Nat) (t : FileTree)
    (n : Name) (rest : List Name) :
    s.collectNames live count t (n :: rest) =
      if s.takes live t n then
        match t.removeFile (s.dir.join ⟨n⟩) with
        | .ok t => s.collectNames live (count + 1) t rest
        | .error e => (.error (.io (s.dir.join ⟨n⟩) e), t)
      else s.collectNames live count t rest := by
  rw [collectNames, takes]
  cases Bytes.text? n with
  | none => rfl
  | some text =>
    cases hlive : isLiveName live text with
    | true => simp [hlive]
    | false =>
      cases hfile : t.isFile (s.dir.join ⟨n⟩) with
      | false => simp [hlive]
      | true =>
        simp only [Option.any_some, hlive, Bool.not_false, Bool.not_true, Bool.or_false,
          Bool.and_true, if_true]
        rfl

theorem takes_of_drops (h : Drops [n] s.dir.location t t') {m : Name} (hm : Plain m)
    (hne : m ≠ n) : s.takes live t' m = s.takes live t m := by
  rw [takes, takes, h.isFile_join hm hne]

theorem collectNames_ok (hplain : ∀ n ∈ names, Plain n) (hnodup : names.Nodup)
    (h : s.collectNames live count t names = (.ok result, t')) :
    result = count + (names.filter (s.takes live t)).length ∧
      Drops (names.filter (s.takes live t)) s.dir.location t t' := by
  induction names generalizing count t with
  | nil =>
    cases h
    exact ⟨rfl, .nil _ _⟩
  | cons n names ih =>
    obtain ⟨hn, hrest⟩ := List.forall_mem_cons.mp hplain
    obtain ⟨hnew, hnodup⟩ := List.nodup_cons.mp hnodup
    rw [collectNames_cons] at h
    split at h
    · next htakes =>
      rw [List.filter_cons_of_pos htakes]
      split at h
      · next t₁ hremove =>
        have hdrop := drops_of_removeFile hn hremove
        have hsame : names.filter (s.takes live t₁) = names.filter (s.takes live t) :=
          List.filter_congr fun m hm =>
            takes_of_drops hdrop (hrest m hm) fun heq => hnew (heq ▸ hm)
        obtain ⟨hcount, hdrops⟩ := ih hrest hnodup h
        rw [hsame] at hcount hdrops
        exact ⟨by rw [hcount, List.length_cons]; omega, hdrop.cons hdrops⟩
      · cases h
    · next htakes =>
      rw [List.filter_cons_of_neg htakes]
      exact ih hrest hnodup h

theorem collectNames_of_forall (h : ∀ n ∈ names, s.takes live t n = false) :
    s.collectNames live count t names = (.ok count, t) := by
  induction names with
  | nil => rfl
  | cons n names ih =>
    obtain ⟨hn, hrest⟩ := List.forall_mem_cons.mp h
    rw [collectNames_cons, if_neg (by simp [hn])]
    exact ih hrest

variable {layout : Layout} {debug : Bool}

private theorem bytes_files_ne_nil (layout : Layout) : layout.files.bytes ≠ [] := by
  intro hnil
  have hsegments := Slot.segments_files layout
  rw [Path.segments, hnil] at hsegments
  simp [splitSlash] at hsegments

theorem isDirectory_of_takes (hn : Plain n)
    (h : takes ⟨layout.files, debug⟩ live t n = true) :
    t.isDirectory layout.files = true ∧ n ∈ t.childrenAt layout.files.location := by
  have hfile : t.isFile (layout.files.join ⟨n⟩) = true := (Bool.and_eq_true_iff.mp h).2
  rw [isFile] at hfile
  split at hfile
  · next e hstat =>
    obtain ⟨hdir, hentry⟩ := isDirectory_of_stat_join (bytes_files_ne_nil layout) hn hstat
    exact ⟨hdir, mem_childrenAt (by rw [hentry]; rfl)⟩
  · contradiction

theorem collect_cases (h : collect ⟨layout.files, debug⟩ t live = (.ok result, t')) :
    (∀ l, t.locate layout.files ≠ .ok l) ∧ result = 0 ∧ t' = t ∨
      t.isDirectoryAt layout.files.location = true ∧
        collectNames ⟨layout.files, debug⟩ live 0 t (t.childrenAt layout.files.location) =
          (.ok result, t') := by
  rw [collect] at h
  split at h
  · next hlocate =>
    cases h
    refine .inl ⟨fun l hl => ?_, rfl, rfl⟩
    rw [hl] at hlocate
    cases hlocate
  · next l hlocate =>
    obtain rfl := location_of_locate hlocate
    split at h
    · next hdir => exact .inr ⟨hdir, h⟩
    · cases h

theorem plain_of_mem_files (hh : layout.Housed t) :
    ∀ n ∈ t.childrenAt layout.files.location, Plain n := by
  intro n hn
  exact hh n (entry?_isSome_of_mem_childrenAt hn)

/-- The files that are gone after a collection are those that it would have taken at first. -/
theorem collect_ok (hh : layout.Housed t)
    (h : collect ⟨layout.files, debug⟩ t live = (.ok result, t')) :
    ∃ names, names.Nodup ∧ names.length = result ∧ Drops names layout.files.location t t' ∧
      ∀ n, n ∈ names ↔ Plain n ∧ takes ⟨layout.files, debug⟩ live t n = true := by
  rcases collect_cases h with ⟨hnone, rfl, rfl⟩ | ⟨-, hcollect⟩
  · refine ⟨[], .nil, rfl, .nil _ _, fun n => iff_of_false List.not_mem_nil ?_⟩
    rintro ⟨hn, htakes⟩
    exact hnone _ (locate_of_isDirectory (isDirectory_of_takes hn htakes).1)
  · have hplain := plain_of_mem_files hh
    obtain ⟨hcount, hdrops⟩ := collectNames_ok hplain (nodup_childrenAt t _) hcollect
    refine ⟨_, (nodup_childrenAt t _).filter _, by omega, hdrops, fun n => ?_⟩
    rw [List.mem_filter]
    constructor
    · rintro ⟨hn, htakes⟩
      exact ⟨hplain n hn, htakes⟩
    · rintro ⟨hn, htakes⟩
      exact ⟨(isDirectory_of_takes hn htakes).2, htakes⟩

theorem collect_zero (hh : layout.Housed t)
    (h : collect ⟨layout.files, debug⟩ t live = (.ok 0, t')) : t' = t := by
  rcases collect_cases h with ⟨-, -, rfl⟩ | ⟨-, hcollect⟩
  · rfl
  · have hplain := plain_of_mem_files hh
    obtain ⟨hcount, -⟩ := collectNames_ok hplain (nodup_childrenAt t _) hcollect
    have hnil : (t.childrenAt layout.files.location).filter (takes ⟨layout.files, debug⟩ live t) =
        [] := List.length_eq_zero_iff.mp (by omega)
    rw [collectNames_of_forall fun n hn => by simpa using List.filter_eq_nil_iff.mp hnil n hn]
      at hcollect
    cases hcollect
    rfl

/-- A second collection takes nothing. -/
theorem collect_again (hh : layout.Housed t)
    (h : collect ⟨layout.files, debug⟩ t live = (.ok result, t')) :
    collect ⟨layout.files, debug⟩ t' live = (.ok 0, t') := by
  obtain ⟨names, -, -, hdrops, hnames⟩ := collect_ok hh h
  have hnone : ∀ n ∈ t'.childrenAt layout.files.location,
      takes ⟨layout.files, debug⟩ live t' n = false := by
    intro n hn
    have hsome := entry?_isSome_of_mem_childrenAt hn
    rw [← Bool.not_eq_true]
    intro htakes
    obtain ⟨htext, hfile⟩ := Bool.and_eq_true_iff.mp htakes
    -- what is a file now was one before, so it would have been taken
    have hbefore : t.isFile (layout.files.join ⟨n⟩) = true :=
      (hdrops.lacks.isFile_or _).elim (fun heq => heq.symm.trans hfile) And.left
    have hplain : Plain n := by
      refine hh n ?_
      rw [← Option.ne_none_iff_isSome] at hsome ⊢
      exact fun hfirst => hsome (hdrops.lacks.entry?_eq_none hfirst)
    have hgone := (hdrops.gone n ((hnames n).mpr
      ⟨hplain, Bool.and_eq_true_iff.mpr ⟨htext, hbefore⟩⟩)).2
    rw [hgone] at hsome
    cases hsome
  rcases collect_cases h with ⟨-, rfl, rfl⟩ | ⟨hdir, -⟩
  · exact h
  · rw [collect]
    split
    · rfl
    · next l hlocate =>
      obtain rfl := location_of_locate hlocate
      have hdir' : t'.isDirectoryAt layout.files.location = true :=
        (hdrops.lacks.isDirectoryAt _).trans hdir
      rw [if_pos hdir']
      exact collectNames_of_forall hnone

end ArtifactStore

end BuildCache
