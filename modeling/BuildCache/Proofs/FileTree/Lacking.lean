import BuildCache.Proofs.FileTree.Frames
import Mathlib.Data.List.Sort

/-!
# Trees that lack some files

Two trees hold the same but for files that the second lacks and for the times of some directories.
A path that does not pass what is lacking finds the same in both, and a change along such a path
ends the same way and leaves the trees related as they were.
-/

namespace BuildCache

open FileTree

namespace Path

/-- No location that the names lead through is one of those. -/
def Avoids (names : List Name) (gone : Location → Prop) : Prop := ∀ k, OnWay names k → ¬gone k

instance (names : List Name) (gone : Location → Prop) [DecidablePred gone] :
    Decidable (Avoids names gone) :=
  decidable_of_iff (∀ front ∈ names.inits, ¬gone (follow [] front))
    ⟨fun h _ ⟨front, hfront, hk⟩ => hk ▸ h front ((List.mem_inits _ _).mpr hfront),
      fun h front hfront => h _ ⟨front, (List.mem_inits _ _).mp hfront, rfl⟩⟩

variable {names names' : List Name} {gone gone' : Location → Prop}

theorem Avoids.mono (h : Avoids names gone) (hnames : names' <+: names) : Avoids names' gone :=
  fun k hk => h k (hk.mono hnames)

theorem Avoids.dropLast (h : Avoids names gone) : Avoids names.dropLast gone :=
  h.mono (List.dropLast_prefix names)

theorem Avoids.location {p : Path} (h : Avoids p.segments gone) : ¬gone p.location :=
  h _ (onWay_follow _)

end Path

namespace FileTree

open BuildCache.Path

/-- What a location holds in two trees: the same, a directory with another time, or a file that the
second tree lacks. -/
inductive Differ (gone loose : Prop) : Option Entry → Option Entry → Prop where
  | same (e? : Option Entry) : Differ gone loose e? e?
  | stamped (h : loose) (modified modified' : Int) :
    Differ gone loose (some (.directory modified)) (some (.directory modified'))
  | gone (h : gone) (content : Bytes) (modified : Int) :
    Differ gone loose (some (.file content modified)) none

/-- The second tree may lack files at some locations, and directories at some others may have
another time in it. -/
structure Lacks (gone loose : Location → Prop) (t t' : FileTree) : Prop where
  now : t'.now = t.now
  entry : ∀ k, Differ (gone k) (loose k) (t.entry? k) (t'.entry? k)

/-- A location that holds something in the first tree only. -/
def Gone (t t' : FileTree) (k : Location) : Prop := (t.entry? k).isSome = true ∧ t'.entry? k = none

variable {gone gone' loose : Location → Prop} {t t' : FileTree} {n : Name} {k l : Location}
  {p : Path}

namespace Lacks

theorem refl (gone loose : Location → Prop) (t : FileTree) : Lacks gone loose t t :=
  ⟨rfl, fun _ => .same _⟩

theorem trans {t'' : FileTree} (h : Lacks gone loose t t') (h' : Lacks gone' loose t' t'') :
    Lacks (fun k => gone k ∨ gone' k) loose t t'' := by
  refine ⟨h'.now.trans h.now, fun k => ?_⟩
  have he := h.entry k
  have he' := h'.entry k
  generalize t.entry? k = e? at he ⊢
  generalize t'.entry? k = e?' at he he'
  generalize t''.entry? k = e?'' at he' ⊢
  cases he with
  | same => cases he' with
    | same => exact .same _
    | stamped hloose m m' => exact .stamped hloose m m'
    | gone hgone c m => exact .gone (.inr hgone) c m
  | stamped hloose m m' => cases he' with
    | same => exact .stamped hloose m m'
    | stamped _ _ m'' => exact .stamped hloose m m''
  | gone hgone c m =>
    cases he'
    exact .gone (.inl hgone) c m

theorem entry?_eq_none (h : Lacks gone loose t t') (hk : t.entry? k = none) :
    t'.entry? k = none := by
  have he := h.entry k
  rw [hk] at he
  generalize t'.entry? k = e?' at he ⊢
  cases he
  rfl

theorem of_gone (h : Lacks gone loose t t') (hk : Gone t t' k) : gone k := by
  obtain ⟨hsome, hnone⟩ := hk
  have he := h.entry k
  rw [hnone] at he
  generalize t.entry? k = e? at hsome he
  cases he with
  | same => cases hsome
  | gone hgone => exact hgone

theorem isSome_contentAt (h : Lacks gone loose t t') (hk : Gone t t' k) :
    (t.contentAt k).isSome = true := by
  obtain ⟨hsome, hnone⟩ := hk
  have he := h.entry k
  rw [hnone] at he
  rw [FileTree.contentAt]
  generalize t.entry? k = e? at hsome he
  cases he with
  | same => cases hsome
  | gone => rfl

theorem of_forall (h : Lacks gone loose t t') (hgone : ∀ k, Gone t t' k → gone' k) :
    Lacks gone' loose t t' := by
  refine ⟨h.now, fun k => ?_⟩
  have hk := hgone k
  have he := h.entry k
  rw [Gone] at hk
  generalize t.entry? k = e? at hk he
  generalize t'.entry? k = e?' at hk he
  cases he with
  | same => exact .same _
  | stamped hloose m m' => exact .stamped hloose m m'
  | gone _ c m => exact .gone (hk ⟨rfl, rfl⟩) c m

theorem isDirectoryAt (h : Lacks gone loose t t') (k : Location) :
    t'.isDirectoryAt k = t.isDirectoryAt k := by
  have he := h.entry k
  rw [isDirectoryAt_eq, isDirectoryAt_eq]
  generalize t.entry? k = e? at he
  generalize t'.entry? k = e?' at he
  cases he <;> rfl

theorem contentAt (h : Lacks gone loose t t') (hk : ¬gone k) : t'.contentAt k = t.contentAt k := by
  have he := h.entry k
  rw [FileTree.contentAt, FileTree.contentAt]
  generalize t.entry? k = e? at he
  generalize t'.entry? k = e?' at he
  cases he with
  | same | stamped => rfl
  | gone hgone => exact absurd hgone hk

theorem sameBut (h : Lacks gone loose t t') : SameBut gone t t' :=
  ⟨h.isDirectoryAt, fun _ => h.contentAt⟩

theorem isSome_entry (h : Lacks gone loose t t') (hk : ¬gone k) :
    (t'.entry? k).isSome = (t.entry? k).isSome := by
  rw [← Option.not_isNone, ← Option.not_isNone, h.sameBut.isNone_entry hk]

theorem entry?_of_file (h : Lacks gone loose t t') (hk : ¬gone k) {c : Bytes} {modified : Int}
    (hfile : t.entry? k = some (.file c modified)) : t'.entry? k = some (.file c modified) := by
  have he := h.entry k
  rw [hfile] at he
  generalize t'.entry? k = e?' at he
  cases he with
  | same => rfl
  | gone hgone => exact absurd hgone hk

/-- What is done to an entry of both trees the same way leaves the others as they were. -/
theorem of_entries (h : Lacks gone loose t t') {u u' : FileTree} (hnow : u'.now = u.now)
    (hentry : ∀ k, u.entry? k = t.entry? k ∧ u'.entry? k = t'.entry? k ∨
      Differ (gone k) (loose k) (u.entry? k) (u'.entry? k)) : Lacks gone loose u u' := by
  refine ⟨hnow, fun k => ?_⟩
  rcases hentry k with ⟨heq, heq'⟩ | hdiffer
  · rw [heq, heq']
    exact h.entry k
  · exact hdiffer

end Lacks

@[simp] theorem now_place (t : FileTree) (l : Location) (e : Entry) : (t.place l e).now = t.now := by
  cases l with
  | nil => rfl
  | cons n l =>
    rw [place]
    split <;> rfl

@[simp] theorem now_prune (t : FileTree) (l : Location) : (t.prune l).now = t.now := rfl

@[simp] theorem now_stampDirectory (t : FileTree) (l : Location) :
    (t.stampDirectory l).now = t.now := now_place t l _

namespace Lacks

theorem place (h : Lacks gone loose t t') (l : Location) (e : Entry) :
    Lacks gone loose (t.place l e) (t'.place l e) := by
  refine h.of_entries (by simp [h.now]) fun k => ?_
  by_cases hk : k = l
  · subst hk
    cases k with
    | nil => exact .inr (.same _)
    | cons n l =>
      by_cases hplace : t.isDirectoryAt l = true ∧
          (e.isDirectory = true ∨ t.isDirectoryAt (n :: l) = false)
      · obtain ⟨hl, he⟩ := hplace
        rw [entry?_place_self hl he, entry?_place_self ((h.isDirectoryAt l).trans hl)
          (he.imp_right (h.isDirectoryAt _).trans)]
        exact .inr (.same _)
      · have hnone (t : FileTree) (hplace : ¬(t.isDirectoryAt l = true ∧
            (e.isDirectory = true ∨ t.isDirectoryAt (n :: l) = false))) :
            t.place (n :: l) e = t := by
          rw [FileTree.place]
          exact dif_neg hplace
        refine .inl ⟨by rw [hnone t hplace], ?_⟩
        rw [hnone t' (by rwa [h.isDirectoryAt, h.isDirectoryAt])]
  · exact .inl ⟨entry?_place_other hk, entry?_place_other hk⟩

theorem prune (h : Lacks gone loose t t') (n : Name) (l : Location) :
    Lacks gone loose (t.prune (n :: l)) (t'.prune (n :: l)) := by
  refine h.of_entries h.now fun k => ?_
  rw [entry?_prune, entry?_prune]
  split
  · exact .inr (.same _)
  · exact .inl ⟨rfl, rfl⟩

theorem stampDirectory (h : Lacks gone loose t t') (l : Location) :
    Lacks gone loose (t.stampDirectory l) (t'.stampDirectory l) := by
  rw [FileTree.stampDirectory, FileTree.stampDirectory, h.now]
  exact h.place l _

theorem addEntry (h : Lacks gone loose t t') (n : Name) (l : Location) (e : Entry) :
    Lacks gone loose (t.addEntry n l e) (t'.addEntry n l e) :=
  (h.place _ e).stampDirectory l

theorem dropEntry (h : Lacks gone loose t t') (n : Name) (l : Location) :
    Lacks gone loose (t.dropEntry n l) (t'.dropEntry n l) :=
  (h.prune n l).stampDirectory l

private theorem entry?_dropEntry_cases (hn : t.isDirectoryAt (n :: l) = false)
    (hl : t.isDirectoryAt l = true) (k : Location) :
    k = n :: l ∧ FileTree.entry? (t.dropEntry n l) k = none ∨
      k = l ∧ (∃ modified, FileTree.entry? (t.dropEntry n l) k = some (.directory modified)) ∨
      FileTree.entry? (t.dropEntry n l) k = t.entry? k := by
  have hdropped := (puts_prune hn).stampDirectory hl
  by_cases hk : k = n :: l
  · subst hk
    refine .inl ⟨rfl, entry?_eq_none_iff.mpr ⟨(hdropped.isDirectoryAt _).trans hn, ?_⟩⟩
    rw [FileTree.dropEntry, hdropped.contentAt, if_pos rfl]
  · by_cases hkl : k = l
    · subst hkl
      exact .inr (.inl ⟨rfl, exists_directory ((hdropped.isDirectoryAt k).trans hl)⟩)
    · exact .inr (.inr (agree_dropEntry_one hn k (by simp [hk, hkl])))

/-- The first tree may lose a file that the second lacks already. -/
theorem dropEntry_left (h : Lacks gone loose t t') (hn : t.isDirectoryAt (n :: l) = false)
    (hnone : t'.entry? (n :: l) = none) (hl : t.isDirectoryAt l = true) (hloose : loose l) :
    Lacks gone loose (t.dropEntry n l) t' := by
  refine h.of_entries (by simpa [FileTree.dropEntry] using h.now) fun k => ?_
  rcases entry?_dropEntry_cases hn hl k with ⟨rfl, hdropped⟩ | ⟨rfl, m, hm⟩ | hsame
  · rw [hnone, hdropped]
    exact .inr (.same none)
  · obtain ⟨m', hm'⟩ := exists_directory ((h.isDirectoryAt k).trans hl)
    rw [hm, hm']
    exact .inr (.stamped hloose _ _)
  · exact .inl ⟨hsame, rfl⟩

/-- The second tree may lose a file that may be lacking. -/
theorem dropEntry_right (h : Lacks gone loose t t') {c : Bytes}
    (hc : t'.contentAt (n :: l) = some c) (hgone : gone (n :: l))
    (hl : t'.isDirectoryAt l = true) (hloose : loose l) :
    Lacks gone loose t (t'.dropEntry n l) := by
  have hn := isDirectoryAt_eq_false_of_contentAt hc
  obtain ⟨modified, hfile⟩ := exists_file_of_contentAt hc
  refine h.of_entries (by simpa [FileTree.dropEntry] using h.now) fun k => ?_
  rcases entry?_dropEntry_cases hn hl k with ⟨rfl, hdropped⟩ | ⟨rfl, m', hm'⟩ | hsame
  · have he := h.entry (n :: l)
    rw [hfile] at he
    rw [hdropped]
    generalize t.entry? (n :: l) = e? at he
    cases he
    exact .inr (.gone hgone c modified)
  · obtain ⟨m, hm⟩ := exists_directory ((h.isDirectoryAt k).symm.trans hl)
    rw [hm, hm']
    exact .inr (.stamped hloose _ _)
  · exact .inl ⟨rfl, hsame⟩

theorem walk (h : Lacks gone loose t t') {names : List Name} (hnames : Avoids names gone) :
    t'.walk [] names = t.walk [] names :=
  h.sameBut.walk fun front rest heq => hnames _ ⟨front, ⟨rest, heq.symm⟩, rfl⟩

theorem locate (h : Lacks gone loose t t') (hp : Avoids p.segments gone) :
    t'.locate p = t.locate p := by
  simp only [FileTree.locate, bind, Except.bind, h.walk hp, h.isDirectoryAt]

theorem target (h : Lacks gone loose t t') (hp : Avoids p.segments.dropLast gone) :
    t'.target p = t.target p := by
  simp only [FileTree.target, bind, Except.bind, h.walk hp, h.isDirectoryAt]

/-- A lookup that avoids what is lacking finds the same, but perhaps another time of a directory. -/
theorem stat (h : Lacks gone loose t t') (hp : Avoids p.segments gone) :
    t'.stat p = t.stat p ∨ loose p.location ∧ ∃ modified modified',
      t.stat p = .ok (.directory modified) ∧ t'.stat p = .ok (.directory modified') := by
  rw [FileTree.stat, FileTree.stat, h.locate hp]
  cases hl : t.locate p with
  | error e => exact .inl rfl
  | ok l =>
    obtain rfl := location_of_locate hl
    have he := h.entry p.location
    simp only [bind, Except.bind]
    generalize t.entry? p.location = e? at he
    generalize t'.entry? p.location = e?' at he
    cases he with
    | same => exact .inl rfl
    | stamped hloose m m' => exact .inr ⟨hloose, m, m', rfl, rfl⟩
    | gone hgone => exact absurd hgone hp.location

theorem isFile (h : Lacks gone loose t t') (hp : Avoids p.segments gone) :
    t'.isFile p = t.isFile p := by
  rcases h.stat hp with heq | ⟨-, m, m', heq, heq'⟩
  · rw [FileTree.isFile, FileTree.isFile, heq]
  · rw [FileTree.isFile, FileTree.isFile, heq, heq']
    rfl

theorem isDirectory (h : Lacks gone loose t t') (hp : Avoids p.segments gone) :
    t'.isDirectory p = t.isDirectory p := by
  rcases h.stat hp with heq | ⟨-, m, m', heq, heq'⟩
  · rw [FileTree.isDirectory, FileTree.isDirectory, heq]
  · rw [FileTree.isDirectory, FileTree.isDirectory, heq, heq']
    rfl

theorem read (h : Lacks gone loose t t') (hp : Avoids p.segments gone) :
    t'.read p = t.read p := by
  rcases h.stat hp with heq | ⟨-, m, m', heq, heq'⟩
  · rw [FileTree.read, FileTree.read, heq]
  · rw [FileTree.read, FileTree.read, heq, heq']
    rfl

theorem exists? (h : Lacks gone loose t t') (hp : Avoids p.segments gone) :
    t'.exists? p = t.exists? p :=
  h.sameBut.exists? fun front rest heq => hp _ ⟨front, ⟨rest, heq.symm⟩, rfl⟩

end Lacks

private theorem mem_childrenAt_iff : n ∈ t.childrenAt l ↔ (t.entry? (n :: l)).isSome = true :=
  ⟨entry?_isSome_of_mem_childrenAt, mem_childrenAt⟩

private theorem pairwise_childrenAt (t : FileTree) (l : Location) :
    (t.childrenAt l).Pairwise fun n m => compare (n :: l) (m :: l) = .lt := by
  have hkeys : t.entries.keys.Pairwise fun a b => compare a b = .lt :=
    List.pairwise_map.mpr t.entries.sorted
  rw [FileTree.childrenAt, List.pairwise_filterMap]
  refine hkeys.imp fun {a b} hlt n hn m hm => ?_
  rcases a with _ | ⟨a, k⟩
  · cases hn
  rcases b with _ | ⟨b, k'⟩
  · cases hm
  obtain ⟨rfl, hna⟩ := Option.ite_none_right_eq_some.mp hn
  obtain ⟨rfl, hmb⟩ := Option.ite_none_right_eq_some.mp hm
  rwa [← Option.some.inj hna, ← Option.some.inj hmb]

theorem nodup_childrenAt (t : FileTree) (l : Location) : (t.childrenAt l).Nodup :=
  (pairwise_childrenAt t l).imp fun hlt heq => by simp [heq] at hlt

/-- The names in a directory are those that it has in the first tree, in their order, without the
ones that are lacking. -/
theorem Lacks.childrenAt (h : Lacks gone loose t t') (l : Location) :
    t'.childrenAt l = (t.childrenAt l).filter fun n => (t'.entry? (n :: l)).isSome := by
  have hirrefl : Std.Irrefl fun n m : Name => compare (n :: l) (m :: l) = .lt :=
    ⟨fun n hn => by simp at hn⟩
  have hantisymm : Std.Antisymm fun n m : Name => compare (n :: l) (m :: l) = .lt :=
    ⟨fun n m hn hm => by simp [Std.OrientedCmp.gt_of_lt hm] at hn⟩
  refine (pairwise_childrenAt t' l).eq_of_mem_iff ((pairwise_childrenAt t l).filter _) fun n => ?_
  rw [List.mem_filter, mem_childrenAt_iff, mem_childrenAt_iff, and_iff_right_of_imp]
  intro hsome
  have he := h.entry (n :: l)
  generalize t.entry? (n :: l) = e? at he
  generalize t'.entry? (n :: l) = e?' at he hsome
  cases he with
  | same => exact hsome
  | stamped => rfl
  | gone => rfl

end FileTree

end BuildCache
