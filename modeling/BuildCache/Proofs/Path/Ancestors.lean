import BuildCache.Proofs.Path.Canonical

/-!
# Ancestors of a path

The ancestors of a spelling lead to the directories above where it leads, from the innermost out.
Where the spelling climbs, they lead to the directories that it climbs out of as well.
-/

namespace BuildCache

namespace Path

variable {p q : Path}

theorem length_segments_le (p : Path) : p.segments.length ≤ p.bytes.length := by
  obtain ⟨b⟩ := p
  show ((splitSlash b).filter (!·.isEmpty)).length ≤ b.length
  induction b with
  | nil => simp [splitSlash]
  | cons c rest ih =>
    rw [splitSlash]
    split
    · rw [List.filter_cons_of_neg (by simp), List.length_cons]
      exact Nat.le_succ_of_le ih
    · obtain ⟨piece, pieces, hrest⟩ := List.exists_cons_of_ne_nil (splitSlash_ne_nil rest)
      have htail := (List.sublist_cons_self piece pieces).filter (!·.isEmpty)
      rw [hrest] at ih ⊢
      rw [List.filter_cons_of_pos (by simp), List.length_cons, List.length_cons]
      exact Nat.succ_le_succ (htail.length_le.trans ih)

theorem length_segments_lt (h : p.parent? = some q) : q.segments.length < p.segments.length := by
  obtain ⟨dots, last, more, hsegments, -⟩ := segments_of_parent? h
  rw [hsegments]
  simp only [List.length_append, List.length_cons]
  omega

private theorem ancestorsUpTo_eq {m n : Nat} (hm : p.segments.length ≤ m)
    (hn : p.segments.length ≤ n) : ancestorsUpTo m p = ancestorsUpTo n p := by
  have hnone {p : Path} (h : p.parent? = none) (k : Nat) : ancestorsUpTo k p = [p] := by
    cases k with
    | zero => rfl
    | succ k => rw [ancestorsUpTo, h]
  induction m generalizing p n with
  | zero =>
    refine (hnone ?_ n).symm
    cases hparent : p.parent? with
    | none => rfl
    | some q =>
      have hlt := length_segments_lt hparent
      omega
  | succ m ih =>
    cases hparent : p.parent? with
    | none => rw [hnone hparent, hnone hparent]
    | some q =>
      have hlt := length_segments_lt hparent
      obtain ⟨n, rfl⟩ := Nat.exists_eq_succ_of_ne_zero (by omega : n ≠ 0)
      rw [ancestorsUpTo, ancestorsUpTo, hparent]
      exact congrArg (p :: ·) (ih (by omega) (by omega))

theorem ancestors_of_parent? (h : p.parent? = some q) : p.ancestors = p :: q.ancestors := by
  have hlt := length_segments_lt h
  have hsucc := ancestorsUpTo_eq (length_segments_le p)
    (by omega : p.segments.length ≤ p.segments.length - 1 + 1)
  rw [ancestors, hsucc, ancestorsUpTo, h, ancestors]
  exact congrArg (p :: ·) (ancestorsUpTo_eq (by omega) (length_segments_le q))

theorem ancestors_of_root (h : p.parent? = none) : p.ancestors = [p] := by
  rw [ancestors]
  cases p.bytes.length with
  | zero => rfl
  | succ n => rw [ancestorsUpTo, h]

private theorem exists_ancestors (p : Path) : ∃ above, p.ancestors = p :: above := by
  cases h : p.parent? with
  | none => exact ⟨[], ancestors_of_root h⟩
  | some q => exact ⟨q.ancestors, ancestors_of_parent? h⟩

theorem location_of_root (h : p.parent? = none) : p.location = [] :=
  follow_dots (eq_dot_of_parent? h)

/-- A last name that is `..` leads out of where the parent leads, another one into it. -/
theorem location_of_parent? (h : p.isAbsolute = true) (hq : p.parent? = some q) :
    p.location = q.location.tail ∨ ∃ n, p.location = n :: q.location := by
  obtain ⟨dots, last, more, hsegments, hdots, hmore, hlast⟩ := segments_of_parent? hq
  have hfollow : p.location = follow q.location (last :: more) := by
    rw [location, hsegments, follow_append, follow_append, follow_dots hdots, location]
  rw [hfollow, follow, if_neg (hlast h)]
  split
  · exact .inl (follow_dots hmore)
  · exact .inr ⟨last, follow_dots hmore⟩

private theorem findSome?_tails {α : Type} {f : Location → Option α} {l k : Location}
    (hstep : l = k.tail ∨ ∃ n, l = n :: k) (hl : f l = none) (hk : ¬k <:+ l → f k = none) :
    k.tails.findSome? f = l.tails.findSome? f := by
  rcases hstep with rfl | ⟨n, rfl⟩
  · cases k with
    | nil => rfl
    | cons m k =>
      have hout : ¬m :: k <:+ k := fun h => absurd h.length_le (by simp)
      rw [List.tails_cons, List.findSome?_cons, hk hout]
      rfl
  · rw [List.tails_cons, List.findSome?_cons, hl]

/-- What is looked for in the ancestors is found in the directories above where the path leads,
unless the first ancestor that has it leads elsewhere. -/
theorem findSome?_ancestors {α : Type} {f : Location → Option α} (hp : p.isAbsolute = true)
    (hfirst : ∀ a, p.ancestors.find? (fun a => (f a.location).isSome) = some a →
      a.location <:+ p.location) :
    p.ancestors.findSome? (f ·.location) = p.location.tails.findSome? f := by
  induction hn : p.segments.length using Nat.strongRecOn generalizing p with
  | ind n ih =>
    subst hn
    cases hparent : p.parent? with
    | none => simp [ancestors_of_root hparent, location_of_root hparent]
    | some q =>
      have hstep := location_of_parent? hp hparent
      rw [ancestors_of_parent? hparent] at hfirst ⊢
      rw [List.findSome?_cons]
      cases hf : f p.location with
      | some found => cases hl : p.location <;> simp [← hl, hf]
      | none =>
        rw [List.find?_cons_of_neg (by simp [hf])] at hfirst
        have hfirst' (a : Path)
            (ha : q.ancestors.find? (fun a => (f a.location).isSome) = some a) :
            a.location <:+ q.location := by
          rcases hstep with hup | ⟨n, hname⟩
          · exact (hfirst a ha).trans (hup ▸ List.tail_suffix q.location)
          · -- where the path itself leads, nothing was found
            have hne : a.location ≠ p.location := by
              intro heq
              have hsome := List.find?_some ha
              simp [heq, hf] at hsome
            rw [hname] at hne
            exact (List.suffix_cons_iff.mp (hname ▸ hfirst a ha)).resolve_left hne
        have hq := ih q.segments.length (length_segments_lt hparent) (isAbsolute_parent? hp hparent)
          hfirst' rfl
        refine hq.trans (findSome?_tails hstep hf fun hout => ?_)
        rw [← Option.not_isSome_iff_eq_none]
        intro hsome
        refine hout (hfirst q ?_)
        obtain ⟨rest, hrest⟩ := exists_ancestors q
        rw [hrest]
        exact List.find?_cons_of_pos hsome

private theorem suffix_follow {l : Location} {names : List Name} (h : dotDot ∉ names) :
    l <:+ follow l names := by
  induction names generalizing l with
  | nil => exact List.suffix_refl l
  | cons s rest ih =>
    rw [List.mem_cons, not_or] at h
    rw [follow, if_neg (Ne.symm h.1)]
    split
    · exact ih h.2
    · exact (List.suffix_cons s l).trans (ih h.2)

theorem suffix_of_mem_ancestors (h : dotDot ∉ p.segments) (hq : q ∈ p.ancestors) :
    q.location <:+ p.location := by
  obtain ⟨rest, hrest⟩ := segments_of_mem_ancestors hq
  rw [location, location, ← hrest, follow_append]
  exact suffix_follow fun hmem => h (hrest ▸ List.mem_append_right _ hmem)

theorem dotDot_notMem_normalize (h : p.isAbsolute = true) : dotDot ∉ p.normalize.segments := by
  have hplain (n : Name) (hn : n ∈ p.location.reverse) : Plain n :=
    plain_of_mem_location n (List.mem_reverse.mp hn)
  rw [normalize_of_isAbsolute h, segments_rooted hplain]
  exact fun hmem => (hplain dotDot hmem).ne_dotDot rfl

private theorem trimPieces_eq_self {pieces : List Bytes}
    (h : ∀ piece ∈ pieces, piece ≠ [] ∧ piece ≠ dot) : trimPieces pieces = pieces := by
  rcases List.eq_nil_or_concat pieces with rfl | ⟨front, last, rfl⟩
  · rfl
  · have hlast := h last (by simp)
    simp [trimPieces, hlast.1, hlast.2]

theorem parent?_of_pieces (start : Nat) {front : List Bytes} {last : Bytes}
    (hstart : start = if p.isAbsolute || p.startsHere then 1 else 0)
    (hsplit : splitSlash (p.bytes.drop start) = front ++ [last])
    (h : ∀ piece ∈ front ++ [last], piece ≠ [] ∧ piece ≠ dot) :
    p.parent? = some ⟨p.bytes.take start ++ joinSlash front⟩ := by
  have hfront : trimPieces front = front :=
    trimPieces_eq_self fun piece hpiece => h piece (List.mem_append_left _ hpiece)
  have hconcat : front ++ [last] ≠ [] := by simp
  rw [parent?, ← hstart, hsplit, trimPieces_eq_self h]
  split
  · contradiction
  · rw [List.dropLast_concat, hfront]

theorem parent?_rooted {front : List Name} {last : Name} (h : ∀ n ∈ front ++ [last], Plain n) :
    (rooted (front ++ [last])).parent? = some (rooted front) :=
  parent?_of_pieces 1 rfl
    (splitSlash_joinSlash (by simp) fun n hn => (h n hn).noSlash)
    fun n hn => ⟨(h n hn).ne_nil, (h n hn).ne_dot⟩

private theorem innerComponents_dots {dots : List Name} (h : ∀ d ∈ dots, d = dot) :
    innerComponents dots = [] :=
  List.filterMap_eq_nil_iff.mpr fun d hd => if_pos (h d hd)

theorem location_of_fileName? (h : p.isAbsolute = true) (hname : p.fileName?.isSome = true)
    (hq : p.parent? = some q) : ∃ n, p.location = n :: q.location := by
  obtain ⟨dots, last, more, hsegments, hdots, hmore, hlast⟩ := segments_of_parent? hq
  refine ⟨last, ?_⟩
  have hup : last ≠ dotDot := by
    rintro rfl
    have hend : p.components.getLast? = some .up := by
      have hinner : innerComponents p.segments =
          innerComponents (q.segments ++ dots) ++ [.up] := by
        rw [hsegments, innerComponents, List.filterMap_append, ← innerComponents,
          ← innerComponents, innerComponents_dotDot, innerComponents_dots hmore]
      rw [components, hinner, ← List.append_assoc, List.getLast?_concat]
    rw [fileName?, hend] at hname
    contradiction
  rw [location, hsegments, follow_append, follow_append, follow_dots hdots, follow,
    if_neg (hlast h), if_neg hup, follow_dots hmore, location]

/-- The parent of a normal form is in normal form. -/
theorem parent?_normalize (h : p.isAbsolute = true) (hname : p.fileName?.isSome = true) :
    p.normalize.parent? = p.parent?.map normalize := by
  cases hparent : p.parent? with
  | none =>
    have hcomponents : p.components = [.root] := by
      rw [components, h, if_pos rfl, innerComponents_dots (eq_dot_of_parent? hparent)]
      rfl
    simp [fileName?, hcomponents] at hname
  | some q =>
    obtain ⟨n, hn⟩ := location_of_fileName? h hname hparent
    have hplain : ∀ m ∈ q.location.reverse ++ [n], Plain m := by
      intro m hm
      refine plain_of_mem_location (p := p) m ?_
      rw [hn]
      simpa [or_comm] using hm
    rw [Option.map_some, normalize_of_isAbsolute h, hn, List.reverse_cons,
      parent?_rooted hplain, normalize_of_isAbsolute (isAbsolute_parent? h hparent)]

theorem normalize_of_location (hp : p.isAbsolute = true) (hq : q.isAbsolute = true)
    (h : p.location = q.location) : p.normalize = q.normalize := by
  rw [normalize_of_isAbsolute hp, normalize_of_isAbsolute hq, h]

theorem bytes_join (hne : p.bytes ≠ []) {m : Path} (hm : m.isAbsolute = false) :
    (p.join m).bytes = p.bytes ++ ((if p.endsInSlash then [] else [slash]) ++ m.bytes) := by
  rw [join, hm, if_neg Bool.false_ne_true, List.isEmpty_eq_false_iff.mpr hne, Bool.false_or]
  split <;> simp

/-- What is joined to fewer bytes is no longer, though one of the bases may want for a slash. -/
theorem length_join_le (h : q.bytes.Sublist p.bytes) (hne : q.bytes ≠ []) {m : Path}
    (hm : m.isAbsolute = false) : (q.join m).bytes.length ≤ (p.join m).bytes.length := by
  have hp : p.bytes ≠ [] := fun hnil => hne (List.sublist_nil.mp (hnil ▸ h))
  have hlength := h.length_le
  rw [bytes_join hne hm, bytes_join hp hm]
  simp only [List.length_append]
  by_cases hslash : p.endsInSlash = true ∧ q.endsInSlash = false
  · have hlt : q.bytes.length ≠ p.bytes.length := by
      intro heq
      have hbytes := h.eq_of_length heq
      rw [endsInSlash, endsInSlash, hbytes, ← endsInSlash] at hslash
      simp [hslash.1] at hslash
    rw [hslash.1, hslash.2]
    simp only [if_true, Bool.false_eq_true, if_false, List.length_cons, List.length_nil]
    omega
  · cases hpe : p.endsInSlash <;> cases hqe : q.endsInSlash <;> simp_all
    omega

end Path

namespace FileTree

open BuildCache.Path

variable {t : FileTree} {p q m : Path}

theorem isDirectory_iff : t.isDirectory p = true ↔
    checkSpelling p = .ok () ∧ t.walk [] p.segments = .ok p.location ∧
      t.isDirectoryAt p.location = true := by
  simp only [isDirectory, stat, locate, bind, Except.bind]
  cases hspelling : checkSpelling p with
  | error e => simp
  | ok u =>
    cases hwalk : t.walk [] p.segments with
    | error e => simp
    | ok l =>
      obtain rfl : l = p.location := eq_follow_of_walk hwalk
      have hat := isDirectoryAt_eq t p.location
      cases hentry : t.entry? p.location with
      | none =>
        rw [hentry] at hat
        cases p.endsInSlash <;> simp [hentry, hat]
      | some e =>
        rw [hentry] at hat
        cases e <;> cases p.endsInSlash <;> simp [hentry, hat, Entry.isDirectory]

theorem locate_of_isDirectory (h : t.isDirectory p = true) : t.locate p = .ok p.location := by
  obtain ⟨hspelling, hwalk, hdir⟩ := isDirectory_iff.mp h
  simp [locate, bind, Except.bind, hspelling, hwalk, hdir]

theorem checkSpelling_of_join (hne : p.bytes ≠ []) (hm : m.isAbsolute = false)
    (h : checkSpelling (p.join m) = .ok ()) : checkSpelling p = .ok () := by
  obtain ⟨hnul, hshort, -⟩ := checkSpelling_eq_ok_iff.mp h
  rw [bytes_join hne hm] at hnul hshort
  rw [List.length_append] at hshort
  exact checkSpelling_eq_ok_iff.mpr
    ⟨fun hmem => hnul (List.mem_append_left _ hmem), by omega, hne⟩

theorem isDirectory_of_stat_join {n : Name} {e : Entry} (hne : p.bytes ≠ []) (hn : Plain n)
    (h : t.stat (p.join ⟨n⟩) = .ok e) :
    t.isDirectory p = true ∧ t.entry? (n :: p.location) = some e := by
  have hentry := entry?_of_stat h
  rw [hn.location_join] at hentry
  refine ⟨?_, hentry⟩
  simp only [stat, locate, bind, Except.bind, hn.segments_join, walk_append] at h
  cases hspelling : checkSpelling (p.join ⟨n⟩) with
  | error error => simp [hspelling] at h
  | ok u =>
    cases hwalk : t.walk [] p.segments with
    | error error => simp [hspelling, hwalk] at h
    | ok l =>
      obtain rfl : l = p.location := eq_follow_of_walk hwalk
      exact isDirectory_iff.mpr ⟨checkSpelling_of_join hne hn.not_isAbsolute hspelling, hwalk,
        isDirectoryAt_of_cons (by rw [hentry]; rfl)⟩

theorem walk_of_mem_ancestors (hdir : t.isDirectory p = true) (hq : q ∈ p.ancestors) :
    t.walk [] q.segments = .ok q.location := by
  obtain ⟨rest, hrest⟩ := segments_of_mem_ancestors hq
  have hwalk := (isDirectory_iff.mp hdir).2.1
  rw [← hrest, walk_append] at hwalk
  cases hq : t.walk [] q.segments with
  | error e => simp [hq, Except.bind] at hwalk
  | ok l => rw [eq_follow_of_walk hq, location]

theorem isDirectory_join_congr (hp : t.walk [] p.segments = .ok p.location)
    (hq : t.walk [] q.segments = .ok q.location) (h : p.location = q.location)
    (hm : m.isAbsolute = false)
    (hspelling : checkSpelling (p.join m) = .ok () ↔ checkSpelling (q.join m) = .ok ()) :
    t.isDirectory (p.join m) = t.isDirectory (q.join m) := by
  rw [Bool.eq_iff_iff, isDirectory_iff, isDirectory_iff, hspelling, segments_join hm,
    segments_join hm, walk_append, walk_append, hp, hq, h, location_join_congr h m]

/-- What is joined to fewer bytes than a path, none of which is NUL, is spelled well. -/
private theorem checkSpelling_join_iff (h : q.bytes.Sublist p.bytes) (hne : q.bytes ≠ [])
    (hp : checkSpelling p = .ok ()) (hm : m.isAbsolute = false)
    (hshort : (p.join m).bytes.length ≤ maxPathLength) :
    checkSpelling (q.join m) = .ok () ↔ 0 ∉ m.bytes := by
  have hlength := (length_join_le h hne hm).trans hshort
  have hnul : 0 ∉ q.bytes := fun hmem => (checkSpelling_eq_ok_iff.mp hp).1 (h.subset hmem)
  have hslash : ∀ b : Bool, 0 ∉ (if b then [] else [slash]) := by decide
  rw [checkSpelling_eq_ok_iff, and_iff_left ⟨hlength, by simp [bytes_join hne hm, hne]⟩,
    bytes_join hne hm, List.mem_append, List.mem_append]
  simp [hnul, hslash]

/-- Behind the ancestors of a directory the same directories lie as behind their normal forms. -/
theorem isDirectory_join_normalize (hp : p.isAbsolute = true) (hdir : t.isDirectory p = true)
    (hq : q ∈ p.ancestors) (hm : m.isAbsolute = false)
    (hshort : (p.join m).bytes.length ≤ maxPathLength) :
    t.isDirectory (q.normalize.join m) = t.isDirectory (q.join m) := by
  have habsolute := isAbsolute_of_mem_ancestors hp hq
  have hwalk := walk_of_mem_ancestors hdir hq
  have hsublist := (bytes_of_mem_ancestors hq).sublist
  have hspelling := (isDirectory_iff.mp hdir).1
  have hlocation := location_normalize habsolute
  refine isDirectory_join_congr ?_ hwalk hlocation hm ?_
  · rw [hlocation]
    exact walk_normalize habsolute hwalk
  · rw [checkSpelling_join_iff hsublist (bytes_ne_nil habsolute) hspelling hm hshort,
      checkSpelling_join_iff ((normalize_sublist habsolute).trans hsublist)
        (bytes_ne_nil (canonical_normalize habsolute).isAbsolute) hspelling hm hshort]

end FileTree

end BuildCache
