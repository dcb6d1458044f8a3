import BuildCache.Proofs.FileTree.Lookup
import BuildCache.Store.Replace
import Mathlib.Data.List.Infix

/-!
# Parents of a path

A parent is spelled with fewer names of the path, so that a path passes wherever its parents lead.
-/

namespace BuildCache.Path

/-- The pieces that are names. -/
private def names (pieces : List Bytes) : List Name := pieces.filter (!·.isEmpty)

private theorem names_splitSlash_joinSlash {pieces : List Bytes}
    (h : ∀ piece ∈ pieces, slash ∉ piece) : names (splitSlash (joinSlash pieces)) = names pieces := by
  by_cases hne : pieces = []
  · subst hne
    rfl
  · rw [splitSlash_joinSlash hne h]

private theorem eq_trimPieces_append (pieces : List Bytes) :
    ∃ rest, pieces = trimPieces pieces ++ rest ∧ ∀ d ∈ names rest, d = dot := by
  refine ⟨(pieces.reverse.takeWhile fun s => s.isEmpty || s == dot).reverse, ?_, fun d hd => ?_⟩
  · rw [trimPieces, ← List.reverse_append, List.takeWhile_append_dropWhile, List.reverse_reverse]
  · obtain ⟨hmem, hne⟩ := List.mem_filter.mp hd
    have htrimmed := List.all_eq_true.mp List.all_takeWhile d (List.mem_reverse.mp hmem)
    simpa [show d.isEmpty = false by simpa using hne] using htrimmed

private theorem prefix_of_trimPieces (pieces : List Bytes) : trimPieces pieces <+: pieces := by
  obtain ⟨rest, hrest, -⟩ := eq_trimPieces_append pieces
  exact ⟨rest, hrest.symm⟩

private theorem last_of_trimPieces {pieces front : List Bytes} {last : Bytes}
    (h : trimPieces pieces = front ++ [last]) : last.isEmpty = false ∧ last ≠ dot := by
  have hreverse : pieces.reverse.dropWhile (fun s => s.isEmpty || s == dot) =
      last :: front.reverse := by
    rw [← List.reverse_inj, ← trimPieces, h]
    simp
  have hlast := List.head?_dropWhile_not (fun s => s.isEmpty || s == dot) pieces.reverse
  rw [hreverse] at hlast
  simp_all

private theorem names_of_trimPieces {pieces front : List Bytes} {last : Bytes}
    (h : trimPieces pieces = front ++ [last]) :
    ∃ dots more, names pieces = names (trimPieces front) ++ dots ++ last :: more ∧
      (∀ d ∈ dots, d = dot) ∧ ∀ d ∈ more, d = dot := by
  obtain ⟨rest, hrest, hmore⟩ := eq_trimPieces_append pieces
  obtain ⟨rest', hrest', hdots⟩ := eq_trimPieces_append front
  refine ⟨names rest', names rest, ?_, hdots, hmore⟩
  have hfront : names front = names (trimPieces front) ++ names rest' :=
    (congrArg names hrest').trans (List.filter_append _ _)
  rw [← hfront, hrest, h, names, List.filter_append, List.filter_append]
  simp [names, (last_of_trimPieces h).1]

private theorem noSlash_trimPieces {b : Bytes} {front : List Bytes} {last : Bytes}
    (h : trimPieces (splitSlash b) = front ++ [last]) :
    ∀ piece ∈ trimPieces front, slash ∉ piece := fun piece hpiece =>
  noSlash_of_mem_splitSlash piece ((prefix_of_trimPieces _).subset
    (h ▸ List.mem_append_left _ ((prefix_of_trimPieces front).subset hpiece)))

private theorem exists_of_startsHere {b : Bytes} (h : Path.startsHere ⟨b⟩ = true) :
    ∃ rest pieces, b = 0x2E :: rest ∧ splitSlash rest = [] :: pieces ∧
      splitSlash b = dot :: pieces := by
  cases b with
  | nil => simp [startsHere, splitSlash, dot] at h
  | cons c rest =>
    rw [startsHere, splitSlash] at h
    split at h
    · simp [dot] at h
    · next hc =>
      obtain ⟨piece, pieces, hrest⟩ := List.exists_cons_of_ne_nil (splitSlash_ne_nil rest)
      obtain ⟨rfl, rfl⟩ : c = 0x2E ∧ piece = [] := by simpa [hrest, dot] using h
      exact ⟨rest, pieces, rfl, hrest, by rw [splitSlash, if_neg hc, hrest]; rfl⟩

private theorem names_splitSlash_dot {pieces more : List Bytes}
    (h : ∀ piece ∈ pieces, slash ∉ piece) (hstarts : pieces <+: [] :: more) :
    names (splitSlash (0x2E :: joinSlash pieces)) = dot :: names pieces := by
  cases pieces with
  | nil => rfl
  | cons piece pieces =>
    obtain ⟨rfl, -⟩ := List.cons_prefix_cons.mp hstarts
    cases pieces with
    | nil => rfl
    | cons next pieces =>
      have hjoin : (0x2E : UInt8) :: joinSlash ([] :: next :: pieces) =
          dot ++ slash :: joinSlash (next :: pieces) := by simp [joinSlash, dot]
      have hdot : splitSlash dot = [dot] := rfl
      rw [hjoin, splitSlash_append, hdot, splitSlash_joinSlash (by simp)
        (List.forall_mem_cons.mp h).2]
      rfl

/-- A slash or a dot at the start is kept as it is, with fewer pieces behind it too. -/
private theorem segments_start (p : Path) {n : Nat}
    (hn : n = if p.isAbsolute || p.startsHere then 1 else 0) :
    ∃ start, (∀ d ∈ start, d = dot) ∧ p.segments = start ++ names (splitSlash (p.bytes.drop n)) ∧
      ∀ pieces : List Bytes, (∀ piece ∈ pieces, slash ∉ piece) →
        pieces <+: splitSlash (p.bytes.drop n) →
        Path.segments ⟨p.bytes.take n ++ joinSlash pieces⟩ = start ++ names pieces := by
  obtain ⟨b⟩ := p
  by_cases habsolute : Path.isAbsolute ⟨b⟩ = true
  · obtain rfl : n = 1 := by simpa [habsolute] using hn
    obtain ⟨rest, rfl⟩ : ∃ rest, b = slash :: rest := isAbsolute_iff_exists.mp habsolute
    refine ⟨[], by simp, segments_append_slash [] rest, fun pieces hpieces _ => ?_⟩
    exact (segments_append_slash [] (joinSlash pieces)).trans (names_splitSlash_joinSlash hpieces)
  · by_cases hhere : Path.startsHere ⟨b⟩ = true
    · obtain rfl : n = 1 := by simpa [hhere] using hn
      obtain ⟨rest, pieces, rfl, hrest, hsplit⟩ := exists_of_startsHere hhere
      refine ⟨[dot], by simp, ?_, fun pieces' hpieces hstarts => ?_⟩
      · show names (splitSlash (0x2E :: rest)) = dot :: names (splitSlash rest)
        rw [hsplit, hrest]
        rfl
      · have hstarts : pieces' <+: splitSlash rest := hstarts
        exact names_splitSlash_dot hpieces (hrest ▸ hstarts)
    · obtain rfl : n = 0 := by simpa [habsolute, hhere] using hn
      refine ⟨[], by simp, rfl, fun pieces hpieces _ => ?_⟩
      exact names_splitSlash_joinSlash hpieces

private theorem segments_of_startsHere {p : Path} (h : p.startsHere = true) :
    ∃ more, p.segments = dot :: more := by
  obtain ⟨rest, pieces, -, -, hsplit⟩ := exists_of_startsHere (b := p.bytes) h
  exact ⟨names pieces, by rw [segments, hsplit]; rfl⟩

/-- A parent is spelled with the names before a last one. Dots beside it are forgotten. -/
theorem segments_of_parent? {p q : Path} (h : p.parent? = some q) :
    ∃ dots last more, p.segments = q.segments ++ dots ++ last :: more ∧
      (∀ d ∈ dots, d = dot) ∧ (∀ d ∈ more, d = dot) ∧ (p.isAbsolute = true → last ≠ dot) := by
  rw [parent?] at h
  obtain ⟨start, hstart, hsegments, hparent⟩ := segments_start p rfl
  generalize (if p.isAbsolute || p.startsHere then 1 else 0 : Nat) = n at h hsegments hparent
  split at h
  · -- nothing but dots
    next hpieces =>
    split at h
    · next hhere =>
      cases h
      rw [Bool.and_eq_true] at hhere
      obtain ⟨more, hmore⟩ := segments_of_startsHere hhere.2
      obtain ⟨rest, hrest, hdots⟩ := eq_trimPieces_append (splitSlash (p.bytes.drop n))
      rw [hpieces, List.nil_append] at hrest
      refine ⟨[], dot, more, hmore, by simp, fun d hd => ?_, fun habsolute => ?_⟩
      · have hmem : d ∈ start ++ names rest := by
          rw [← hrest, ← hsegments, hmore]
          exact List.mem_cons_of_mem dot hd
        exact (List.mem_append.mp hmem).elim (hstart d) (hdots d)
      · simp [habsolute] at hhere
    · contradiction
  · next hpieces =>
    cases h
    obtain ⟨front, last, heq⟩ := (List.eq_nil_or_concat _).resolve_left hpieces
    rw [List.concat_eq_append] at heq
    have hstarts : trimPieces front <+: splitSlash (p.bytes.drop n) :=
      ((prefix_of_trimPieces front).trans (List.prefix_append _ _)).trans
        (heq ▸ prefix_of_trimPieces (splitSlash (p.bytes.drop n)))
    obtain ⟨dots, more, hnames, hdots, hmore⟩ := names_of_trimPieces heq
    refine ⟨dots, last, more, ?_, hdots, hmore, fun _ => (last_of_trimPieces heq).2⟩
    rw [heq, List.dropLast_concat, hparent _ (noSlash_trimPieces heq) hstarts, hsegments, hnames]
    simp only [List.append_assoc]

theorem eq_dot_of_parent? {p : Path} (h : p.parent? = none) : ∀ d ∈ p.segments, d = dot := by
  rw [parent?] at h
  obtain ⟨start, hstart, hsegments, -⟩ := segments_start p rfl
  generalize (if p.isAbsolute || p.startsHere then 1 else 0 : Nat) = n at h hsegments
  split at h
  · next hpieces =>
    obtain ⟨rest, hrest, hdots⟩ := eq_trimPieces_append (splitSlash (p.bytes.drop n))
    rw [hpieces, List.nil_append] at hrest
    rw [hsegments, hrest]
    exact fun d hd => (List.mem_append.mp hd).elim (hstart d) (hdots d)
  · contradiction

theorem segments_parent? {p q : Path} (h : p.parent? = some q) :
    q.segments <+: p.segments.dropLast := by
  obtain ⟨dots, last, more, hsegments, -⟩ := segments_of_parent? h
  rw [hsegments, List.dropLast_append_of_ne_nil (List.cons_ne_nil _ _), List.append_assoc]
  exact List.prefix_append _ _

private theorem joinSlash_prefix {a b : List Bytes} (h : a <+: b) :
    joinSlash a <+: joinSlash b := by
  induction a generalizing b with
  | nil => exact List.nil_prefix
  | cons piece a ih =>
    obtain ⟨rest, rfl⟩ := h
    cases a with
    | nil => cases rest <;> simp [joinSlash]
    | cons next a => simpa [joinSlash] using ih (List.prefix_append (next :: a) rest)

theorem bytes_parent? {p q : Path} (h : p.parent? = some q) : q.bytes <+: p.bytes := by
  rw [parent?] at h
  generalize (if p.isAbsolute || p.startsHere then 1 else 0 : Nat) = n at h
  split at h
  · split at h
    · cases h
      exact List.nil_prefix
    · contradiction
  · cases h
    have hstarts := (prefix_of_trimPieces _).trans ((List.dropLast_prefix _).trans
      (prefix_of_trimPieces (splitSlash (p.bytes.drop n))))
    have hjoin := joinSlash_prefix hstarts
    rw [joinSlash_splitSlash] at hjoin
    simpa using (List.prefix_append_right_inj (p.bytes.take n)).mpr hjoin

theorem of_mem_ancestors {P : Path → Prop} {p q : Path} (hp : P p)
    (hparent : ∀ a b, P a → a.parent? = some b → P b) (hq : q ∈ p.ancestors) : P q := by
  rw [ancestors] at hq
  generalize p.bytes.length = n at hq
  induction n generalizing p with
  | zero => exact List.mem_singleton.mp hq ▸ hp
  | succ n ih =>
    rw [ancestorsUpTo] at hq
    split at hq
    · exact List.mem_singleton.mp hq ▸ hp
    · next parent h =>
      rcases List.mem_cons.mp hq with rfl | hq
      · exact hp
      · exact ih (hparent p parent hp h) hq

theorem segments_of_mem_ancestors {p q : Path} (h : q ∈ p.ancestors) :
    q.segments <+: p.segments :=
  of_mem_ancestors (List.prefix_refl _)
    (fun _ _ ha hb => ((segments_parent? hb).trans (List.dropLast_prefix _)).trans ha) h

theorem bytes_of_mem_ancestors {p q : Path} (h : q ∈ p.ancestors) : q.bytes <+: p.bytes :=
  of_mem_ancestors (List.prefix_refl _) (fun _ _ ha hb => (bytes_parent? hb).trans ha) h

/-- A location that names pass, from the root to where they lead. -/
def OnWay (names : List Name) (k : Location) : Prop :=
  ∃ front, front <+: names ∧ k = follow [] front

instance (names : List Name) (k : Location) : Decidable (OnWay names k) :=
  decidable_of_iff (∃ front ∈ names.inits, k = follow [] front) (by simp [OnWay])

theorem OnWay.mono {a b : List Name} {k : Location} (h : OnWay a k) (hab : a <+: b) : OnWay b k := by
  obtain ⟨front, hfront, rfl⟩ := h
  exact ⟨front, hfront.trans hab, rfl⟩

theorem onWay_follow (names : List Name) : OnWay names (follow [] names) :=
  ⟨names, List.prefix_refl _, rfl⟩

/-- Where a path leads without its last name. -/
def holder (p : Path) : Location := follow [] p.segments.dropLast

theorem onWay_holder (p : Path) : OnWay p.segments p.holder :=
  (onWay_follow _).mono (List.dropLast_prefix _)

theorem Plain.holder_join {n : Name} (h : Plain n) (base : Path) :
    (base.join ⟨n⟩).holder = base.location := by
  rw [holder, h.segments_join, List.dropLast_concat, location]

theorem Plain.fileName?_join {n : Name} (h : Plain n) (base : Path) :
    (base.join ⟨n⟩).fileName? = some n := by
  have hlast : (base.join ⟨n⟩).components.getLast? = some (.name n) := by
    rw [components, h.segments_join, innerComponents, List.filterMap_append]
    simp [h.ne_dot, h.ne_dotDot, List.getLast?_append]
  rw [fileName?, hlast]

theorem follow_dots {l : Location} {dots : List Name} (h : ∀ d ∈ dots, d = dot) :
    follow l dots = l := by
  induction dots with
  | nil => rfl
  | cons d dots ih =>
    rw [follow, if_pos (h d List.mem_cons_self)]
    exact ih fun d hd => h d (List.mem_cons_of_mem _ hd)

theorem Plain.location_holdingDir {n : Name} (hn : Plain n) (base : Path) :
    (FileTree.holdingDir (base.join ⟨n⟩)).location = base.location := by
  have hjoin := hn.segments_join base
  rw [FileTree.holdingDir]
  split
  · next parent hparent =>
    obtain ⟨dots, last, more, hsegments, hdots, hmore, -⟩ := segments_of_parent? hparent
    have hmore : more = [] := by
      rw [hjoin] at hsegments
      rcases List.eq_nil_or_concat more with rfl | ⟨rest, d, rfl⟩
      · rfl
      · rw [List.concat_eq_append, ← List.cons_append, ← List.append_assoc] at hsegments
        obtain rfl : n = d := List.singleton_inj.mp (List.append_inj_right' hsegments rfl)
        exact absurd (hmore n (by simp)) hn.ne_dot
    have hbase : base.segments = parent.segments ++ dots := by
      rw [hjoin, hmore] at hsegments
      exact (List.append_inj_left' hsegments rfl)
    have hlocation : parent.location = base.location := by
      rw [location, location, hbase, follow_append, follow_dots hdots]
    split
    · next hempty =>
      rw [← hlocation, show parent = ⟨[]⟩ from congrArg Path.mk (List.isEmpty_iff.mp hempty)]
      rfl
    · exact hlocation
  · next hparent =>
    refine absurd (eq_dot_of_parent? hparent n ?_) hn.ne_dot
    rw [hjoin]
    exact List.mem_append_right _ List.mem_cons_self

theorem onWay_of_holdingDir {p : Path} {k : Location}
    (h : OnWay (FileTree.holdingDir p).segments k) : OnWay p.segments.dropLast k := by
  have hdot (h : OnWay (Path.segments ⟨dot⟩) k) : OnWay p.segments.dropLast k := by
    obtain ⟨front, hfront, rfl⟩ := h
    refine ⟨[], List.nil_prefix, ?_⟩
    rcases List.prefix_cons_iff.mp (show front <+: [dot] from hfront) with rfl | ⟨rest, rfl, hrest⟩
    · rfl
    · rw [List.prefix_nil.mp hrest]
      rfl
  rw [FileTree.holdingDir] at h
  split at h
  · next parent hparent =>
    split at h
    · exact hdot h
    · exact h.mono (segments_parent? hparent)
  · exact hdot h

end BuildCache.Path
