import BuildCache.Path.Normal
import BuildCache.Proofs.Path.Parents
import Mathlib.Data.List.Flatten

/-!
# Canonical paths

The normal form of an absolute path spells the location that the path names: plain names with one
slash before each. It leads wherever the path leads.
-/

namespace BuildCache

namespace Path

variable {p q : Path} {names : List Name}

/-- The path that names spell from the root. -/
def rooted (names : List Name) : Path := ⟨slash :: joinSlash names⟩

/-- An absolute path in its plainest spelling. -/
def Canonical (p : Path) : Prop := ∃ names : List Name, (∀ n ∈ names, Plain n) ∧ p = rooted names

@[simp] theorem isAbsolute_rooted (names : List Name) : (rooted names).isAbsolute = true := rfl

theorem Canonical.isAbsolute (h : Canonical p) : p.isAbsolute = true := by
  obtain ⟨names, -, rfl⟩ := h
  rfl

theorem segments_rooted (h : ∀ n ∈ names, Plain n) : (rooted names).segments = names :=
  calc (rooted names).segments = segments ⟨[]⟩ ++ segments ⟨joinSlash names⟩ :=
        segments_append_slash [] (joinSlash names)
    _ = names := segments_joinSlash fun n hn => ⟨(h n hn).ne_nil, (h n hn).noSlash⟩

theorem innerComponents_dot (rest : List Name) :
    innerComponents (dot :: rest) = innerComponents rest := by
  simp [innerComponents]

theorem innerComponents_dotDot (rest : List Name) :
    innerComponents (dotDot :: rest) = .up :: innerComponents rest := by
  simp [innerComponents, show dotDot ≠ dot by decide]

theorem innerComponents_name {s : Name} (hdot : s ≠ dot) (hdots : s ≠ dotDot)
    (rest : List Name) : innerComponents (s :: rest) = .name s :: innerComponents rest := by
  simp [innerComponents, hdot, hdots]

theorem plain_of_mem_follow {l : Location} (hl : ∀ n ∈ l, Plain n)
    (hnames : ∀ n ∈ names, n ≠ [] ∧ slash ∉ n) : ∀ n ∈ follow l names, Plain n := by
  induction names generalizing l with
  | nil => exact hl
  | cons s rest ih =>
    obtain ⟨⟨hne, hslash⟩, hrest⟩ := List.forall_mem_cons.mp hnames
    rw [follow]
    split
    · exact ih hl hrest
    · next hdot =>
      split
      · exact ih (fun n hn => hl n (List.mem_of_mem_tail hn)) hrest
      · next hdots => exact ih (List.forall_mem_cons.mpr ⟨⟨hne, hslash, hdot, hdots⟩, hl⟩) hrest

/-- How many names the segments take away from below a stack of `n` names. -/
def climbFrom : Nat → List Name → Nat
  | _, [] => 0
  | n, s :: rest =>
    if s = dot then climbFrom n rest
    else if s = dotDot then if n = 0 then climbFrom 0 rest + 1 else climbFrom (n - 1) rest
    else climbFrom (n + 1) rest

/-- How far a relative path climbs out of the directory that it is taken from. -/
def climb (p : Path) : Nat := climbFrom 0 p.segments

/-- A loop over components that keeps, in whatever form, how far it has climbed and the names that
it has passed since. -/
structure Tracks {β : Type} (f : β → Component → β) (state : Nat → Location → β) : Prop where
  here (n : Nat) (l : Location) : f (state n l) .here = state n l
  name (n : Nat) {m : Name} {l : Location} (h : ∀ k ∈ m :: l, Plain k) :
    f (state n l) (.name m) = state n (m :: l)
  back (n : Nat) {m : Name} {l : Location} (h : ∀ k ∈ m :: l, Plain k) :
    f (state n (m :: l)) .up = state n l
  climb (n : Nat) : f (state n []) .up = state (n + 1) []

namespace Tracks

variable {β : Type} {f : β → Component → β} {state : Nat → Location → β}

theorem foldl_innerComponents (h : Tracks f state) {segments : List Name} {l : Location} (n : Nat)
    (hl : ∀ k ∈ l, Plain k) (hsegments : ∀ s ∈ segments, s ≠ [] ∧ slash ∉ s) :
    (innerComponents segments).foldl f (state n l) =
      state (n + climbFrom l.length segments) (follow l segments) := by
  induction segments generalizing n l with
  | nil => rfl
  | cons s rest ih =>
    obtain ⟨⟨hne, hslash⟩, hrest⟩ := List.forall_mem_cons.mp hsegments
    rw [follow, climbFrom]
    by_cases hdot : s = dot
    · rw [if_pos hdot, if_pos hdot, hdot, innerComponents_dot]
      exact ih n hl hrest
    · rw [if_neg hdot, if_neg hdot]
      by_cases hdots : s = dotDot
      · rw [if_pos hdots, if_pos hdots, hdots, innerComponents_dotDot, List.foldl_cons]
        cases l with
        | nil =>
          rw [h.climb n, ih (n + 1) hl hrest, Nat.add_assoc, Nat.add_comm 1]
          rfl
        | cons m l =>
          rw [h.back n hl]
          exact ih n (List.forall_mem_cons.mp hl).2 hrest
      · have hl' : ∀ k ∈ s :: l, Plain k :=
          List.forall_mem_cons.mpr ⟨⟨hne, hslash, hdot, hdots⟩, hl⟩
        rw [if_neg hdots, if_neg hdots, innerComponents_name hdot hdots, List.foldl_cons,
          h.name n hl']
        exact ih n hl' hrest

/-- Only the first step of the loop depends on what the path starts with. -/
theorem foldl_components (h : Tracks f state) {init : β}
    (hroot : p.isAbsolute = true → f init .root = state 0 [])
    (hinit : p.isAbsolute = false → init = state 0 []) :
    p.components.foldl f init = state p.climb p.location := by
  have hinner : (innerComponents p.segments).foldl f (state 0 []) = state p.climb p.location := by
    rw [h.foldl_innerComponents 0 (by simp) fun s => mem_segments, Nat.zero_add]
    rfl
  rw [components]
  cases habsolute : p.isAbsolute with
  | true =>
    rw [if_pos rfl, List.singleton_append, List.foldl_cons, hroot habsolute, hinner]
  | false =>
    rw [if_neg Bool.false_ne_true, hinit habsolute]
    split
    · rw [List.singleton_append, List.foldl_cons, h.here, hinner]
    · exact hinner

end Tracks

theorem settle_name (stack : List Component) (n : Name) :
    settle stack (.name n) = .name n :: stack := by
  rcases stack with _ | ⟨c, stack⟩
  · rfl
  · cases c <;> rfl

/-- Only what is below the names depends on how far they are from the start. -/
theorem tracks_settle {base : Nat → List Component}
    (hclimb : ∀ n, settle (base n) .up = base (n + 1)) :
    Tracks settle fun n l => l.map Component.name ++ base n where
  here _ _ := rfl
  name _ _ _ _ := settle_name _ _
  back _ _ _ _ := rfl
  climb := hclimb

theorem normalize_of_isAbsolute (h : p.isAbsolute = true) :
    p.normalize = rooted p.location.reverse := by
  have htracks : Tracks settle fun _ l => l.map Component.name ++ [.root] :=
    tracks_settle fun _ => rfl
  have hfold : p.components.foldl settle [] = p.location.map Component.name ++ [.root] :=
    htracks.foldl_components (fun _ => rfl) fun hrelative => by simp [h] at hrelative
  rw [normalize, normalComponents, hfold, List.reverse_append, ← List.map_reverse]
  show rooted ((p.location.reverse.map Component.name).map Component.text) = _
  rw [List.map_map]
  exact congrArg rooted (List.map_id _)

theorem plain_of_mem_location : ∀ n ∈ p.location, Plain n :=
  plain_of_mem_follow (by simp) fun _ => mem_segments

theorem canonical_normalize (h : p.isAbsolute = true) : Canonical p.normalize :=
  ⟨p.location.reverse, fun n hn => plain_of_mem_location n (List.mem_reverse.mp hn),
    normalize_of_isAbsolute h⟩

theorem follow_of_plain {l : Location} (h : ∀ n ∈ names, Plain n) :
    follow l names = names.reverse ++ l := by
  induction names generalizing l with
  | nil => rfl
  | cons n names ih =>
    obtain ⟨hn, hnames⟩ := List.forall_mem_cons.mp h
    rw [follow, if_neg hn.ne_dot, if_neg hn.ne_dotDot, ih hnames]
    simp

theorem location_rooted (h : ∀ n ∈ names, Plain n) : (rooted names).location = names.reverse := by
  rw [location, segments_rooted h, follow_of_plain h, List.append_nil]

theorem Canonical.normalize (h : Canonical p) : p.normalize = p := by
  obtain ⟨names, hnames, rfl⟩ := h
  rw [normalize_of_isAbsolute rfl, location_rooted hnames, List.reverse_reverse]

theorem canonical_iff : Canonical p ↔ p.isAbsolute = true ∧ p.normalize = p :=
  ⟨fun h => ⟨h.isAbsolute, h.normalize⟩, fun ⟨h, heq⟩ => heq ▸ canonical_normalize h⟩

theorem location_normalize (h : p.isAbsolute = true) : p.normalize.location = p.location := by
  rw [normalize_of_isAbsolute h, location_rooted, List.reverse_reverse]
  exact fun n hn => plain_of_mem_location n (List.mem_reverse.mp hn)

theorem location_join_congr (h : p.location = q.location) (m : Path) :
    (p.join m).location = (q.join m).location := by
  by_cases hm : m.isAbsolute = true
  · rw [join, join, if_pos hm, if_pos hm]
  · rw [location, location, segments_join (Bool.eq_false_iff.mpr hm),
      segments_join (Bool.eq_false_iff.mpr hm), follow_append, follow_append]
    exact congrArg (follow · m.segments) h

private theorem follow_sublist (l : Location) (names : List Name) :
    (follow l names).reverse.Sublist (l.reverse ++ names) := by
  induction names generalizing l with
  | nil => simp [follow]
  | cons s rest ih =>
    rw [follow]
    split
    · exact (ih l).trans ((List.sublist_cons_self s rest).append_left l.reverse)
    · split
      · refine (ih l.tail).trans ?_
        exact (List.tail_sublist l).reverse.append (List.sublist_cons_self s rest)
      · simpa using ih (s :: l)

private theorem joinSlash_cons (n : Name) (rest : List Name) :
    joinSlash (n :: rest) = n ++ rest.flatMap (slash :: ·) := by
  induction rest generalizing n with
  | nil => simp [joinSlash]
  | cons next rest ih =>
    have hjoin : joinSlash (n :: next :: rest) = n ++ slash :: joinSlash (next :: rest) := by
      simp [joinSlash]
    rw [hjoin, ih, List.flatMap_cons]
    rfl

theorem slash_joinSlash (hne : names ≠ []) :
    slash :: joinSlash names = names.flatMap (slash :: ·) := by
  cases names with
  | nil => contradiction
  | cons n rest =>
    rw [joinSlash_cons, List.flatMap_cons]
    rfl

theorem Plain.not_isAbsolute_joinSlash {n : Name} (h : Plain n) (rest : List Name) :
    isAbsolute ⟨joinSlash (n :: rest)⟩ = false := by
  rw [joinSlash_cons]
  exact not_isAbsolute_append h.ne_nil h.noSlash _

theorem endsInSlash_rooted (hne : names ≠ []) (h : ∀ n ∈ names, Plain n) :
    (rooted names).endsInSlash = false := by
  obtain ⟨front, last, rfl⟩ := (List.eq_nil_or_concat names).resolve_left hne
  rw [List.concat_eq_append] at hne h ⊢
  have hlast : Plain last := h last (by simp)
  have hbytes : (rooted (front ++ [last])).bytes = front.flatMap (slash :: ·) ++ slash :: last := by
    rw [rooted, slash_joinSlash hne, List.flatMap_append]
    simp
  have hend : last.getLast? ≠ some slash := fun hl => hlast.noSlash (List.mem_of_getLast? hl)
  rw [List.getLast?_eq_some_getLast hlast.ne_nil] at hend
  rw [endsInSlash, hbytes]
  simpa [List.getLast?_append, List.getLast?_cons,
    List.getLast?_eq_some_getLast hlast.ne_nil] using hend

theorem withSuffix_rooted (front : List Name) (last : Name) (suffix : String) :
    (rooted (front ++ [last])).withSuffix suffix =
      rooted (front ++ [last ++ Bytes.ofString suffix]) := by
  have hne (n : Name) : front ++ [n] ≠ [] := List.append_ne_nil_of_right_ne_nil front (by simp)
  rw [withSuffix, rooted, rooted, slash_joinSlash (hne _), slash_joinSlash (hne _)]
  simp

theorem join_rooted {more : List Name} (h : ∀ n ∈ names, Plain n) (hmore : ∀ n ∈ more, Plain n)
    (hne : more ≠ []) : (rooted names).join ⟨joinSlash more⟩ = rooted (names ++ more) := by
  have hrelative : isAbsolute ⟨joinSlash more⟩ = false := by
    cases more with
    | nil => contradiction
    | cons n rest => exact (hmore n List.mem_cons_self).not_isAbsolute_joinSlash rest
  rw [join, hrelative, if_neg Bool.false_ne_true]
  by_cases hnames : names = []
  · subst hnames
    rfl
  · have hends := endsInSlash_rooted hnames h
    rw [hends, Bool.or_false, if_neg (by simp [rooted]), rooted, rooted,
      slash_joinSlash (List.append_ne_nil_of_right_ne_nil names hne), List.flatMap_append,
      ← slash_joinSlash hnames, ← slash_joinSlash hne]

/-- A normal form leaves bytes of the path out and puts none in. -/
theorem normalize_sublist (h : p.isAbsolute = true) : p.normalize.bytes.Sublist p.bytes := by
  obtain ⟨rest, hrest⟩ := isAbsolute_iff_exists.mp h
  rw [normalize_of_isAbsolute h, rooted]
  by_cases hnames : p.location.reverse = []
  · rw [hnames, hrest]
    exact List.cons_sublist_cons.mpr (List.nil_sublist rest)
  · have hpieces : p.segments.Sublist (splitSlash rest) := by
      rw [segments, hrest, splitSlash, if_pos rfl, List.filter_cons_of_neg (by simp)]
      exact List.filter_sublist
    rw [slash_joinSlash hnames, hrest, ← joinSlash_splitSlash rest,
      slash_joinSlash (splitSlash_ne_nil rest)]
    exact ((follow_sublist [] p.segments).trans hpieces).flatMap _

theorem bytes_ne_nil (h : p.isAbsolute = true) : p.bytes ≠ [] := by
  intro hnil
  simp [isAbsolute, hnil] at h

theorem isAbsolute_join {base : Path} (h : base.isAbsolute = true) (p : Path) :
    (base.join p).isAbsolute = true := by
  rw [join]
  split
  · assumption
  · obtain ⟨b⟩ := base
    cases b with
    | nil => simp [Path.isAbsolute] at h
    | cons c rest => split <;> exact h

theorem isAbsolute_withSuffix (h : p.isAbsolute = true) (suffix : String) :
    (p.withSuffix suffix).isAbsolute = true := by
  obtain ⟨b⟩ := p
  cases b with
  | nil => simp [Path.isAbsolute] at h
  | cons c rest => exact h

theorem isAbsolute_parent? (h : p.isAbsolute = true) (hq : p.parent? = some q) :
    q.isAbsolute = true := by
  rw [parent?, h] at hq
  simp only [Bool.true_or, if_true, Bool.not_true, Bool.false_and, Bool.false_eq_true,
    if_false] at hq
  obtain ⟨b⟩ := p
  split at hq
  · contradiction
  · cases hq
    cases b with
    | nil => simp [Path.isAbsolute] at h
    | cons c rest => exact h

theorem isAbsolute_of_mem_ancestors (h : p.isAbsolute = true) (hq : q ∈ p.ancestors) :
    q.isAbsolute = true :=
  of_mem_ancestors h (fun _ _ => isAbsolute_parent?) hq

end Path

namespace FileTree

open BuildCache.Path

variable {t : FileTree} {p : Path}

private theorem walk_reverse {l m : Location} {names : List Name} (hplain : ∀ n ∈ l, Plain n)
    (hnames : ∀ n ∈ names, n ≠ [] ∧ slash ∉ n) (hl : t.walk [] l.reverse = .ok l)
    (h : t.walk l names = .ok m) : t.walk [] m.reverse = .ok m := by
  fun_induction walk t l names with
  | case1 l =>
    cases h
    exact hl
  | case2 => contradiction
  | case3 l rest hdir ih => exact ih hplain (List.forall_mem_cons.mp hnames).2 hl h
  | case4 l rest hdir hdot ih =>
    have hplain' : ∀ n ∈ l.tail, Plain n := fun n hn => hplain n (List.mem_of_mem_tail hn)
    refine ih hplain' (List.forall_mem_cons.mp hnames).2 ?_ h
    cases l with
    | nil => exact hl
    | cons n l =>
      rw [List.reverse_cons, walk_append] at hl
      cases hwalk : t.walk [] l.reverse with
      | error e =>
        rw [hwalk] at hl
        contradiction
      | ok k =>
        have hk := eq_follow_of_walk hwalk
        rw [follow_of_plain fun n hn =>
          hplain n (List.mem_cons_of_mem _ (List.mem_reverse.mp hn)), List.append_nil,
          List.reverse_reverse] at hk
        rw [List.tail_cons, hwalk, hk]
  | case5 => contradiction
  | case6 => contradiction
  | case7 l s rest hdir hdot hdots hlength hsome ih =>
    obtain ⟨⟨hne, hslash⟩, hrest⟩ := List.forall_mem_cons.mp hnames
    refine ih (List.forall_mem_cons.mpr ⟨⟨hne, hslash, hdot, hdots⟩, hplain⟩) hrest ?_ h
    rw [List.reverse_cons, walk_append, hl]
    simp [Except.bind, walk, hdir, hdot, hdots, hlength, hsome]

theorem walk_normalize {l : Location} (h : p.isAbsolute = true)
    (hp : t.walk [] p.segments = .ok l) : t.walk [] p.normalize.segments = .ok l := by
  obtain rfl := eq_follow_of_walk hp
  rw [normalize_of_isAbsolute h, segments_rooted fun n hn =>
    plain_of_mem_location n (List.mem_reverse.mp hn)]
  exact walk_reverse (by simp) (fun n => mem_segments) rfl hp

theorem checkSpelling_eq_ok_iff :
    checkSpelling p = .ok () ↔
      0 ∉ p.bytes ∧ p.bytes.length ≤ maxPathLength ∧ p.bytes ≠ [] := by
  simp only [checkSpelling, List.contains_iff_mem, List.isEmpty_iff]
  split
  · simp_all
  · split
    · next hlong => exact iff_of_false (by simp) fun h => absurd h.2.1 (by omega)
    · next hshort => split <;> simp_all

theorem checkSpelling_normalize (h : p.isAbsolute = true) (hp : checkSpelling p = .ok ()) :
    checkSpelling p.normalize = .ok () := by
  have hsub := normalize_sublist h
  obtain ⟨hnul, hshort, -⟩ := checkSpelling_eq_ok_iff.mp hp
  exact checkSpelling_eq_ok_iff.mpr ⟨fun hmem => hnul (hsub.subset hmem),
    hsub.length_le.trans hshort, bytes_ne_nil (canonical_normalize h).isAbsolute⟩

/-- The normal form of a path leads wherever the path leads. -/
theorem locate_normalize {l : Location} (h : p.isAbsolute = true) (hp : t.locate p = .ok l) :
    t.locate p.normalize = .ok l := by
  obtain rfl := location_of_locate hp
  simp only [locate, bind, Except.bind] at hp ⊢
  cases hspelling : checkSpelling p with
  | error e => simp [hspelling] at hp
  | ok u =>
    simp only [hspelling] at hp
    cases hwalk : t.walk [] p.segments with
    | error e => simp [hwalk] at hp
    | ok m =>
      obtain rfl : m = p.location := eq_follow_of_walk hwalk
      rw [checkSpelling_normalize h hspelling, walk_normalize h hwalk]
      by_cases hroot : p.location = []
      · simp [hroot]
      · rw [normalize_of_isAbsolute h, endsInSlash_rooted (by simpa using hroot) fun n hn =>
          plain_of_mem_location n (List.mem_reverse.mp hn)]
        rfl

theorem stat_normalize {e : Entry} (h : p.isAbsolute = true) (hp : t.stat p = .ok e) :
    t.stat p.normalize = .ok e := by
  rw [stat] at hp ⊢
  cases hl : t.locate p with
  | error error => simp [hl, bind, Except.bind] at hp
  | ok l =>
    rw [hl] at hp
    rw [locate_normalize h hl]
    exact hp

theorem isDirectory_normalize (h : p.isAbsolute = true) (hp : t.isDirectory p = true) :
    t.isDirectory p.normalize = true := by
  rw [isDirectory] at hp ⊢
  cases hstat : t.stat p with
  | error e => simp [hstat] at hp
  | ok e =>
    rw [hstat] at hp
    rw [stat_normalize h hstat]
    exact hp

theorem isFile_normalize (h : p.isAbsolute = true) (hp : t.isFile p = true) :
    t.isFile p.normalize = true := by
  rw [isFile] at hp ⊢
  cases hstat : t.stat p with
  | error e => simp [hstat] at hp
  | ok e =>
    rw [hstat] at hp
    rw [stat_normalize h hstat]
    exact hp

end FileTree

end BuildCache
