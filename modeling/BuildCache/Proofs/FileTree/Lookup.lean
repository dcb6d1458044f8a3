import BuildCache.FileTree.Edit

/-!
# Lookups

A lookup needs only to know where directories are, and a location that it reaches is known from
the path alone. A path that ends in a plain name is looked up where it would be written.
-/

namespace BuildCache

namespace Path

/-- A name that a directory entry can have. -/
structure Plain (n : Name) : Prop where
  ne_nil : n ≠ []
  noSlash : slash ∉ n
  ne_dot : n ≠ dot
  ne_dotDot : n ≠ dotDot

theorem splitSlash_append (a b : Bytes) :
    splitSlash (a ++ slash :: b) = splitSlash a ++ splitSlash b := by
  induction a with
  | nil => simp [splitSlash]
  | cons c rest ih =>
    rw [List.cons_append, splitSlash, splitSlash, ih]
    have hne := splitSlash_ne_nil rest
    split
    · rfl
    · cases h : splitSlash rest with
      | nil => exact absurd h hne
      | cons piece pieces => rfl

theorem splitSlash_of_noSlash {n : Bytes} (h : slash ∉ n) : splitSlash n = [n] := by
  induction n with
  | nil => rfl
  | cons c rest ih =>
    rw [List.mem_cons, not_or] at h
    rw [splitSlash, if_neg (Ne.symm h.1), ih h.2]
    rfl

theorem splitSlash_joinSlash {pieces : List Bytes} (hne : pieces ≠ [])
    (h : ∀ piece ∈ pieces, slash ∉ piece) : splitSlash (joinSlash pieces) = pieces := by
  induction pieces with
  | nil => contradiction
  | cons piece pieces ih =>
    obtain ⟨hpiece, hpieces⟩ := List.forall_mem_cons.mp h
    cases pieces with
    | nil => simpa [joinSlash] using splitSlash_of_noSlash hpiece
    | cons next pieces =>
      have hjoin : joinSlash (piece :: next :: pieces) =
          piece ++ slash :: joinSlash (next :: pieces) := by simp [joinSlash]
      rw [hjoin, splitSlash_append, splitSlash_of_noSlash hpiece, ih (by simp) hpieces]
      rfl

theorem noSlash_of_mem_splitSlash {b : Bytes} : ∀ piece ∈ splitSlash b, slash ∉ piece := by
  induction b with
  | nil => simp [splitSlash]
  | cons c rest ih =>
    rw [splitSlash]
    split
    · intro piece hp
      rcases List.mem_cons.mp hp with rfl | hp
      · exact List.not_mem_nil
      · exact ih piece hp
    · next hc =>
      cases h : splitSlash rest with
      | nil => exact absurd h (splitSlash_ne_nil rest)
      | cons first pieces =>
        rw [h] at ih
        intro piece hp
        rcases List.mem_cons.mp hp with rfl | hp
        · rw [List.mem_cons, not_or]
          exact ⟨Ne.symm hc, ih first (by simp)⟩
        · exact ih piece (by simp_all)

theorem mem_segments {p : Path} {s : Name} (h : s ∈ p.segments) : s ≠ [] ∧ slash ∉ s := by
  obtain ⟨hpiece, hne⟩ := List.mem_filter.mp h
  exact ⟨by simpa using hne, noSlash_of_mem_splitSlash s hpiece⟩

theorem segments_joinSlash {names : List Name} (h : ∀ s ∈ names, s ≠ [] ∧ slash ∉ s) :
    Path.segments ⟨joinSlash names⟩ = names := by
  cases names with
  | nil => rfl
  | cons s rest =>
    rw [Path.segments, splitSlash_joinSlash (List.cons_ne_nil s rest) fun m hm => (h m hm).2]
    exact List.filter_eq_self.mpr fun m hm => by simpa using (h m hm).1

theorem segments_append_slash (a b : Bytes) :
    Path.segments ⟨a ++ slash :: b⟩ = Path.segments ⟨a⟩ ++ Path.segments ⟨b⟩ := by
  rw [Path.segments, splitSlash_append, List.filter_append]
  rfl

theorem plain_of_mem_segments {p : Path} {n : Name} (h : n ∈ p.segments) (hdot : n ≠ dot)
    (hdots : n ≠ dotDot) : Plain n :=
  ⟨(mem_segments h).1, (mem_segments h).2, hdot, hdots⟩

theorem Plain.segments {n : Name} (h : Plain n) : Path.segments ⟨n⟩ = [n] := by
  rw [Path.segments, splitSlash_of_noSlash h.noSlash]
  simp [h.ne_nil]

theorem isAbsolute_iff_exists {p : Path} :
    p.isAbsolute = true ↔ ∃ rest, p.bytes = slash :: rest := by
  rw [isAbsolute, beq_iff_eq, List.head?_eq_some_iff]

theorem not_isAbsolute_append {s : Bytes} (hne : s ≠ []) (hslash : slash ∉ s) (rest : Bytes) :
    Path.isAbsolute ⟨s ++ rest⟩ = false := by
  cases s with
  | nil => contradiction
  | cons c s =>
    have hc : c ≠ slash := fun h => hslash (h ▸ List.mem_cons_self)
    simp [isAbsolute, hc]

theorem not_isAbsolute_of_noSlash {n : Name} (h : slash ∉ n) : Path.isAbsolute ⟨n⟩ = false := by
  by_cases hne : n = []
  · rw [hne]
    rfl
  · simpa using not_isAbsolute_append hne h []

theorem Plain.not_isAbsolute {n : Name} (h : Plain n) : Path.isAbsolute ⟨n⟩ = false :=
  not_isAbsolute_of_noSlash h.noSlash

theorem segments_join {base p : Path} (h : p.isAbsolute = false) :
    (base.join p).segments = base.segments ++ p.segments := by
  rw [join, h, if_neg Bool.false_ne_true]
  split
  · next hb =>
    rw [Bool.or_eq_true] at hb
    by_cases hempty : base.bytes = []
    · simp [Path.segments, hempty, splitSlash]
    · have hlast : base.endsInSlash = true := by simpa [hempty] using hb
      obtain ⟨front, hfront⟩ := List.getLast?_eq_some_iff.mp (beq_iff_eq.mp hlast)
      have hbase : base.segments = Path.segments ⟨front⟩ := by
        rw [← List.append_nil (Path.segments ⟨front⟩), Path.segments, hfront]
        exact segments_append_slash front []
      rw [hbase, hfront, List.append_assoc]
      exact segments_append_slash front p.bytes
  · exact segments_append_slash base.bytes p.bytes

theorem Plain.segments_join {n : Name} (h : Plain n) (base : Path) :
    (base.join ⟨n⟩).segments = base.segments ++ [n] := by
  rw [Path.segments_join h.not_isAbsolute, h.segments]

theorem not_endsInSlash_join {n : Name} (hne : n ≠ []) (hslash : slash ∉ n) (base : Path) :
    (base.join ⟨n⟩).endsInSlash = false := by
  have hlast : n.getLast? ≠ some slash := fun hn => hslash (List.mem_of_getLast? hn)
  have hc : n.getLast? = some (n.getLast hne) := List.getLast?_eq_some_getLast hne
  rw [hc] at hlast
  rw [join, not_isAbsolute_of_noSlash hslash, if_neg Bool.false_ne_true]
  split <;> simpa [endsInSlash, List.getLast?_append, List.getLast?_cons, hc] using hlast

theorem Plain.not_endsInSlash_join {n : Name} (h : Plain n) (base : Path) :
    (base.join ⟨n⟩).endsInSlash = false :=
  Path.not_endsInSlash_join h.ne_nil h.noSlash base

/-- Where names lead from a location, whatever is there. -/
def follow : Location → List Name → Location
  | l, [] => l
  | l, s :: rest =>
    if s = dot then follow l rest
    else if s = dotDot then follow l.tail rest
    else follow (s :: l) rest

theorem follow_append (l : Location) (a b : List Name) :
    follow l (a ++ b) = follow (follow l a) b := by
  fun_induction follow l a <;> simp_all [follow]

/-- The location that a path names. -/
def location (p : Path) : Location := follow [] p.segments

theorem Plain.location_join {n : Name} (h : Plain n) (base : Path) :
    (base.join ⟨n⟩).location = n :: base.location := by
  rw [location, h.segments_join, follow_append]
  simp [follow, h.ne_dot, h.ne_dotDot, location]

end Path

namespace FileTree

open BuildCache.Path

/-- The content of the file at a location, if a file is there. -/
def contentAt (t : FileTree) (l : Location) : Option Bytes := (t.entry? l).bind Entry.content?

theorem entry?_nil (t : FileTree) : t.entry? [] = some (.directory t.rootModified) := rfl

theorem entry?_cons (t : FileTree) (n : Name) (l : Location) :
    t.entry? (n :: l) = t.entries.get? (n :: l) := rfl

@[simp] theorem isDirectoryAt_root (t : FileTree) : t.isDirectoryAt [] = true := rfl

@[simp] theorem contentAt_root (t : FileTree) : t.contentAt [] = none := rfl

theorem isDirectoryAt_eq (t : FileTree) (l : Location) :
    t.isDirectoryAt l = (t.entry? l).any Entry.isDirectory := by
  cases l <;> rfl

theorem isDirectoryAt_of_cons {t : FileTree} {n : Name} {l : Location}
    (h : (t.entry? (n :: l)).isSome = true) : t.isDirectoryAt l = true :=
  t.closed n l h

theorem entry?_eq_none_iff {t : FileTree} {l : Location} :
    t.entry? l = none ↔ t.isDirectoryAt l = false ∧ t.contentAt l = none := by
  rw [isDirectoryAt_eq, contentAt]
  cases t.entry? l with
  | none => simp
  | some e => cases e <;> simp [Entry.isDirectory, Entry.content?]

theorem entry?_isSome_iff {t : FileTree} {l : Location} :
    (t.entry? l).isSome = true ↔ t.isDirectoryAt l = true ∨ (t.contentAt l).isSome = true := by
  rw [isDirectoryAt_eq, contentAt]
  cases t.entry? l with
  | none => simp
  | some e => cases e <;> simp [Entry.isDirectory, Entry.content?]

theorem isDirectoryAt_eq_false_of_contentAt {t : FileTree} {l : Location} {c : Bytes}
    (h : t.contentAt l = some c) : t.isDirectoryAt l = false := by
  rw [isDirectoryAt_eq]
  rw [contentAt] at h
  cases he : t.entry? l with
  | none => rfl
  | some e => cases e <;> simp_all [Entry.isDirectory, Entry.content?]

theorem contentAt_eq_none_of_isDirectoryAt {t : FileTree} {l : Location}
    (h : t.isDirectoryAt l = true) : t.contentAt l = none := by
  rw [← Option.not_isSome_iff_eq_none, Option.isSome_iff_exists]
  rintro ⟨c, hc⟩
  rw [isDirectoryAt_eq_false_of_contentAt hc] at h
  contradiction

theorem entry?_isSome_of_isDirectoryAt {t : FileTree} {l : Location}
    (h : t.isDirectoryAt l = true) : (t.entry? l).isSome = true := by
  rw [isDirectoryAt_eq] at h
  cases he : t.entry? l <;> simp_all

theorem exists_directory {t : FileTree} {l : Location} (h : t.isDirectoryAt l = true) :
    ∃ modified, t.entry? l = some (.directory modified) := by
  rw [isDirectoryAt_eq] at h
  cases he : t.entry? l with
  | none => simp [he] at h
  | some e => cases e <;> simp_all [Entry.isDirectory]

theorem exists_file_of_contentAt {t : FileTree} {l : Location} {c : Bytes}
    (hc : t.contentAt l = some c) : ∃ modified, t.entry? l = some (.file c modified) := by
  obtain ⟨e, he, hcontent⟩ := Option.bind_eq_some_iff.mp hc
  cases e with
  | directory => cases hcontent
  | file c' modified =>
    obtain rfl : c' = c := by simpa [Entry.content?] using hcontent
    exact ⟨modified, he⟩

theorem isDirectoryAt_of_contentAt_cons {t : FileTree} {n : Name} {l : Location} {c : Bytes}
    (h : t.contentAt (n :: l) = some c) : t.isDirectoryAt l = true := by
  apply isDirectoryAt_of_cons
  cases he : t.entry? (n :: l)
  · simp [contentAt, he] at h
  · rfl

theorem isDirectoryAt_of_below {t : FileTree} {l : Location} (names : List Name) (hne : names ≠ [])
    (h : (t.entry? (names ++ l)).isSome = true) : t.isDirectoryAt l = true := by
  induction names with
  | nil => contradiction
  | cons n rest ih =>
    have hparent : t.isDirectoryAt (rest ++ l) = true := isDirectoryAt_of_cons h
    by_cases hrest : rest = []
    · simpa [hrest] using hparent
    · exact ih hrest (entry?_isSome_of_isDirectoryAt hparent)

theorem entry?_eq_none_below {t : FileTree} {l k : Location} (h : t.isDirectoryAt l = false)
    (hk : l <:+ k) (hne : k ≠ l) : t.entry? k = none := by
  obtain ⟨names, rfl⟩ := hk
  rw [← Option.not_isSome_iff_eq_none]
  intro hsome
  rw [isDirectoryAt_of_below names (by rintro rfl; exact hne rfl) hsome] at h
  contradiction

theorem eq_follow_of_walk {t : FileTree} {l m : Location} {names : List Name}
    (h : t.walk l names = .ok m) : m = follow l names := by
  fun_induction walk t l names <;> simp_all [follow]

theorem walk_append (t : FileTree) (l : Location) (a b : List Name) :
    t.walk l (a ++ b) = (t.walk l a).bind fun m => t.walk m b := by
  fun_induction walk t l a with
  | case7 l s rest hl hdot hdots hlen hsome ih =>
    rw [List.cons_append, walk]
    simp only [hl, hdot, hdots, hlen, hsome, if_false]
    exact ih
  | _ => simp_all [walk, Except.bind]

theorem walk_mono {t t' : FileTree}
    (hdir : ∀ k, t.isDirectoryAt k = true → t'.isDirectoryAt k = true) {l m : Location}
    {names : List Name} (h : t.walk l names = .ok m) (hm : t.isDirectoryAt m = true) :
    t'.walk l names = .ok m := by
  fun_induction walk t l names with
  | case1 l => simpa [walk] using h
  | case2 => simp at h
  | case3 l rest hl ih => simp_all [walk]
  | case4 l rest hl hdot ih => simp_all [walk]
  | case5 => simp at h
  | case6 => simp at h
  | case7 l s rest hl hdot hdots hlen hsome ih =>
    have hs : t.isDirectoryAt (s :: l) = true := by
      cases rest with
      | nil =>
        simp only [walk, Except.ok.injEq] at h
        exact h ▸ hm
      | cons s' rest =>
        rw [walk] at h
        rw [← Bool.not_eq_false]
        intro hs
        simp [hs] at h
    have hsome' := entry?_isSome_of_isDirectoryAt (hdir _ hs)
    have hl' : t'.isDirectoryAt l = true := hdir l (by simpa using hl)
    have hnone : (t'.entry? (s :: l)).isNone = false := by
      cases he : t'.entry? (s :: l) <;> simp_all
    rw [walk]
    simp only [hl', hdot, hdots, hlen, hnone, Bool.not_true, Bool.false_eq_true, if_false]
    exact ih h

theorem location_of_locate {t : FileTree} {p : Path} {l : Location} (h : t.locate p = .ok l) :
    l = p.location := by
  simp only [locate, bind, Except.bind] at h
  split at h
  · contradiction
  · split at h
    · contradiction
    · next hwalk =>
      split at h
      · contradiction
      · cases h
        exact eq_follow_of_walk hwalk

theorem entry?_of_stat {t : FileTree} {p : Path} {e : Entry} (h : t.stat p = .ok e) :
    t.entry? p.location = some e := by
  rw [stat] at h
  cases hlocate : t.locate p with
  | error error => simp [hlocate, bind, Except.bind] at h
  | ok l =>
    obtain rfl := location_of_locate hlocate
    rw [hlocate] at h
    cases he : t.entry? p.location <;> simp_all [bind, Except.bind]

/-- Nothing differs but the contents of files at some locations. -/
structure SameBut (hidden : Location → Prop) (t t' : FileTree) : Prop where
  isDirectoryAt : ∀ k, t'.isDirectoryAt k = t.isDirectoryAt k
  contentAt : ∀ k, ¬hidden k → t'.contentAt k = t.contentAt k

theorem SameBut.isNone_entry {hidden : Location → Prop} {t t' : FileTree} (h : SameBut hidden t t')
    {k : Location} (hk : ¬hidden k) : (t'.entry? k).isNone = (t.entry? k).isNone := by
  rw [Bool.eq_iff_iff, Option.isNone_iff_eq_none, Option.isNone_iff_eq_none, entry?_eq_none_iff,
    entry?_eq_none_iff, h.isDirectoryAt, h.contentAt k hk]

/-- A walk depends on what is a directory, and on what is there at all, at the places that it
comes by. -/
theorem walk_congr {t t' : FileTree} {l : Location} {names : List Name}
    (h : ∀ front rest, names = front ++ rest →
      t'.isDirectoryAt (follow l front) = t.isDirectoryAt (follow l front) ∧
        (t'.entry? (follow l front)).isNone = (t.entry? (follow l front)).isNone) :
    t'.walk l names = t.walk l names := by
  induction names generalizing l with
  | nil => rfl
  | cons n names ih =>
    have hrest {m : Location} (hm : ∀ front, follow l (n :: front) = follow m front) :
        t'.walk m names = t.walk m names :=
      ih fun front rest heq => hm front ▸ h (n :: front) rest (by rw [heq]; rfl)
    have hdir : t'.isDirectoryAt l = t.isDirectoryAt l := (h [] (n :: names) rfl).1
    rw [FileTree.walk, FileTree.walk, hdir]
    by_cases hdot : n = dot
    · rw [if_pos hdot, if_pos hdot, hrest fun front => by rw [follow, if_pos hdot]]
    · by_cases hdots : n = dotDot
      · rw [if_neg hdot, if_neg hdot, if_pos hdots, if_pos hdots,
          hrest fun front => by rw [follow, if_neg hdot, if_pos hdots]]
      · have hfollow (front : List Name) : follow l (n :: front) = follow (n :: l) front := by
          rw [follow, if_neg hdot, if_neg hdots]
        have hnone : (t'.entry? (n :: l)).isNone = (t.entry? (n :: l)).isNone := by
          have hn := (h [n] names rfl).2
          rwa [hfollow] at hn
        simp only [hdot, hdots, if_false, hnone, hrest hfollow]

theorem SameBut.walk {hidden : Location → Prop} {t t' : FileTree} (h : SameBut hidden t t')
    {l : Location} {names : List Name}
    (hnames : ∀ front rest, names = front ++ rest → ¬hidden (follow l front)) :
    t'.walk l names = t.walk l names :=
  walk_congr fun front rest heq => ⟨h.isDirectoryAt _, h.isNone_entry (hnames front rest heq)⟩

theorem SameBut.exists? {hidden : Location → Prop} {t t' : FileTree} (h : SameBut hidden t t')
    {p : Path} (hp : ∀ front rest, p.segments = front ++ rest → ¬hidden (follow [] front)) :
    t'.exists? p = t.exists? p := by
  have hlocate : t'.locate p = t.locate p := by
    simp only [locate, bind, Except.bind, h.walk hp, h.isDirectoryAt]
  rw [FileTree.exists?, FileTree.exists?, stat, stat, hlocate]
  cases hl : t.locate p with
  | error e => rfl
  | ok l =>
    have hlocation : l = p.location := location_of_locate hl
    have hhidden : ¬hidden l := hlocation ▸ hp p.segments [] (List.append_nil _).symm
    have hnone := h.isNone_entry hhidden
    simp only [bind, Except.bind]
    cases he : t.entry? l <;> cases he' : t'.entry? l <;> simp_all

end FileTree

end BuildCache
