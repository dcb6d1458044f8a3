import BuildCache.Proofs.Path.Canonical

/-!
# Where normal forms start

A normal form spells plain names behind an origin: the root, or as many `..` as the path climbs
out of the directory that it is taken from. Origin and location are all that a normal form keeps
of a path, and a normal form keeps them.
-/

namespace BuildCache.Path

variable {p q : Path} {names : List Name} {l : Location}

/-- A piece of a spelling that is a component of its own wherever it stands. -/
structure Solid (s : Name) : Prop where
  ne_nil : s ≠ []
  noSlash : slash ∉ s
  ne_dot : s ≠ dot

theorem Plain.solid {n : Name} (h : Plain n) : Solid n := ⟨h.ne_nil, h.noSlash, h.ne_dot⟩

theorem solid_dotDot : Solid dotDot := ⟨by decide, by decide, by decide⟩

theorem isAbsolute_joinSlash {pieces : List Name} (h : ∀ s ∈ pieces, Solid s) :
    isAbsolute ⟨joinSlash pieces⟩ = false := by
  cases pieces with
  | nil => rfl
  | cons s pieces =>
    have hs := h s List.mem_cons_self
    cases pieces with
    | nil => simpa [joinSlash] using not_isAbsolute_of_noSlash hs.noSlash
    | cons next pieces =>
      simpa [joinSlash] using not_isAbsolute_append hs.ne_nil hs.noSlash _

theorem startsHere_joinSlash {pieces : List Name} (h : ∀ s ∈ pieces, Solid s) :
    startsHere ⟨joinSlash pieces⟩ = false := by
  cases pieces with
  | nil => rfl
  | cons s pieces =>
    rw [startsHere, splitSlash_joinSlash (List.cons_ne_nil s pieces) fun m hm => (h m hm).noSlash]
    simpa using (h s List.mem_cons_self).ne_dot

theorem Solid.segments_joinSlash {pieces : List Name} (h : ∀ s ∈ pieces, Solid s) :
    segments ⟨joinSlash pieces⟩ = pieces :=
  Path.segments_joinSlash fun s hs => ⟨(h s hs).ne_nil, (h s hs).noSlash⟩

theorem components_joinSlash {pieces : List Name} (h : ∀ s ∈ pieces, Solid s) :
    components ⟨joinSlash pieces⟩ = innerComponents pieces := by
  rw [components, isAbsolute_joinSlash h, startsHere_joinSlash h, Solid.segments_joinSlash h]
  rfl

theorem innerComponents_of_plain {names : List Name} (h : ∀ n ∈ names, Plain n) :
    innerComponents names = names.map Component.name := by
  induction names with
  | nil => rfl
  | cons n names ih =>
    obtain ⟨hn, hnames⟩ := List.forall_mem_cons.mp h
    rw [innerComponents_name hn.ne_dot hn.ne_dotDot, ih hnames, List.map_cons]

inductive Origin where
  | root
  | above (n : Nat)
deriving DecidableEq

namespace Origin

/-- The directory so many levels further up. Above the root there is none. -/
def climb : Origin → Nat → Origin
  | root, _ => root
  | above n, m => above (n + m)

def isRoot : Origin → Bool
  | root => true
  | above _ => false

def components : Origin → List Component
  | root => [.root]
  | above n => List.replicate n .up

/-- What a lookup walks before the names. -/
def segments : Origin → List Name
  | root => []
  | above n => List.replicate n dotDot

/-- Names spelled from there. -/
def spell (o : Origin) (names : List Name) : Path :=
  ofComponents (o.components ++ names.map Component.name)

theorem climb_climb (o : Origin) (n m : Nat) : (o.climb n).climb m = o.climb (n + m) := by
  cases o with
  | root => rfl
  | above k => exact congrArg above (Nat.add_assoc k n m)

theorem reverse_components (o : Origin) : o.components.reverse = o.components := by
  cases o with
  | root => rfl
  | above n => exact List.reverse_replicate

theorem settle_up (o : Origin) (n : Nat) :
    settle (o.climb n).components .up = (o.climb (n + 1)).components := by
  cases o with
  | root => rfl
  | above k =>
    rw [climb, climb, components, components, ← Nat.add_assoc]
    cases k + n <;> rfl

private theorem map_text (names : List Name) :
    (names.map Component.name).map Component.text = names :=
  (List.map_map ..).trans (List.map_id _)

theorem spell_root (names : List Name) : root.spell names = rooted names :=
  congrArg rooted (map_text names)

theorem spell_above (n : Nat) (names : List Name) :
    (above n).spell names = ⟨joinSlash (List.replicate n dotDot ++ names)⟩ := by
  have htext : ((above n).components ++ names.map Component.name).map Component.text =
      List.replicate n dotDot ++ names := by
    rw [List.map_append, map_text, components, List.map_replicate]
    rfl
  rw [spell, ← htext]
  cases n with
  | zero => cases names <;> rfl
  | succ n => rfl

theorem solid_of_mem {n : Nat} (h : ∀ n ∈ names, Plain n) :
    ∀ s ∈ List.replicate n dotDot ++ names, Solid s := fun s hs =>
  (List.mem_append.mp hs).elim (fun hs => List.eq_of_mem_replicate hs ▸ solid_dotDot)
    fun hs => (h s hs).solid

theorem isAbsolute_spell (o : Origin) (h : ∀ n ∈ names, Plain n) :
    (o.spell names).isAbsolute = o.isRoot := by
  cases o with
  | root => rw [spell_root, isAbsolute_rooted, isRoot]
  | above n => rw [spell_above, isAbsolute_joinSlash (solid_of_mem h), isRoot]

theorem segments_spell (o : Origin) (h : ∀ n ∈ names, Plain n) :
    (o.spell names).segments = o.segments ++ names := by
  cases o with
  | root => rw [spell_root, segments_rooted h, segments, List.nil_append]
  | above n => rw [spell_above, Solid.segments_joinSlash (solid_of_mem h), segments]

private theorem innerComponents_climbing (n : Nat) (h : ∀ m ∈ names, Plain m) :
    innerComponents (List.replicate n dotDot ++ names) =
      List.replicate n .up ++ names.map Component.name := by
  induction n with
  | zero => exact innerComponents_of_plain h
  | succ n ih =>
    rw [List.replicate_succ, List.replicate_succ, List.cons_append, List.cons_append,
      innerComponents_dotDot, ih]

theorem components_spell (o : Origin) (h : ∀ n ∈ names, Plain n) :
    (o.spell names).components = o.components ++ names.map Component.name := by
  cases o with
  | root =>
    rw [spell_root, Path.components, isAbsolute_rooted, segments_rooted h,
      innerComponents_of_plain h]
    rfl
  | above n =>
    rw [spell_above, components_joinSlash (solid_of_mem h), innerComponents_climbing n h]
    rfl

private theorem follow_segments (o : Origin) : follow [] o.segments = [] := by
  cases o with
  | root => rfl
  | above n =>
    rw [segments]
    induction n with
    | zero => rfl
    | succ n ih => exact ih

theorem location_spell (o : Origin) (h : ∀ n ∈ names, Plain n) :
    (o.spell names).location = names.reverse := by
  rw [location, segments_spell o h, follow_append, follow_segments, follow_of_plain h,
    List.append_nil]

end Origin

theorem climbFrom_append (l : Location) (a b : List Name) :
    climbFrom l.length (a ++ b) = climbFrom l.length a + climbFrom (follow l a).length b := by
  induction a generalizing l with
  | nil => exact (Nat.zero_add _).symm
  | cons s rest ih =>
    rw [List.cons_append, climbFrom, climbFrom, follow]
    by_cases hdot : s = dot
    · rw [if_pos hdot, if_pos hdot, if_pos hdot]
      exact ih l
    · rw [if_neg hdot, if_neg hdot, if_neg hdot]
      by_cases hdots : s = dotDot
      · rw [if_pos hdots, if_pos hdots, if_pos hdots]
        cases l with
        | nil => exact (congrArg (· + 1) (ih [])).trans (Nat.add_right_comm _ _ 1)
        | cons n l => exact ih l
      · rw [if_neg hdots, if_neg hdots, if_neg hdots]
        exact ih (s :: l)

theorem climbFrom_of_plain (n : Nat) (h : ∀ m ∈ names, Plain m) : climbFrom n names = 0 := by
  induction names generalizing n with
  | nil => rfl
  | cons m names ih =>
    obtain ⟨hm, hnames⟩ := List.forall_mem_cons.mp h
    rw [climbFrom, if_neg hm.ne_dot, if_neg hm.ne_dotDot, ih (n + 1) hnames]

theorem climbFrom_replicate (n : Nat) : climbFrom 0 (List.replicate n dotDot) = n := by
  induction n with
  | zero => rfl
  | succ n ih => exact congrArg (· + 1) ih

/-- Where a walk along the path starts. -/
def outset (p : Path) : Origin := if p.isAbsolute then .root else .above 0

/-- Where the names that the path does not take back start. -/
def origin (p : Path) : Origin := p.outset.climb p.climb

theorem origin_of_isAbsolute (h : p.isAbsolute = true) : p.origin = .root := by
  rw [origin, outset, if_pos h, Origin.climb]

theorem origin_of_not_isAbsolute (h : p.isAbsolute = false) : p.origin = .above p.climb := by
  rw [origin, outset, h, if_neg Bool.false_ne_true, Origin.climb, Nat.zero_add]

theorem isRoot_origin (p : Path) : p.origin.isRoot = p.isAbsolute := by
  cases h : p.isAbsolute with
  | true => rw [origin_of_isAbsolute h, Origin.isRoot]
  | false => rw [origin_of_not_isAbsolute h, Origin.isRoot]

theorem plain_of_mem_names : ∀ n ∈ p.location.reverse, Plain n := fun n hn =>
  plain_of_mem_location n (List.mem_reverse.mp hn)

/-- A normal form spells the location of the path from its origin. -/
theorem normalize_eq_spell (p : Path) : p.normalize = p.origin.spell p.location.reverse := by
  have htracks : Tracks settle fun n l =>
      l.map Component.name ++ (p.outset.climb n).components :=
    tracks_settle fun n => Origin.settle_up p.outset n
  have hfold : p.components.foldl settle [] =
      p.location.map Component.name ++ p.origin.components := by
    refine htracks.foldl_components (fun h => ?_) fun h => ?_ <;>
      simp [outset, h, Origin.climb, Origin.components, settle]
  rw [normalize, normalComponents, hfold, List.reverse_append, Origin.reverse_components,
    ← List.map_reverse, Origin.spell]

theorem settleWithin_name (stack : List Component) (n : Name) :
    settleWithin stack (.name n) = .name n :: stack := by
  cases stack with
  | nil => rfl
  | cons c stack => cases c <;> rfl

/-- Above what `..` takes nothing from, the stack of names is the location that they lead to. -/
private theorem tracks_settleWithin {base : List Component} (hbase : settleWithin base .up = base) :
    Tracks settleWithin fun _ l => l.map Component.name ++ base where
  here _ _ := rfl
  name _ _ _ _ := settleWithin_name _ _
  back _ _ _ _ := rfl
  climb _ := hbase

theorem normalizeWithin_eq_spell (p : Path) :
    p.normalizeWithin = p.outset.spell p.location.reverse := by
  have hbase : settleWithin p.outset.components .up = p.outset.components := by
    rw [outset]
    split <;> rfl
  have hfold : p.components.foldl settleWithin [] =
      p.location.map Component.name ++ p.outset.components := by
    refine (tracks_settleWithin hbase).foldl_components (fun h => ?_) fun h => ?_ <;>
      simp [outset, h, Origin.components, settleWithin]
  rw [normalizeWithin, hfold, List.reverse_append, Origin.reverse_components,
    ← List.map_reverse, Origin.spell]

theorem origin_spell (o : Origin) (h : ∀ n ∈ names, Plain n) : (o.spell names).origin = o := by
  cases o with
  | root => exact origin_of_isAbsolute (Origin.isAbsolute_spell .root h)
  | above n =>
    have hclimb : climbFrom 0 (List.replicate n dotDot ++ names) = n := by
      have happend := climbFrom_append [] (List.replicate n dotDot) names
      rwa [climbFrom_of_plain _ h, List.length_nil, climbFrom_replicate] at happend
    rw [origin_of_not_isAbsolute (Origin.isAbsolute_spell (.above n) h), climb,
      Origin.segments_spell _ h, Origin.segments, hclimb]

theorem origin_normalize (p : Path) : p.normalize.origin = p.origin := by
  rw [normalize_eq_spell, origin_spell _ plain_of_mem_names]

theorem components_normalize (p : Path) :
    p.normalize.components = p.origin.components ++ p.location.reverse.map Component.name := by
  rw [normalize_eq_spell, Origin.components_spell _ plain_of_mem_names]

theorem location_normalize_eq (p : Path) : p.normalize.location = p.location := by
  rw [normalize_eq_spell, Origin.location_spell _ plain_of_mem_names, List.reverse_reverse]

/-- Normal forms differ only where origins or locations do. -/
theorem normalize_eq_iff :
    p.normalize = q.normalize ↔ p.origin = q.origin ∧ p.location = q.location := by
  constructor
  · intro h
    rw [← origin_normalize p, ← location_normalize_eq p, h, origin_normalize, location_normalize_eq]
    exact ⟨rfl, rfl⟩
  · rintro ⟨horigin, hlocation⟩
    rw [normalize_eq_spell, normalize_eq_spell, horigin, hlocation]

theorem isAbsolute_join_eq (base p : Path) :
    (base.join p).isAbsolute = (base.isAbsolute || p.isAbsolute) := by
  cases hp : p.isAbsolute with
  | true => rw [join, if_pos hp, hp, Bool.or_true]
  | false =>
    rw [join, if_neg (by simp [hp]), Bool.or_false]
    obtain ⟨b⟩ := base
    cases b with
    | nil => exact hp
    | cons c rest => split <;> rfl

/-- Behind a base, a relative path climbs out of the names of the base first. -/
theorem origin_join (base : Path) (h : p.isAbsolute = false) :
    (base.join p).origin = base.origin.climb (climbFrom base.location.length p.segments) := by
  have habsolute : (base.join p).isAbsolute = base.isAbsolute := by
    rw [isAbsolute_join_eq, h, Bool.or_false]
  have hclimb : (base.join p).climb =
      base.climb + climbFrom base.location.length p.segments := by
    rw [climb, segments_join h]
    exact climbFrom_append [] base.segments p.segments
  rw [origin, origin, outset, habsolute, hclimb, Origin.climb_climb, outset]

theorem normalize_join (p q : Path) : (p.join q).normalize = (p.normalize.join q).normalize := by
  cases hq : q.isAbsolute with
  | true => rw [join, join, if_pos hq, if_pos hq]
  | false =>
    have hlocation := location_normalize_eq p
    exact normalize_eq_iff.mpr ⟨by rw [origin_join p hq, origin_join _ hq, origin_normalize,
      hlocation], (location_join_congr hlocation q).symm⟩

end BuildCache.Path
