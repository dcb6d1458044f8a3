import BuildCache.Proofs.Path.Ancestors
import BuildCache.Proofs.Path.Origin

/-!
# Normal forms as they are built

A normal form is built in place: each component is put behind the spelling so far or takes its last
name away, and whether there is a name to take is read off the spelling itself. At every component
the spelling is one of names from an origin, so that the loop ends at the normal form.
-/

namespace BuildCache

/-- What a component adds to a spelling. -/
def Component.spelling : Component → Path
  | .root => ⟨[Path.slash]⟩
  | .here => ⟨Path.dot⟩
  | .up => ⟨Path.dotDot⟩
  | .name n => ⟨n⟩

namespace Path

variable {p q : Path} {names : List Name}

/-- The path without its last component, if it has a parent. -/
def pop (p : Path) : Path := p.parent?.getD p

/-- One turn of the loop that keeps a `..` for which there is no name. -/
def extend (out : Path) : Component → Path
  | .here => out
  | .up =>
    match out.components.getLast? with
    | some (.name _) => out.pop
    | some .root => out
    | _ => out.join Component.up.spelling
  | c => out.join c.spelling

/-- One turn of the loop that takes away whatever is last. -/
def extendWithin (out : Path) : Component → Path
  | .here => out
  | .up => out.pop
  | c => out.join c.spelling

theorem joinSlash_concat {pieces : List Name} (hne : pieces ≠ []) (s : Name) :
    joinSlash (pieces ++ [s]) = joinSlash pieces ++ slash :: s := by
  have hslash : slash :: joinSlash (pieces ++ [s]) = slash :: (joinSlash pieces ++ slash :: s) := by
    rw [slash_joinSlash (by simp), List.flatMap_append, ← slash_joinSlash hne]
    simp
  exact (List.cons.inj hslash).2

theorem join_joinSlash {pieces : List Name} {s : Name} (h : ∀ piece ∈ pieces ++ [s], Solid piece) :
    join ⟨joinSlash pieces⟩ ⟨s⟩ = ⟨joinSlash (pieces ++ [s])⟩ := by
  have hs : Solid s := h s (by simp)
  induction pieces using List.reverseRecOn generalizing s with
  | nil => simp [join, joinSlash, not_isAbsolute_of_noSlash hs.noSlash]
  | append_singleton front last ih =>
    have hfront : ∀ piece ∈ front ++ [last], Solid piece := fun piece hpiece =>
      h piece (List.mem_append_left _ hpiece)
    have hlast : Solid last := hfront last (by simp)
    -- the spelling ends in the name that was put there before
    have hends : endsInSlash ⟨joinSlash (front ++ [last])⟩ = false := by
      rw [← ih hfront hlast]
      exact not_endsInSlash_join hlast.ne_nil hlast.noSlash _
    have hbytes : joinSlash (front ++ [last]) ≠ [] := fun hnil => by
      have hsegments := Solid.segments_joinSlash hfront
      rw [hnil] at hsegments
      simp [segments, splitSlash] at hsegments
    rw [join, not_isAbsolute_of_noSlash hs.noSlash, if_neg Bool.false_ne_true, hends,
      List.isEmpty_eq_false_iff.mpr hbytes, Bool.or_false, if_neg Bool.false_ne_true,
      joinSlash_concat (List.append_ne_nil_of_right_ne_nil front (List.cons_ne_nil last []))]

namespace Origin

theorem join_spell (o : Origin) {n : Name} (h : ∀ m ∈ names ++ [n], Plain m) :
    (o.spell names).join ⟨n⟩ = o.spell (names ++ [n]) := by
  cases o with
  | root =>
    have hn : ∀ m ∈ [n], Plain m := fun m hm => h m (List.mem_append_right _ hm)
    have hjoin : joinSlash [n] = n := by simp [joinSlash]
    rw [spell_root, spell_root, ← join_rooted (fun m hm => h m (List.mem_append_left _ hm)) hn
      (by simp), hjoin]
  | above k =>
    have hsolid := solid_of_mem (n := k) h
    rw [← List.append_assoc] at hsolid
    rw [spell_above, spell_above, join_joinSlash hsolid, List.append_assoc]

theorem join_above (k : Nat) : ((above k).spell []).join ⟨dotDot⟩ = (above (k + 1)).spell [] := by
  have hsolid : ∀ s ∈ List.replicate k dotDot ++ [dotDot], Solid s := by
    rw [← List.replicate_succ']
    exact fun s hs => List.eq_of_mem_replicate hs ▸ solid_dotDot
  rw [spell_above, spell_above, List.append_nil, List.append_nil, join_joinSlash hsolid,
    List.replicate_succ']

theorem pop_spell (o : Origin) {n : Name} (h : ∀ m ∈ names ++ [n], Plain m) :
    (o.spell (names ++ [n])).pop = o.spell names := by
  cases o with
  | root => rw [spell_root, pop, parent?_rooted h, Option.getD_some, spell_root]
  | above k =>
    have hsolid := solid_of_mem (n := k) h
    have hrelative := isAbsolute_joinSlash hsolid
    have hhere := startsHere_joinSlash hsolid
    rw [← List.append_assoc] at hsolid hrelative hhere
    have hsplit : splitSlash (joinSlash (List.replicate k dotDot ++ names ++ [n])) =
        List.replicate k dotDot ++ names ++ [n] :=
      splitSlash_joinSlash (by simp) fun s hs => (hsolid s hs).noSlash
    have hparent : parent? ⟨joinSlash (List.replicate k dotDot ++ names ++ [n])⟩ =
        some ⟨joinSlash (List.replicate k dotDot ++ names)⟩ :=
      parent?_of_pieces 0 (by rw [hrelative, hhere]; rfl) hsplit
        fun s hs => ⟨(hsolid s hs).ne_nil, (hsolid s hs).ne_dot⟩
    rw [spell_above, ← List.append_assoc, pop, hparent, Option.getD_some, spell_above]

private theorem getLast?_components (o : Origin) (h : ∀ m ∈ names, Plain m) :
    (o.spell names).components.getLast? =
      (names.map Component.name).getLast?.or o.components.getLast? := by
  rw [components_spell o h, List.getLast?_append]

end Origin

private theorem plain_reverse {l : Location} (h : ∀ k ∈ l, Plain k) : ∀ k ∈ l.reverse, Plain k :=
  fun k hk => h k (List.mem_reverse.mp hk)

theorem tracks_extend (o : Origin) : Tracks extend fun n l => (o.climb n).spell l.reverse where
  here _ _ := rfl
  name n m l h := by
    have hplain := plain_reverse h
    rw [List.reverse_cons] at hplain ⊢
    exact Origin.join_spell _ hplain
  back n m l h := by
    have hplain := plain_reverse h
    rw [List.reverse_cons] at hplain ⊢
    rw [extend, Origin.getLast?_components _ hplain]
    simpa using Origin.pop_spell _ hplain
  climb n := by
    have hlast := Origin.getLast?_components (o.climb n) (List.forall_mem_nil Plain)
    rw [List.reverse_nil, extend, hlast]
    cases o with
    | root => rfl
    | above k =>
      have hup : (List.replicate (k + n) Component.up).getLast? = none ∨
          (List.replicate (k + n) Component.up).getLast? = some .up := by
        cases k + n with
        | zero => exact .inl rfl
        | succ m => exact .inr (by rw [List.replicate_succ', List.getLast?_concat])
      have hjoin : ((Origin.above (k + n)).spell []).join Component.up.spelling =
          (Origin.above (k + (n + 1))).spell [] := Origin.join_above (k + n)
      rcases hup with hup | hup <;> simpa [Origin.climb, Origin.components, hup] using hjoin

theorem tracks_extendWithin (p : Path) :
    Tracks extendWithin fun _ l => p.outset.spell l.reverse where
  here _ _ := rfl
  name _ m l h := by
    have hplain := plain_reverse h
    rw [List.reverse_cons] at hplain ⊢
    exact Origin.join_spell _ hplain
  back _ m l h := by
    have hplain := plain_reverse h
    rw [List.reverse_cons] at hplain ⊢
    exact Origin.pop_spell _ hplain
  climb _ := by
    rw [outset]
    split <;> rfl

theorem foldl_extend (p : Path) : p.components.foldl extend ⟨[]⟩ = p.normalize := by
  rw [normalize_eq_spell]
  refine (tracks_extend p.outset).foldl_components (fun h => ?_) fun h => ?_ <;>
  · rw [outset, h]
    rfl

theorem foldl_extendWithin (p : Path) :
    p.components.foldl extendWithin ⟨[]⟩ = p.normalizeWithin := by
  rw [normalizeWithin_eq_spell]
  refine (tracks_extendWithin p).foldl_components (fun h => ?_) fun h => ?_ <;>
  · rw [outset, h]
    rfl

theorem isAbsolute_normalize_eq (p : Path) : p.normalize.isAbsolute = p.isAbsolute := by
  rw [← isRoot_origin, origin_normalize, isRoot_origin]

theorem dot_notMem_normalize (p : Path) : dot ∉ p.normalize.segments := by
  rw [normalize_eq_spell, Origin.segments_spell _ plain_of_mem_names, List.mem_append, not_or]
  refine ⟨?_, fun hmem => (plain_of_mem_names dot hmem).ne_dot rfl⟩
  cases p.origin with
  | root => exact List.not_mem_nil
  | above n => exact fun hmem => absurd (List.eq_of_mem_replicate hmem) (by decide)

theorem normalizeWithin_of_isAbsolute (h : p.isAbsolute = true) :
    p.normalizeWithin = p.normalize := by
  rw [normalizeWithin_eq_spell, normalize_eq_spell, origin_of_isAbsolute h, outset, if_pos h]

/-- The loop ends at a form that it leaves as it is: names behind the root or, where the path is
relative, behind the `..` for which there was no name, without any dots. It stands for the path
under everything that is joined to it. On an absolute path the loop that keeps no `..` ends there
too. -/
theorem normalize_canonical (p : Path) :
    p.components.foldl extend ⟨[]⟩ = p.normalize ∧
      p.normalize.normalize = p.normalize ∧
      p.normalize.isAbsolute = p.isAbsolute ∧
      dot ∉ p.normalize.segments ∧
      (∃ (n : Nat) (names : List Name), (∀ m ∈ names, Plain m) ∧
        p.normalize.components =
          (if p.isAbsolute then [.root] else List.replicate n .up) ++ names.map .name) ∧
      (∀ q, (p.join q).normalize = (p.normalize.join q).normalize) ∧
      p.components.foldl extendWithin ⟨[]⟩ = p.normalizeWithin ∧
      (p.isAbsolute = true → p.normalizeWithin = p.normalize) := by
  have hcomponents : p.normalize.components =
      (if p.isAbsolute then [.root] else List.replicate p.climb .up) ++
        p.location.reverse.map .name := by
    rw [components_normalize]
    cases h : p.isAbsolute with
    | true => rw [origin_of_isAbsolute h, if_pos rfl, Origin.components]
    | false => rw [origin_of_not_isAbsolute h, if_neg Bool.false_ne_true, Origin.components]
  have hidempotent : p.normalize.normalize = p.normalize :=
    normalize_eq_iff.mpr ⟨origin_normalize p, location_normalize_eq p⟩
  exact ⟨foldl_extend p, hidempotent, isAbsolute_normalize_eq p, dot_notMem_normalize p,
    ⟨p.climb, _, plain_of_mem_names, hcomponents⟩, normalize_join p, foldl_extendWithin p,
    normalizeWithin_of_isAbsolute⟩

theorem normalize_canonical_of_winding :
    (ofString "//proj/../..//./lib/x/..").isAbsolute = true ∧
      (ofString "//proj/../..//./lib/x/..").components.foldl extend ⟨[]⟩ = ofString "/lib" ∧
      (ofString "//proj/../..//./lib/x/..").normalizeWithin = ofString "/lib" := by
  have hnormal : (ofString "//proj/../..//./lib/x/..").normalize = ofString "/lib" := by decide
  obtain ⟨hloop, -, -, -, -, -, -, hwithin⟩ :=
    normalize_canonical (ofString "//proj/../..//./lib/x/..")
  exact ⟨rfl, hnormal ▸ hloop, hnormal ▸ hwithin rfl⟩

end Path

end BuildCache
