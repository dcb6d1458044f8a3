import BuildCache.Dependents
import BuildCache.Proofs.OrderedMap

/-!
# Laws of the reverse index

What each change does to the pairs of a dependency and a file that imports it. Paths are compared
by their components throughout.
-/

namespace BuildCache

namespace Path

theorem same_iff {p q : Path} : p.same q = true ↔ p.components = q.components := beq_iff_eq

theorem same_iff_compare {p q : Path} : p.same q = true ↔ compare p q = .eq :=
  same_iff.trans compare_eq_iff.symm

@[simp] theorem same_refl (p : Path) : p.same p = true := same_iff.mpr rfl

theorem same_symm {p q : Path} (h : p.same q = true) : q.same p = true :=
  same_iff.mpr (same_iff.mp h).symm

theorem same_trans {p q r : Path} (h : p.same q = true) (h' : q.same r = true) :
    p.same r = true :=
  same_iff.mpr ((same_iff.mp h).trans (same_iff.mp h'))

end Path

namespace PathSet

theorem contains_add (s : PathSet) (p q : Path) :
    (s.add p).contains q = (q.same p || s.contains q) := by
  rw [add, OrderedMap.contains_insert]
  congr 1
  rw [Bool.eq_iff_iff, beq_iff_eq]
  exact Path.same_iff_compare.symm

theorem contains_erase (s : PathSet) (p q : Path) :
    OrderedMap.contains (OrderedMap.erase s p) q = (!q.same p && s.contains q) := by
  rw [OrderedMap.contains_erase]
  congr 1
  rw [bne, Bool.not_inj_iff, Bool.eq_iff_iff, beq_iff_eq]
  exact Path.same_iff_compare.symm

private theorem mem_keys_foldl_add {ps : List Path} (hps : ps.Pairwise fun p q => q.same p = false)
    {s : PathSet} (hs : ∀ p ∈ ps, s.contains p = false) {p : Path} :
    p ∈ (ps.foldl add s).keys ↔ p ∈ ps ∨ p ∈ s.keys := by
  induction ps generalizing s with
  | nil => simp
  | cons q ps ih =>
    obtain ⟨hq, hps⟩ := List.pairwise_cons.mp hps
    have hadd (p : Path) (hp : p ∈ ps) : (s.add q).contains p = false := by
      rw [contains_add, hq p hp, hs p (List.mem_cons_of_mem q hp)]
      rfl
    rw [List.foldl_cons, ih hps hadd, add, OrderedMap.mem_keys_insert (hs q List.mem_cons_self),
      List.mem_cons, or_left_comm, or_assoc]

theorem mem_keys_ofList {ps : List Path} (hps : ps.Pairwise fun p q => q.same p = false)
    {p : Path} : p ∈ (ofList ps).keys ↔ p ∈ ps := by
  rw [ofList, mem_keys_foldl_add hps fun _ _ => rfl]
  simp [OrderedMap.keys, OrderedMap.empty]

theorem contains_iff_mem {s : PathSet} {p : Path} :
    s.contains p = true ↔ ∃ q ∈ s.toList, p.same q = true := by
  simp only [OrderedMap.contains_iff, Path.same_iff_compare, toList]

theorem contains_without (s t : PathSet) (p : Path) :
    (s.without t).contains p = (s.contains p && !t.contains p) := by
  rw [OrderedMap.contains, without, OrderedMap.get?_filter_of_congr]
  · cases h : s.get? p <;> simp [OrderedMap.contains, h, Option.filter]
    cases t.get? p <;> rfl
  · intro k k' _ hk
    rw [OrderedMap.contains_congr t hk]

end PathSet

namespace Dependents

/-- Whether the index lists a file under a dependency. -/
def Lists (d : Dependents) (dependency file : Path) : Prop :=
  (d.filesOf dependency).contains file = true

instance (d : Dependents) (dependency file : Path) : Decidable (d.Lists dependency file) :=
  inferInstanceAs (Decidable (_ = true))

/-- No dependency is kept without files. -/
def NoneEmpty (d : Dependents) : Prop :=
  ∀ dependency files, d.get? dependency = some files → files.isEmpty = false

theorem lists_congr {d : Dependents} {y y' f f' : Path} (hy : y.same y' = true)
    (hf : f.same f' = true) : d.Lists y f ↔ d.Lists y' f' := by
  rw [Lists, Lists, filesOf, filesOf, OrderedMap.get?_congr d (Path.same_iff_compare.mp hy),
    OrderedMap.contains_congr _ (Path.same_iff_compare.mp hf)]

theorem lists_iff {d : Dependents} {y f : Path} :
    d.Lists y f ↔ ∃ files, d.get? y = some files ∧ files.contains f = true := by
  cases h : d.get? y <;> simp [Lists, filesOf, h]

theorem not_lists_empty (y f : Path) : ¬Lists ∅ y f := by
  simp only [lists_iff]
  rintro ⟨files, h, -⟩
  exact absurd h (by simp [EmptyCollection.emptyCollection, OrderedMap.get?_empty])

theorem noneEmpty_empty : NoneEmpty ∅ := by
  intro y files h
  simp [EmptyCollection.emptyCollection, OrderedMap.get?_empty] at h

theorem filesOf_insert (d : Dependents) (y y' : Path) (files : PathSet) :
    filesOf (d.insert y files) y' = if y'.same y then files else d.filesOf y' := by
  rw [filesOf, OrderedMap.get?_insert]
  by_cases h : y'.same y = true
  · simp [h, Path.same_iff_compare.mp h]
  · have hc : compare y' y ≠ .eq := fun hc => h (Path.same_iff_compare.mpr hc)
    simp [h, hc, filesOf]

theorem filesOf_erase (d : Dependents) (y y' : Path) :
    filesOf (d.erase y) y' = if y'.same y then .empty else d.filesOf y' := by
  rw [filesOf, OrderedMap.get?_erase]
  by_cases h : y'.same y = true
  · simp [h, Path.same_iff_compare.mp h]
  · have hc : compare y' y ≠ .eq := fun hc => h (Path.same_iff_compare.mpr hc)
    simp [h, hc, filesOf]

theorem lists_erase (d : Dependents) (y y' f : Path) :
    Lists (d.erase y) y' f ↔ d.Lists y' f ∧ y'.same y = false := by
  rw [Lists, filesOf_erase]
  cases h : y'.same y <;> simp [Lists]

theorem noneEmpty_erase {d : Dependents} (h : d.NoneEmpty) (y : Path) :
    NoneEmpty (d.erase y) := by
  intro y' files hy'
  rw [OrderedMap.get?_erase] at hy'
  split at hy'
  · contradiction
  · exact h y' files hy'

theorem lists_addEdge (d : Dependents) (f y f' y' : Path) :
    (d.addEdge f y).Lists y' f' ↔ d.Lists y' f' ∨ (f'.same f = true ∧ y'.same y = true) := by
  rw [Lists, addEdge, filesOf_insert]
  cases h : y'.same y
  · simp [Lists]
  · have hy := OrderedMap.get?_congr d (Path.same_iff_compare.mp h)
    simp only [if_true, PathSet.contains_add, Bool.or_eq_true, and_true, Lists, filesOf, hy]
    exact or_comm

theorem noneEmpty_addEdge {d : Dependents} (h : d.NoneEmpty) (f y : Path) :
    (d.addEdge f y).NoneEmpty := by
  intro y' files hy'
  rw [addEdge, OrderedMap.get?_insert] at hy'
  split at hy'
  · cases hy'
    rw [OrderedMap.isEmpty_eq_false_iff]
    exact ⟨f, by simp [PathSet.contains_add]⟩
  · exact h y' files hy'

theorem lists_removeEdge (d : Dependents) (f y f' y' : Path) :
    (d.removeEdge f y).Lists y' f' ↔
      d.Lists y' f' ∧ ¬(f'.same f = true ∧ y'.same y = true) := by
  rw [removeEdge]
  cases hy : d.get? y with
  | none =>
    refine ⟨fun h => ⟨h, ?_⟩, And.left⟩
    rintro ⟨-, h'⟩
    obtain ⟨files, hfiles, -⟩ := lists_iff.mp h
    rw [OrderedMap.get?_congr d (Path.same_iff_compare.mp h'), hy] at hfiles
    contradiction
  | some files =>
    have hfiles (h : y'.same y = true) : d.filesOf y' = files := by
      rw [filesOf, OrderedMap.get?_congr d (Path.same_iff_compare.mp h), hy]
      rfl
    simp only
    by_cases hothers : OrderedMap.isEmpty (OrderedMap.erase files f) = true
    · rw [if_pos hothers, lists_erase]
      have hnone := OrderedMap.isEmpty_iff.mp hothers f'
      rw [PathSet.contains_erase] at hnone
      cases h : y'.same y
      · simp
      · rw [Lists, hfiles h]
        cases hf : f'.same f <;> simp_all
    · rw [if_neg hothers, Lists, filesOf_insert]
      cases h : y'.same y
      · simp [Lists]
      · rw [Lists, hfiles h, if_pos rfl, PathSet.contains_erase]
        cases hf : f'.same f <;> simp

theorem noneEmpty_removeEdge {d : Dependents} (h : d.NoneEmpty) (f y : Path) :
    (d.removeEdge f y).NoneEmpty := by
  rw [removeEdge]
  split
  · exact h
  · simp only
    split
    · exact noneEmpty_erase h y
    · next hothers =>
      intro y' files hy'
      rw [OrderedMap.get?_insert] at hy'
      split at hy'
      · cases hy'
        simpa using hothers
      · exact h y' files hy'

private theorem lists_foldl_addEdge (ys : List Path) (d : Dependents) (f f' y' : Path) :
    (ys.foldl (addEdge · f) d).Lists y' f' ↔
      d.Lists y' f' ∨ (f'.same f = true ∧ ∃ y ∈ ys, y'.same y = true) := by
  induction ys generalizing d with
  | nil => simp
  | cons y ys ih =>
    rw [List.foldl_cons, ih, lists_addEdge]
    simp only [List.mem_cons, exists_eq_or_imp]
    rw [and_or_left, or_assoc]

private theorem lists_foldl_removeEdge (ys : List Path) (d : Dependents) (f f' y' : Path) :
    (ys.foldl (removeEdge · f) d).Lists y' f' ↔
      d.Lists y' f' ∧ ¬(f'.same f = true ∧ ∃ y ∈ ys, y'.same y = true) := by
  induction ys generalizing d with
  | nil => simp
  | cons y ys ih =>
    rw [List.foldl_cons, ih, lists_removeEdge]
    simp only [List.mem_cons, exists_eq_or_imp]
    rw [and_or_left, not_or, and_assoc]

/-- A change of a file's dependencies drops it where it no longer imports, adds it where it now
imports, and leaves all other pairs alone. -/
theorem lists_update (d : Dependents) (f : Path) (previous next : PathSet) (y f' : Path) :
    (d.update f previous next).Lists y f' ↔
      (d.Lists y f' ∧
          ¬(f'.same f = true ∧ previous.contains y = true ∧ next.contains y = false)) ∨
        (f'.same f = true ∧ next.contains y = true ∧ previous.contains y = false) := by
  simp only [update, lists_foldl_addEdge, lists_foldl_removeEdge, ← PathSet.contains_iff_mem,
    PathSet.contains_without, Bool.and_eq_true, Bool.not_eq_true']

theorem noneEmpty_update {d : Dependents} (h : d.NoneEmpty) (f : Path) (previous next : PathSet) :
    (d.update f previous next).NoneEmpty := by
  have hremoved (ys : List Path) (d : Dependents) (hd : d.NoneEmpty) :
      (ys.foldl (removeEdge · f) d).NoneEmpty := by
    induction ys generalizing d with
    | nil => exact hd
    | cons y ys ih => exact ih _ (noneEmpty_removeEdge hd f y)
  have hadded (ys : List Path) (d : Dependents) (hd : d.NoneEmpty) :
      (ys.foldl (addEdge · f) d).NoneEmpty := by
    induction ys generalizing d with
    | nil => exact hd
    | cons y ys ih => exact ih _ (noneEmpty_addEdge hd f y)
  exact hadded _ _ (hremoved _ _ h)

theorem mentions_iff {d : Dependents} {f : Path} : d.mentions f = true ↔ ∃ y, d.Lists y f := by
  simp only [mentions, OrderedMap.any_values_iff, lists_iff]

theorem get?_forget (d : Dependents) (f y : Path) :
    (d.forget f).get? y =
      ((d.get? y).map fun files => OrderedMap.erase files f).filter (!·.isEmpty) := by
  rw [forget, OrderedMap.get?_filter_of_congr _ (fun _ _ _ _ => rfl), OrderedMap.get?_map]

theorem lists_forget (d : Dependents) (f y f' : Path) :
    (d.forget f).Lists y f' ↔ d.Lists y f' ∧ f'.same f = false := by
  rw [lists_iff, lists_iff, get?_forget]
  constructor
  · rintro ⟨files, hfiles, hf'⟩
    obtain ⟨hsome, -⟩ := Option.filter_eq_some_iff.mp hfiles
    obtain ⟨before, hbefore, rfl⟩ := Option.map_eq_some_iff.mp hsome
    rw [PathSet.contains_erase, Bool.and_eq_true, Bool.not_eq_true'] at hf'
    exact ⟨⟨before, hbefore, hf'.2⟩, hf'.1⟩
  · rintro ⟨⟨before, hbefore, hf'⟩, hne⟩
    have hkept : OrderedMap.contains (OrderedMap.erase before f) f' = true := by
      rw [PathSet.contains_erase, hne, hf']
      rfl
    refine ⟨OrderedMap.erase before f, ?_, hkept⟩
    rw [hbefore, Option.map_some, Option.filter_eq_some_iff]
    refine ⟨rfl, ?_⟩
    rw [Bool.not_eq_true', OrderedMap.isEmpty_eq_false_iff]
    exact ⟨f', hkept⟩

theorem noneEmpty_forget (d : Dependents) (f : Path) : (d.forget f).NoneEmpty := by
  intro y files hy
  rw [get?_forget, Option.filter_eq_some_iff] at hy
  simpa using hy.2

theorem mem_keys_of_removeEdge {d : Dependents} {f y k : Path}
    (h : k ∈ OrderedMap.keys (d.removeEdge f y)) : k ∈ OrderedMap.keys d := by
  rw [removeEdge] at h
  split at h
  · exact h
  · next files hy =>
    simp only at h
    split at h
    · exact OrderedMap.mem_keys_of_mem_keys_filter h
    · have hcontains : OrderedMap.contains d y = true := by rw [OrderedMap.contains, hy]; rfl
      rwa [OrderedMap.keys_insert_of_contains _ hcontains] at h

theorem mem_keys_of_update_empty {d : Dependents} {f k : Path} {previous : PathSet}
    (h : k ∈ OrderedMap.keys (d.update f previous .empty)) : k ∈ OrderedMap.keys d := by
  have hremoved (ys : List Path) (d : Dependents)
      (h : k ∈ OrderedMap.keys (ys.foldl (removeEdge · f) d)) : k ∈ OrderedMap.keys d := by
    induction ys generalizing d with
    | nil => exact h
    | cons y ys ih => exact mem_keys_of_removeEdge (ih _ h)
  exact hremoved _ _ h

theorem mem_keys_of_forget {d : Dependents} {f k : Path} (h : k ∈ OrderedMap.keys (d.forget f)) :
    k ∈ OrderedMap.keys d := by
  have hmap := OrderedMap.mem_keys_of_mem_keys_filter h
  rwa [OrderedMap.keys_map] at hmap

end Dependents

end BuildCache
