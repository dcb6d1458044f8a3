import BuildCache.Proofs.Books
import BuildCache.Workspace.Sweep

/-!
# What a cascade of evictions takes

Evictions are followed on books in any condition: tables and records need not agree. While a cascade
runs, what it evicted is doomed, and what is doomed and still tracked waits to be found through
something pending.
-/

namespace BuildCache.Books

theorem contains_evict (b : Books) (file f : Path) :
    (b.evict file).ids.contains f = (!f.same file && b.ids.contains f) := by
  rw [ids_evict, contains_erase_ids]

theorem lists_evict_other (b : Books) {file f : Path} (h : f.same file = false) (y : Path) :
    (b.evict file).dependents.Lists y f ↔ b.dependents.Lists y f := by
  rw [evict]
  split
  · rfl
  · split
    · simp [lists_move, h]
    · simp [lists_forget, h]

theorem mem_keys_of_evict (b : Books) (file : Path) :
    (∀ k ∈ (b.evict file).ids.keys, k ∈ b.ids.keys) ∧
      ∀ k ∈ (b.evict file).dependents.keys, k ∈ b.dependents.keys := by
  refine ⟨fun k hk => ?_, fun k hk => ?_⟩
  · rw [ids_evict] at hk
    exact OrderedMap.mem_keys_of_mem_keys_filter hk
  · rw [evict] at hk
    split at hk
    · exact hk
    · split at hk
      · rw [move] at hk
        split at hk
        · exact hk
        · exact Dependents.mem_keys_of_update_empty hk
      · rw [forget] at hk
        split at hk
        · exact Dependents.mem_keys_of_forget hk
        · exact hk

theorem contains_evictAll (files : List Path) (b : Books) (f : Path) :
    (b.evictAll files).ids.contains f = true ↔
      b.ids.contains f = true ∧ ∀ g ∈ files, f.same g = false := by
  induction files generalizing b with
  | nil => simp [evictAll]
  | cons g files ih =>
    have heq : b.evictAll (g :: files) = (b.evict g).evictAll files := rfl
    rw [heq, ih, contains_evict, Bool.and_eq_true, Bool.not_eq_true', List.forall_mem_cons]
    constructor
    · rintro ⟨⟨hg, hf⟩, hrest⟩
      exact ⟨hf, hg, hrest⟩
    · rintro ⟨hf, hg, hrest⟩
      exact ⟨⟨hg, hf⟩, hrest⟩

theorem lists_evictAll_other (files : List Path) (b : Books) {f : Path}
    (h : ∀ g ∈ files, f.same g = false) (y : Path) :
    (b.evictAll files).dependents.Lists y f ↔ b.dependents.Lists y f := by
  induction files generalizing b with
  | nil => rfl
  | cons g files ih =>
    obtain ⟨hg, hrest⟩ := List.forall_mem_cons.mp h
    have heq : b.evictAll (g :: files) = (b.evict g).evictAll files := rfl
    rw [heq, ih _ hrest, lists_evict_other b hg]

theorem mem_keys_of_evictAll {files : List Path} {b : Books} :
    (∀ k ∈ (b.evictAll files).ids.keys, k ∈ b.ids.keys) ∧
      ∀ k ∈ (b.evictAll files).dependents.keys, k ∈ b.dependents.keys := by
  induction files generalizing b with
  | nil => exact ⟨fun _ => id, fun _ => id⟩
  | cons g files ih =>
    obtain ⟨hids, hdependents⟩ := mem_keys_of_evict b g
    exact ⟨fun k hk => hids k (ih.1 k hk), fun k hk => hdependents k (ih.2 k hk)⟩

theorem evictedOf_cons (b : Books) (file : Path) (files : List Path) :
    b.evictedOf (file :: files) =
      if b.ids.contains file then file :: (b.evict file).evictedOf files
      else (b.evict file).evictedOf files := rfl

theorem mem_evictedOf {files : List Path} {b : Books} {e : Path} (h : e ∈ b.evictedOf files) :
    e ∈ files ∧ b.ids.contains e = true := by
  induction files generalizing b with
  | nil => simp [evictedOf] at h
  | cons file files ih =>
    have hrest (h : e ∈ (b.evict file).evictedOf files) :
        e ∈ file :: files ∧ b.ids.contains e = true := by
      obtain ⟨he, hcontains⟩ := ih h
      rw [contains_evict, Bool.and_eq_true] at hcontains
      exact ⟨List.mem_cons_of_mem _ he, hcontains.2⟩
    rw [evictedOf_cons] at h
    split at h
    · next hfile =>
      rcases List.mem_cons.mp h with rfl | h
      · exact ⟨List.mem_cons_self, hfile⟩
      · exact hrest h
    · exact hrest h

theorem exists_mem_evictedOf (files : List Path) {b : Books} {f : Path}
    (hf : b.ids.contains f = true) :
    (∃ e ∈ b.evictedOf files, f.same e = true) ↔ ∃ g ∈ files, f.same g = true := by
  refine ⟨fun ⟨e, he, hsame⟩ => ⟨e, (mem_evictedOf he).1, hsame⟩, ?_⟩
  rintro ⟨g, hg, hsame⟩
  induction files generalizing b with
  | nil => simp at hg
  | cons file files ih =>
    rw [evictedOf_cons]
    by_cases hfile : f.same file = true
    · have hcontains : b.ids.contains file = true := by
        rwa [OrderedMap.contains, ← get?_same b.ids hfile]
      rw [if_pos hcontains]
      exact ⟨file, List.mem_cons_self, hfile⟩
    · rcases List.mem_cons.mp hg with rfl | hg
      · contradiction
      · have hkept : (b.evict file).ids.contains f = true := by
          rw [contains_evict, hf]
          simpa using hfile
        obtain ⟨e, he, hsame'⟩ := ih hkept hg
        refine ⟨e, ?_, hsame'⟩
        split
        · exact List.mem_cons_of_mem _ he
        · exact he

theorem pairwise_evictedOf (files : List Path) (b : Books) :
    (b.evictedOf files).Pairwise fun e e' => e.same e' = false := by
  induction files generalizing b with
  | nil => exact .nil
  | cons file files ih =>
    rw [evictedOf_cons]
    split
    · refine List.pairwise_cons.mpr ⟨fun e he => ?_, ih _⟩
      have hcontains := (mem_evictedOf he).2
      rw [contains_evict, Bool.and_eq_true, Bool.not_eq_true'] at hcontains
      rw [← Bool.not_eq_true]
      intro hsame
      rw [Path.same_symm hsame] at hcontains
      simp at hcontains
    · exact ih _

theorem size_evictAll (files : List Path) (b : Books) :
    (b.evictedOf files).length + (b.evictAll files).ids.size ≤ b.ids.size := by
  induction files generalizing b with
  | nil => simp [evictedOf, evictAll]
  | cons file files ih =>
    have heq : b.evictAll (file :: files) = (b.evict file).evictAll files := rfl
    have hrest := ih (b.evict file)
    rw [ids_evict b] at hrest
    rw [evictedOf_cons, heq]
    split
    · next hfile =>
      have hlt := OrderedMap.size_erase_lt hfile
      rw [List.length_cons]
      omega
    · have hle := OrderedMap.size_erase_le b.ids file
      omega

theorem mem_evictedUnder {b : Books} {y e : Path} (h : e ∈ b.evictedUnder y) :
    b.ids.contains e = true ∧ b.dependents.Lists y e :=
  ⟨(mem_evictedOf h).2, PathSet.contains_iff_mem.mpr ⟨e, (mem_evictedOf h).1, Path.same_refl e⟩⟩

theorem exists_mem_evictedUnder {b : Books} {y f : Path} (hf : b.ids.contains f = true) :
    (∃ e ∈ b.evictedUnder y, f.same e = true) ↔ b.dependents.Lists y f :=
  (exists_mem_evictedOf _ (b := b.dropDependency y) hf).trans PathSet.contains_iff_mem.symm

theorem contains_evictDependents (b : Books) (y f : Path) :
    (b.evictDependents y).ids.contains f = true ↔
      b.ids.contains f = true ∧ ¬b.dependents.Lists y f := by
  have hlisted : b.dependents.Lists y f ↔
      ∃ g ∈ (b.dependents.filesOf y).toList, f.same g = true := PathSet.contains_iff_mem
  rw [evictDependents, contains_evictAll, hlisted]
  simp [dropDependency]

theorem lists_evictDependents {b : Books} {y f : Path}
    (hf : (b.evictDependents y).ids.contains f = true) (y' : Path) :
    (b.evictDependents y).dependents.Lists y' f ↔ b.dependents.Lists y' f := by
  rw [evictDependents, lists_evictAll_other _ _ ((contains_evictAll _ _ _).mp hf).2]
  refine (Dependents.lists_erase _ _ _ _).trans ⟨And.left, fun hlists => ⟨hlists, ?_⟩⟩
  rw [← Bool.not_eq_true]
  intro hsame
  exact ((contains_evictDependents b y f).mp hf).2
    ((Dependents.lists_congr hsame (Path.same_refl f)).mp hlists)

theorem mem_keys_of_evictDependents {b : Books} {y : Path} :
    (∀ k ∈ (b.evictDependents y).ids.keys, k ∈ b.ids.keys) ∧
      ∀ k ∈ (b.evictDependents y).dependents.keys, k ∈ b.dependents.keys ∧ k ≠ y := by
  refine ⟨(mem_keys_of_evictAll (b := b.dropDependency y)).1, fun k hk => ?_⟩
  have hdropped : k ∈ (b.dropDependency y).dependents.keys := mem_keys_of_evictAll.2 k hk
  refine ⟨OrderedMap.mem_keys_of_mem_keys_filter hdropped, ?_⟩
  rintro rfl
  have hcontains := OrderedMap.contains_of_mem_keys hdropped
  have herased : (b.dropDependency k).dependents.contains k = false := by
    simp [dropDependency, OrderedMap.contains_erase, Std.ReflCmp.compare_self]
  rw [herased] at hcontains
  contradiction

theorem size_evictDependents (b : Books) (y : Path) :
    (b.evictedUnder y).length + (b.evictDependents y).ids.size ≤ b.ids.size :=
  size_evictAll _ (b.dropDependency y)

variable {gone : Path → Prop} {b b' : Books} {c : Cascade}

/-- The least set of tracked files with those that are gone, and with those that are listed under a
dependency that is gone or in the set. -/
inductive Doomed (gone : Path → Prop) (b : Books) : Path → Prop
  | gone {f : Path} (hf : f ∈ b.ids.keys) (hgone : gone f) : Doomed gone b f
  | dependency {f y : Path} (hf : f ∈ b.ids.keys) (hy : y ∈ b.dependents.keys)
      (hlists : b.dependents.Lists y f) (hgone : gone y) : Doomed gone b f
  | dependent {f y g : Path} (hf : f ∈ b.ids.keys) (hy : y ∈ b.dependents.keys)
      (hlists : b.dependents.Lists y f) (hg : Doomed gone b g) (hsame : g.same y = true) :
      Doomed gone b f

theorem Doomed.mono {gone' : Path → Prop} {f : Path} (h : Doomed gone b f)
    (hfiles : ∀ p ∈ b.ids.keys, gone p → gone' p)
    (hdependencies : ∀ p ∈ b.dependents.keys, gone p → gone' p) : Doomed gone' b f := by
  induction h with
  | gone hf hgone => exact .gone hf (hfiles _ hf hgone)
  | dependency hf hy hlists hgone => exact .dependency hf hy hlists (hdependencies _ hy hgone)
  | dependent hf hy hlists _ hsame ih => exact .dependent hf hy hlists ih hsame

/-- The file is gone, or listed under a dependency that is gone or was evicted before. -/
def Justified (gone : Path → Prop) (b : Books) (before : List Path) (e : Path) : Prop :=
  (∃ f ∈ b.ids.keys, f.same e = true ∧ gone f) ∨
    ∃ y ∈ b.dependents.keys, b.dependents.Lists y e ∧ (gone y ∨ ∃ g ∈ before, g.same y = true)

theorem exists_key_of_contains {α : Type} {m : PathMap α} {p : Path} (h : m.contains p = true) :
    ∃ k ∈ m.keys, k.same p = true := by
  obtain ⟨k, hk, hcmp⟩ := OrderedMap.contains_iff.mp h
  exact ⟨k, hk, Path.same_symm (Path.same_iff_compare.mpr hcmp)⟩

/-- Evictions that are justified in their order take only doomed files. -/
theorem doomed_of_justified {evicted : List Path}
    (hevicted : ∀ e ∈ evicted, b.ids.contains e = true)
    (h : ∀ before e after, evicted = before ++ e :: after → Justified gone b before e) :
    ∀ e ∈ evicted, ∀ f ∈ b.ids.keys, f.same e = true → Doomed gone b f := by
  have hall (n : Nat) : ∀ before e after, before.length = n → evicted = before ++ e :: after →
      ∀ f ∈ b.ids.keys, f.same e = true → Doomed gone b f := by
    induction n using Nat.strongRecOn with
    | ind n ih =>
      intro before e after hlength heq f hf hsame
      rcases h before e after heq with ⟨f', hf', hsame', hgone⟩ | ⟨y, hy, hlists, hcause⟩
      · have hff' : f = f' := OrderedMap.eq_of_mem_keys hf hf'
          (Path.same_iff_compare.mp (Path.same_trans hsame (Path.same_symm hsame')))
        exact .gone hf (hff' ▸ hgone)
      · have hlists : b.dependents.Lists y f :=
          (Dependents.lists_congr (Path.same_refl y) hsame).mpr hlists
        rcases hcause with hgone | ⟨g, hg, hgy⟩
        · exact .dependency hf hy hlists hgone
        · obtain ⟨before', after', rfl⟩ := List.append_of_mem hg
          have hsplit : evicted = before' ++ g :: (after' ++ e :: after) := by simp [heq]
          have hcontains := hevicted g (by simp [heq])
          obtain ⟨k, hk, hkg⟩ := exists_key_of_contains hcontains
          have hshorter : before'.length < n := by
            rw [← hlength, List.length_append, List.length_cons]
            omega
          exact .dependent hf hy hlists (ih _ hshorter before' g _ rfl hsplit k hk hkg)
            (Path.same_trans hkg hgy)
  intro e he f hf hsame
  obtain ⟨before, after, heq⟩ := List.append_of_mem he
  exact hall _ before e after rfl heq f hf hsame

/-- How far a cascade has come from its first books. -/
structure Cascading (gone : Path → Prop) (b : Books) (c : Cascade) (b' : Books) : Prop where
  fileKeys : ∀ k ∈ b'.ids.keys, k ∈ b.ids.keys
  dependencyKeys : ∀ k ∈ b'.dependents.keys, k ∈ b.dependents.keys
  tracked : ∀ f, b'.ids.contains f = true ↔
    b.ids.contains f = true ∧ ∀ e ∈ c.evicted, f.same e = false
  lists : ∀ y f, b'.ids.contains f = true → (b'.dependents.Lists y f ↔ b.dependents.Lists y f)
  evicted : ∀ e ∈ c.evicted, b.ids.contains e = true
  distinct : c.evicted.Pairwise fun e e' => e.same e' = false
  justified : ∀ before e after, c.evicted = before ++ e :: after → Justified gone b before e
  pending : ∀ y ∈ c.pending, (gone y ∧ y ∈ b.dependents.keys) ∨ y ∈ c.evicted
  cleared : ∀ f ∈ b.ids.keys, gone f → b'.ids.contains f = false
  waiting : ∀ y ∈ b.dependents.keys, (gone y ∨ ∃ e ∈ c.evicted, e.same y = true) →
    ∀ f, b'.ids.contains f = true → b.dependents.Lists y f → ∃ p ∈ c.pending, p.same y = true

theorem Justified.mono {before before' : List Path} {e : Path} (h : Justified gone b before e)
    (hsub : ∀ g ∈ before, g ∈ before') : Justified gone b before' e := by
  rcases h with hgone | ⟨y, hy, hlists, hgone | ⟨g, hg, hsame⟩⟩
  · exact .inl hgone
  · exact .inr ⟨y, hy, hlists, .inl hgone⟩
  · exact .inr ⟨y, hy, hlists, .inr ⟨g, hsub g hg, hsame⟩⟩

theorem justified_append {evicted evicted' : List Path}
    (h : ∀ before e after, evicted = before ++ e :: after → Justified gone b before e)
    (h' : ∀ e ∈ evicted', Justified gone b evicted e) :
    ∀ before e after, evicted ++ evicted' = before ++ e :: after → Justified gone b before e := by
  intro before e after heq
  rcases List.append_eq_append_iff.mp heq with ⟨front, rfl, hrest⟩ | ⟨front, rfl, hrest⟩
  · refine (h' e ?_).mono fun g hg => List.mem_append_left _ hg
    rw [hrest]
    simp
  · cases front with
    | nil =>
      rw [List.append_nil] at h'
      exact h' e (by rw [← List.nil_append evicted', ← hrest]; simp)
    | cons e' front =>
      obtain ⟨rfl, -⟩ := List.cons.inj hrest
      exact h before e front rfl

section Step

variable {y : Path} {pending evicted : List Path}

theorem Cascading.justified_of_lists (h : Cascading gone b ⟨y :: pending, evicted⟩ b') {e : Path}
    (hlists : b.dependents.Lists y e) : Justified gone b evicted e := by
  rcases h.pending y List.mem_cons_self with ⟨hgone, hy⟩ | hy
  · exact .inr ⟨y, hy, hlists, .inl hgone⟩
  · obtain ⟨files, hfiles, -⟩ := Dependents.lists_iff.mp hlists
    have hcontains : b.dependents.contains y = true := by rw [OrderedMap.contains, hfiles]; rfl
    obtain ⟨k, hk, hky⟩ := exists_key_of_contains hcontains
    exact .inr ⟨k, hk, (Dependents.lists_congr hky (Path.same_refl e)).mpr hlists,
      .inr ⟨y, hy, Path.same_symm hky⟩⟩

theorem Cascading.tracked_evictDependents (h : Cascading gone b ⟨y :: pending, evicted⟩ b')
    (f : Path) : (b'.evictDependents y).ids.contains f = true ↔
      b.ids.contains f = true ∧ ∀ e ∈ evicted ++ b'.evictedUnder y, f.same e = false := by
  rw [contains_evictDependents, h.tracked, List.forall_mem_append, and_assoc]
  refine and_congr_right fun hf => and_congr_right fun hkept => ?_
  rw [← exists_mem_evictedUnder ((h.tracked f).mpr ⟨hf, hkept⟩)]
  simp

theorem Cascading.distinct_append (h : Cascading gone b ⟨y :: pending, evicted⟩ b') :
    (evicted ++ b'.evictedUnder y).Pairwise fun e e' => e.same e' = false := by
  refine List.pairwise_append.mpr ⟨h.distinct, pairwise_evictedOf _ _, fun e he e' he' => ?_⟩
  rw [← Bool.not_eq_true]
  intro hsame
  have hkept := ((h.tracked e').mp (mem_evictedUnder he').1).2 e he
  rw [Path.same_symm hsame] at hkept
  contradiction

/-- What is left under a cause waits behind another pending path, for the one that was taken has
nothing listed any more. -/
theorem Cascading.waiting_append (h : Cascading gone b ⟨y :: pending, evicted⟩ b') {y' f : Path}
    (hy' : y' ∈ b.dependents.keys)
    (hcause : gone y' ∨ ∃ e ∈ evicted ++ b'.evictedUnder y, e.same y' = true)
    (hf : (b'.evictDependents y).ids.contains f = true) (hlists : b.dependents.Lists y' f) :
    ∃ p ∈ pending ++ b'.evictedUnder y, p.same y' = true := by
  obtain ⟨hf', hnot⟩ := (contains_evictDependents b' y f).mp hf
  have hold (hcause : gone y' ∨ ∃ e ∈ evicted, e.same y' = true) :
      ∃ p ∈ pending ++ b'.evictedUnder y, p.same y' = true := by
    obtain ⟨p, hp, hsame⟩ := h.waiting y' hy' hcause f hf' hlists
    rcases List.mem_cons.mp hp with rfl | hp
    · have hlists' := (h.lists y' f hf').mpr hlists
      exact absurd ((Dependents.lists_congr hsame (Path.same_refl f)).mpr hlists') hnot
    · exact ⟨p, List.mem_append_left _ hp, hsame⟩
  rcases hcause with hgone | ⟨e, he, hsame⟩
  · exact hold (.inl hgone)
  · rcases List.mem_append.mp he with he | he
    · exact hold (.inr ⟨e, he, hsame⟩)
    · exact ⟨e, List.mem_append_right _ he, hsame⟩

theorem Cascading.step (h : Cascading gone b ⟨y :: pending, evicted⟩ b') :
    Cascading gone b ⟨pending ++ b'.evictedUnder y, evicted ++ b'.evictedUnder y⟩
      (b'.evictDependents y) where
  fileKeys k hk := h.fileKeys k (mem_keys_of_evictDependents.1 k hk)
  dependencyKeys k hk := h.dependencyKeys k (mem_keys_of_evictDependents.2 k hk).1
  tracked := h.tracked_evictDependents
  lists y' f hf := (lists_evictDependents hf y').trans
    (h.lists y' f ((contains_evictDependents b' y f).mp hf).1)
  evicted e he := by
    rcases List.mem_append.mp he with he | he
    · exact h.evicted e he
    · exact ((h.tracked e).mp (mem_evictedUnder he).1).1
  distinct := h.distinct_append
  justified := justified_append h.justified fun e he =>
    have ⟨hcontains, hlists⟩ := mem_evictedUnder he
    h.justified_of_lists ((h.lists y e hcontains).mp hlists)
  pending p hp := by
    rcases List.mem_append.mp hp with hp | hp
    · exact (h.pending p (List.mem_cons_of_mem y hp)).imp_right (List.mem_append_left _)
    · exact .inr (List.mem_append_right _ hp)
  cleared f hf hgone := by
    have hcleared := h.cleared f hf hgone
    rw [← Bool.not_eq_true] at hcleared ⊢
    exact fun hf => hcleared ((contains_evictDependents b' y f).mp hf).1
  waiting _ hy' hcause _ hf hlists := h.waiting_append hy' hcause hf hlists

end Step

/-- When nothing is pending any more, no doomed file is left. -/
theorem Cascading.not_doomed {evicted : List Path} (h : Cascading gone b ⟨[], evicted⟩ b')
    {f : Path} (hf : Doomed gone b f) : b'.ids.contains f = false := by
  have hnone {y f : Path} (hy : y ∈ b.dependents.keys) (hlists : b.dependents.Lists y f)
      (hcause : gone y ∨ ∃ e ∈ evicted, e.same y = true) : b'.ids.contains f = false := by
    rw [← Bool.not_eq_true]
    intro hcontains
    obtain ⟨p, hp, -⟩ := h.waiting y hy hcause f hcontains hlists
    simp at hp
  induction hf with
  | gone hf hgone => exact h.cleared _ hf hgone
  | dependency hf hy hlists hgone => exact hnone hy hlists (.inl hgone)
  | @dependent f y g hf hy hlists hg hsame ih =>
    have hkey : g ∈ b.ids.keys := by
      cases hg <;> assumption
    have hevicted : ∃ e ∈ evicted, g.same e = true := by
      have htracked := mt (h.tracked g).mpr (by simp [ih])
      simp only [OrderedMap.contains_of_mem_keys hkey, true_and] at htracked
      simpa using htracked
    obtain ⟨e, he, hge⟩ := hevicted
    exact hnone hy hlists (.inr ⟨e, he, Path.same_trans (Path.same_symm hge) hsame⟩)

/-- What was evicted when nothing is pending any more are the doomed files. -/
theorem Cascading.evicted_iff {evicted : List Path} (h : Cascading gone b ⟨[], evicted⟩ b')
    {f : Path} (hf : f ∈ b.ids.keys) :
    (∃ e ∈ evicted, f.same e = true) ↔ Doomed gone b f := by
  constructor
  · rintro ⟨e, he, hsame⟩
    exact doomed_of_justified h.evicted h.justified e he f hf hsame
  · intro hdoomed
    have htracked := mt (h.tracked f).mpr (by simp [h.not_doomed hdoomed])
    simp only [OrderedMap.contains_of_mem_keys hf, true_and] at htracked
    simpa using htracked

theorem Cascading.none_doomed {evicted : List Path} (h : Cascading gone b ⟨[], evicted⟩ b')
    {f : Path} : ¬Doomed gone b' f := by
  intro hf
  have hleft {y f : Path} (hf : f ∈ b'.ids.keys) (hy : y ∈ b'.dependents.keys)
      (hlists : b'.dependents.Lists y f) (hgone : gone y) : False := by
    have hcontains := OrderedMap.contains_of_mem_keys hf
    obtain ⟨p, hp, -⟩ := h.waiting y (h.dependencyKeys y hy) (.inl hgone) f hcontains
      ((h.lists y f hcontains).mp hlists)
    simp at hp
  induction hf with
  | gone hf hgone =>
    have hcleared := h.cleared _ (h.fileKeys _ hf) hgone
    rw [OrderedMap.contains_of_mem_keys hf] at hcleared
    contradiction
  | dependency hf hy hlists hgone => exact hleft hf hy hlists hgone
  | dependent _ _ _ _ _ ih => exact ih

theorem cascading_start {files missing : List Path}
    (hfiles : ∀ f, f ∈ files ↔ f ∈ b.ids.keys ∧ gone f)
    (hmissing : ∀ y, y ∈ missing ↔ y ∈ (b.evictAll files).dependents.keys ∧ gone y) :
    Cascading gone b ⟨b.evictedOf files ++ missing, b.evictedOf files⟩ (b.evictAll files) := by
  have hkept {f : Path} (hf : (b.evictAll files).ids.contains f = true) :
      ∀ g ∈ files, f.same g = false := ((contains_evictAll _ _ _).mp hf).2
  exact {
    fileKeys := mem_keys_of_evictAll.1
    dependencyKeys := mem_keys_of_evictAll.2
    tracked := fun f => by
      rw [contains_evictAll]
      refine and_congr_right fun hf => ?_
      have hfound := not_congr (exists_mem_evictedOf files hf)
      simpa using hfound.symm
    lists := fun y f hf => lists_evictAll_other _ _ (hkept hf) y
    evicted := fun e he => (mem_evictedOf he).2
    distinct := pairwise_evictedOf _ _
    justified := fun before e after heq => by
      have hevicted : e ∈ b.evictedOf files := by
        rw [show b.evictedOf files = before ++ e :: after from heq]
        simp
      obtain ⟨hkey, hgone⟩ := (hfiles e).mp (mem_evictedOf hevicted).1
      exact .inl ⟨e, hkey, Path.same_refl e, hgone⟩
    pending := fun y hy => by
      rcases List.mem_append.mp hy with hy | hy
      · exact .inr hy
      · obtain ⟨hkey, hgone⟩ := (hmissing y).mp hy
        exact .inl ⟨hgone, mem_keys_of_evictAll.2 y hkey⟩
    cleared := fun f hf hgone => by
      rw [← Bool.not_eq_true]
      intro hcontains
      have hne := hkept hcontains f ((hfiles f).mpr ⟨hf, hgone⟩)
      simp at hne
    waiting := fun y hy hcause f hf hlists => by
      rcases hcause with hgone | ⟨e, he, hsame⟩
      · have hl := (lists_evictAll_other _ b (hkept hf) y).mpr hlists
        obtain ⟨listed, hget, -⟩ := Dependents.lists_iff.mp hl
        have hcontains : (b.evictAll files).dependents.contains y = true := by
          rw [OrderedMap.contains, hget]
          rfl
        obtain ⟨k, hk, hky⟩ := exists_key_of_contains hcontains
        have heq : k = y := OrderedMap.eq_of_mem_keys (mem_keys_of_evictAll.2 k hk) hy
          (Path.same_iff_compare.mp hky)
        exact ⟨y, List.mem_append_right _ ((hmissing y).mpr ⟨heq ▸ hk, hgone⟩), Path.same_refl y⟩
      · exact ⟨e, List.mem_append_left _ he, hsame⟩ }

end BuildCache.Books
