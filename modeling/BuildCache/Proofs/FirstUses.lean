import BuildCache.Proofs.ReverseIndex
import BuildCache.Session
import Mathlib.Data.List.Induction

/-!
# First uses

The imports of a file are listed by the first specifier that leads to each. Repetitions are dropped
twice, by the text of a specifier and by the path it resolves to; what is left stands in the order
of first uses, and each use is accounted for.
-/

namespace BuildCache

open BuildCache.Path

section

variable {σ β : Type} {yield : σ → Option β} {alike : β → β → Bool} {xs : List σ} {ys : List β}
  {x : σ} {y : β}

/-- A value is used first at a place of a list: the list yields it there, and nothing like it
before. -/
structure UsedFirst (yield : σ → Option β) (alike : β → β → Bool) (xs : List σ) (i : Nat) (y : β) :
    Prop where
  here : ∃ x, xs[i]? = some x ∧ yield x = some y
  before : ∀ j x y', j < i → xs[j]? = some x → yield x = some y' → alike y y' = false

/-- The values that a list yields, in the order of their first uses. -/
structure FirstUses (yield : σ → Option β) (alike : β → β → Bool) (xs : List σ) (ys : List β) :
    Prop where
  places : ∃ uses : List (Nat × β), uses.map Prod.snd = ys ∧
    uses.Pairwise (fun use later => use.1 < later.1) ∧
    ∀ use ∈ uses, UsedFirst yield alike xs use.1 use.2
  complete : ∀ x ∈ xs, ∀ y, yield x = some y → ∃ y' ∈ ys, alike y y' = true

theorem UsedFirst.lt_length {i : Nat} (h : UsedFirst yield alike xs i y) : i < xs.length := by
  obtain ⟨x, hx, -⟩ := h.here
  exact (List.getElem?_eq_some_iff.mp hx).1

theorem UsedFirst.append {i : Nat} (h : UsedFirst yield alike xs i y) (more : List σ) :
    UsedFirst yield alike (xs ++ more) i y := by
  have hi : i < xs.length := h.lt_length
  obtain ⟨x, hx, hy⟩ := h.here
  refine ⟨⟨x, ?_, hy⟩, ?_⟩
  · rw [List.getElem?_append_left hi, hx]
  · intro j x' y' hj hx' hy'
    rw [List.getElem?_append_left (by omega)] at hx'
    exact h.before j x' y' hj hx' hy'

theorem FirstUses.nil : FirstUses yield alike [] [] :=
  ⟨⟨[], rfl, .nil, by simp⟩, by simp⟩

theorem FirstUses.again (h : FirstUses yield alike xs ys)
    (hx : ∀ y, yield x = some y → ∃ y' ∈ ys, alike y y' = true) :
    FirstUses yield alike (xs ++ [x]) ys := by
  obtain ⟨uses, hvalues, hsorted, hfirst⟩ := h.places
  refine ⟨⟨uses, hvalues, hsorted, fun use hu => (hfirst use hu).append [x]⟩, ?_⟩
  intro x' hx' y hy
  rcases List.mem_append.mp hx' with hx' | hx'
  · exact h.complete x' hx' y hy
  · rw [List.mem_singleton] at hx'
    subst hx'
    exact hx y hy

theorem FirstUses.first (h : FirstUses yield alike xs ys) (hy : yield x = some y)
    (hrefl : alike y y = true)
    (hnew : ∀ x' ∈ xs, ∀ y', yield x' = some y' → alike y y' = false) :
    FirstUses yield alike (xs ++ [x]) (ys ++ [y]) := by
  obtain ⟨uses, hvalues, hsorted, hfirst⟩ := h.places
  have hlast : UsedFirst yield alike (xs ++ [x]) xs.length y := by
    refine ⟨⟨x, by simp, hy⟩, ?_⟩
    intro j x' y' hj hx' hy'
    rw [List.getElem?_append_left hj] at hx'
    exact hnew x' (List.mem_of_getElem? hx') y' hy'
  refine ⟨⟨uses ++ [(xs.length, y)], by simp [hvalues], ?_, ?_⟩, ?_⟩
  · rw [List.pairwise_append]
    refine ⟨hsorted, List.pairwise_singleton _ _, ?_⟩
    intro use hu last hl
    rw [List.mem_singleton.mp hl]
    exact (hfirst use hu).lt_length
  · intro use hu
    rcases List.mem_append.mp hu with hu | hu
    · exact (hfirst use hu).append [x]
    · rw [List.mem_singleton.mp hu]
      exact hlast
  · intro x' hx' y' hy'
    rcases List.mem_append.mp hx' with hx' | hx'
    · obtain ⟨y'', hmem, halike⟩ := h.complete x' hx' y' hy'
      exact ⟨y'', List.mem_append_left [y] hmem, halike⟩
    · rw [List.mem_singleton] at hx'
      subst hx'
      rw [hy, Option.some.injEq] at hy'
      subst hy'
      exact ⟨y, by simp, hrefl⟩

theorem FirstUses.pairwise (h : FirstUses yield alike xs ys) :
    ys.Pairwise fun y y' => alike y' y = false := by
  obtain ⟨uses, rfl, hsorted, hfirst⟩ := h.places
  rw [List.pairwise_map]
  apply hsorted.imp_of_mem
  intro use later hu hl hlt
  obtain ⟨x, hx, hyield⟩ := (hfirst use hu).here
  exact (hfirst later hl).before use.1 x use.2 hlt hx hyield

theorem FirstUses.exists_of_mem (h : FirstUses yield alike xs ys) (hy : y ∈ ys) :
    ∃ x ∈ xs, yield x = some y := by
  obtain ⟨uses, rfl, -, hfirst⟩ := h.places
  obtain ⟨use, hu, rfl⟩ := List.mem_map.mp hy
  obtain ⟨x, hx, hyield⟩ := (hfirst use hu).here
  exact ⟨x, List.mem_of_getElem? hx, hyield⟩

end

private theorem loop_concat {α : Type} (r : α → α → Bool) (as kept : List α) (a : α) :
    List.eraseDupsBy.loop r (as ++ [a]) kept =
      let firsts := List.eraseDupsBy.loop r as kept
      if firsts.any (r a) then firsts else firsts ++ [a] := by
  induction as generalizing kept with
  | nil =>
    simp only [List.nil_append, List.eraseDupsBy.loop, List.any_reverse]
    cases kept.any (r a) <;> simp
  | cons b as ih =>
    simp only [List.cons_append, List.eraseDupsBy.loop]
    by_cases h : kept.any (r b) = true
    · simp only [h]
      exact ih kept
    · simp only [h]
      exact ih (b :: kept)

/-- The last element is kept if none that was kept is like it. -/
theorem eraseDupsBy_concat {α : Type} (r : α → α → Bool) (as : List α) (a : α) :
    (as ++ [a]).eraseDupsBy r =
      if (as.eraseDupsBy r).any (r a) then as.eraseDupsBy r else as.eraseDupsBy r ++ [a] :=
  loop_concat r as [] a

theorem eraseDups_concat {α : Type} [BEq α] [LawfulBEq α] (as : List α) (a : α) :
    (as ++ [a]).eraseDups = if a ∈ as then as.eraseDups else as.eraseDups ++ [a] := by
  have hany : as.eraseDups.any (a == ·) = true ↔ a ∈ as := by
    simp
  rw [List.eraseDups, eraseDupsBy_concat, ← List.eraseDups]
  by_cases h : a ∈ as
  · rw [if_pos (hany.mpr h), if_pos h]
  · rw [if_neg (mt hany.mp h), if_neg h]

namespace Resolver

/-- The file that a specifier leads to. -/
def resolved? (r : Resolver) (t : FileTree) (importer : Path) (specifier : String) : Option Path :=
  (r.resolve t importer specifier).toOption

/-- The specifier itself, if it leads nowhere. -/
def unresolved? (r : Resolver) (t : FileTree) (importer : Path) (specifier : String) :
    Option String :=
  match r.resolve t importer specifier with
  | .error _ => some specifier
  | .ok _ => none

variable (r : Resolver) (t : FileTree) (importer : Path) (specifiers : List String)

theorem dependencies_eq : (r.imports t importer specifiers).dependencies =
    (specifiers.eraseDups.filterMap (r.resolved? t importer)).eraseDupsBy Path.same := by
  simp only [imports, List.filterMap_map]
  rfl

theorem unresolved_eq : (r.imports t importer specifiers).unresolved =
    (specifiers.eraseDups.filterMap (r.unresolved? t importer)).map (⟨·, importer⟩) := by
  simp only [imports, List.filterMap_map, List.map_filterMap]
  congr 1
  funext specifier
  simp only [Function.comp_apply, unresolved?]
  cases hresolve : r.resolve t importer specifier with
  | ok p => rfl
  | error u =>
    rw [resolve] at hresolve
    split at hresolve
    · contradiction
    · cases hresolve
      rfl

/-- The dependencies are the resolved paths, by first use. Among those that are kept there is one
like each that was used, so the new one need be compared with them only. -/
theorem firstUses_dependencies : FirstUses (r.resolved? t importer) Path.same specifiers
    (r.imports t importer specifiers).dependencies := by
  rw [dependencies_eq]
  induction specifiers using List.reverseRecOn with
  | nil => exact .nil
  | append_singleton specifiers specifier ih =>
    rw [eraseDups_concat]
    split
    · next hused => exact ih.again (ih.complete specifier hused)
    · cases hyield : r.resolved? t importer specifier with
      | none =>
        rw [List.filterMap_append, List.filterMap_cons_none hyield, List.filterMap_nil,
          List.append_nil]
        exact ih.again (by simp [hyield])
      | some p =>
        rw [List.filterMap_append, List.filterMap_cons_some hyield, List.filterMap_nil,
          eraseDupsBy_concat]
        split
        · next hany =>
          apply ih.again
          intro p' hp'
          rw [hyield, Option.some.injEq] at hp'
          subst hp'
          exact List.any_eq_true.mp hany
        · next hany =>
          apply ih.first hyield (same_refl p)
          intro specifier' hspecifier' p' hp'
          rw [← Bool.not_eq_true]
          intro hsame
          obtain ⟨q, hq, hlike⟩ := ih.complete specifier' hspecifier' p' hp'
          exact hany (List.any_eq_true.mpr ⟨q, hq, same_trans hsame hlike⟩)

theorem firstUses_unresolved : ∃ names : List String,
    (r.imports t importer specifiers).unresolved = names.map (⟨·, importer⟩) ∧
      FirstUses (r.unresolved? t importer) (· == ·) specifiers names := by
  refine ⟨_, unresolved_eq r t importer specifiers, ?_⟩
  induction specifiers using List.reverseRecOn with
  | nil => exact .nil
  | append_singleton specifiers specifier ih =>
    rw [eraseDups_concat]
    split
    · next hused => exact ih.again (ih.complete specifier hused)
    · next hnew =>
      cases hyield : r.unresolved? t importer specifier with
      | none =>
        rw [List.filterMap_append, List.filterMap_cons_none hyield, List.filterMap_nil,
          List.append_nil]
        exact ih.again (by simp [hyield])
      | some name =>
        rw [List.filterMap_append, List.filterMap_cons_some hyield, List.filterMap_nil]
        apply ih.first hyield BEq.rfl
        intro specifier' hspecifier' name' hname'
        have hself {s name : String} (h : r.unresolved? t importer s = some name) : name = s := by
          rw [unresolved?] at h
          split at h
          · exact (Option.some.inj h).symm
          · contradiction
        rw [hself hyield, hself hname', beq_eq_false_iff_ne]
        rintro rfl
        exact hnew hspecifier'

variable {r t importer specifiers} {specifiers' : List String}

/-- Where the same specifiers are used, whatever their order, the same paths are dependencies, in
one spelling or another. -/
theorem exists_same_of_mem_dependencies (h : ∀ s, s ∈ specifiers → s ∈ specifiers') {p : Path}
    (hp : p ∈ (r.imports t importer specifiers).dependencies) :
    ∃ q ∈ (r.imports t importer specifiers').dependencies, p.same q = true := by
  obtain ⟨specifier, hspecifier, hyield⟩ :=
    (r.firstUses_dependencies t importer specifiers).exists_of_mem hp
  exact (r.firstUses_dependencies t importer specifiers').complete specifier
    (h specifier hspecifier) p hyield

end Resolver

end BuildCache
