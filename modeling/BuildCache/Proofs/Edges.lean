import BuildCache.Proofs.ImportOrder

/-!
# Edges that come and go

Moving a file in the reverse index sets its edges and no others, and moving it back undoes that. A
file whose edges are not known is searched for under every dependency, with the same outcome as if
they had been known.
-/

namespace BuildCache

namespace Dependents

variable {d d' : Dependents} {file : Path} {previous next : PathSet}

instance (d : Dependents) : Decidable d.NoneEmpty :=
  decidable_of_iff (d.values.any (·.isEmpty) = false) <| by
    rw [← Bool.not_eq_true, OrderedMap.any_values_iff, NoneEmpty]
    simp only [not_exists, not_and, Bool.not_eq_true]

/-- The dependencies that list a file. -/
def importsOf (d : Dependents) (file : Path) : PathSet :=
  PathMap.keySet (d.filter fun _ files => files.contains file)

theorem contains_importsOf {y : Path} :
    (d.importsOf file).contains y = true ↔ d.Lists y file := by
  rw [importsOf, PathMap.keySet, OrderedMap.contains, OrderedMap.get?_map, Option.isSome_map,
    OrderedMap.get?_filter_of_congr _ fun _ _ _ _ => rfl, lists_iff]
  cases d.get? y <;> simp [Option.filter]

/-- Without empty entries an index is known by its edges. -/
theorem listing_congr (hd : d.NoneEmpty) (hd' : d'.NoneEmpty)
    (h : ∀ y f, d.Lists y f ↔ d'.Lists y f) (y : Path) : d.listing y = d'.listing y := by
  have hentry {d d' : Dependents} (hd : d.NoneEmpty) (h : ∀ f, d.Lists y f ↔ d'.Lists y f)
      {files : PathSet} (hy : d.get? y = some files) : ∃ files', d'.get? y = some files' := by
    obtain ⟨f, hf⟩ := OrderedMap.isEmpty_eq_false_iff.mp (hd y files hy)
    obtain ⟨files', hy', -⟩ := lists_iff.mp ((h f).mp (lists_iff.mpr ⟨files, hy, hf⟩))
    exact ⟨files', hy'⟩
  rw [listing, listing]
  cases hy : d.get? y with
  | none =>
    cases hy' : d'.get? y with
    | none => rfl
    | some files' =>
      obtain ⟨files, hfiles⟩ := hentry hd' (fun f => (h y f).symm) hy'
      rw [hy] at hfiles
      contradiction
  | some files =>
    obtain ⟨files', hy'⟩ := hentry hd (h y) hy
    have hfiles : OrderedMap.contains files = OrderedMap.contains files' := by
      funext f
      have hf := h y f
      rw [Lists, Lists, filesOf, filesOf, hy, hy'] at hf
      exact Bool.eq_iff_iff.mpr hf
    rw [hy', Option.map_some, Option.map_some, hfiles]

theorem lists_update_self (h : ∀ y, d.Lists y file ↔ previous.contains y = true) (y : Path) :
    (d.update file previous next).Lists y file ↔ next.contains y = true := by
  rw [lists_update, h y, Path.same_refl]
  cases previous.contains y <;> cases next.contains y <;> simp

theorem lists_update_of_ne {f : Path} (hne : f.same file = false) (y : Path) :
    (d.update file previous next).Lists y f ↔ d.Lists y f := by
  simp [lists_update, hne]

/-- Where the index lists a file under its previous dependencies, a move lists it under the next
ones, changes no edge of another file and leaves no dependency without files. Moving the file back
gives the index that was there before. -/
theorem update_exact (hd : d.NoneEmpty)
    (h : ∀ y, d.Lists y file ↔ previous.contains y = true) (next : PathSet) :
    (∀ y, (d.update file previous next).Lists y file ↔ next.contains y = true) ∧
      (∀ y f, f.same file = false → ((d.update file previous next).Lists y f ↔ d.Lists y f)) ∧
      (d.update file previous next).NoneEmpty ∧
      ∀ y, ((d.update file previous next).update file next previous).listing y = d.listing y := by
  have hnext : ∀ y, (d.update file previous next).Lists y file ↔ next.contains y = true :=
    lists_update_self h
  have hmoved : (d.update file previous next).NoneEmpty := noneEmpty_update hd file previous next
  refine ⟨hnext, fun y f hne => lists_update_of_ne hne y, hmoved,
    listing_congr (noneEmpty_update hmoved file next previous) hd fun y f => ?_⟩
  cases hf : f.same file with
  | true =>
    rw [lists_congr (Path.same_refl y) hf, lists_congr (Path.same_refl y) hf,
      lists_update_self hnext, h y]
  | false => rw [lists_update_of_ne hf, lists_update_of_ne hf]

namespace Sample

def importer : Path := .ofString "/proj/./x"

/-- An index in which `/proj//b` has two files and `/proj/a` one. -/
def index : Dependents :=
  .ofList [(.ofString "/proj/a", .ofList [.ofString "/proj/x"]),
    (.ofString "/proj//b", .ofList [.ofString "/proj/x", .ofString "/proj/y"])]

def importsBefore : PathSet := .ofList [.ofString "/proj/a/", .ofString "/proj/b"]

def importsAfter : PathSet := .ofList [.ofString "/proj/b", .ofString "/proj/c"]

end Sample

/-- The entry that comes back is spelled as it was last asked for. -/
theorem update_exact_of_spelled_anew :
    Sample.index.NoneEmpty ∧
      (∀ y, Sample.index.Lists y Sample.importer ↔ Sample.importsBefore.contains y = true) ∧
      let moved := Sample.index.update Sample.importer Sample.importsBefore Sample.importsAfter
      (∀ y, (moved.update Sample.importer Sample.importsAfter Sample.importsBefore).listing y =
          Sample.index.listing y) ∧
        moved.update Sample.importer Sample.importsAfter Sample.importsBefore ≠ Sample.index := by
  have hd : Sample.index.NoneEmpty := by decide +kernel
  have hsame : Sample.importsBefore.sameKeys (Sample.index.importsOf Sample.importer) = true := by
    decide +kernel
  have h (y : Path) :
      Sample.index.Lists y Sample.importer ↔ Sample.importsBefore.contains y = true := by
    rw [← contains_importsOf, OrderedMap.sameKeys_iff.mp hsame y]
  obtain ⟨-, -, -, hback⟩ := update_exact hd h Sample.importsAfter
  exact ⟨hd, h, hback, by decide +kernel⟩

/-- What is left of an entry without a file. -/
def strike (file : Path) (files : Option PathSet) : Option PathSet :=
  (files.map fun files => OrderedMap.erase files file).filter (!·.isEmpty)

theorem strike_strike (file : Path) (files : Option PathSet) :
    strike file (strike file files) = strike file files := by
  cases files with
  | none => rfl
  | some files =>
    have hstrike (files : PathSet) : strike file (some files) =
        if (OrderedMap.erase files file).isEmpty then none
        else some (OrderedMap.erase files file) := by
      rw [strike, Option.map_some, Option.filter_some]
      cases (OrderedMap.erase files file).isEmpty <;> rfl
    cases hempty : (OrderedMap.erase files file).isEmpty with
    | true =>
      rw [hstrike, hempty, if_pos rfl]
      rfl
    | false =>
      rw [hstrike, hempty, if_neg Bool.false_ne_true, hstrike, OrderedMap.erase_erase, hempty,
        if_neg Bool.false_ne_true]

theorem strike_of_not_lists (hd : d.NoneEmpty) {y : Path} (h : ¬d.Lists y file) :
    strike file (d.get? y) = d.get? y := by
  cases hy : d.get? y with
  | none => rfl
  | some files =>
    have hfile : OrderedMap.contains files file = false := by
      rw [← Bool.not_eq_true]
      exact fun hf => h (lists_iff.mpr ⟨files, hy, hf⟩)
    rw [strike, Option.map_some, OrderedMap.erase_of_not_contains hfile]
    exact Option.filter_eq_some_iff.mpr ⟨rfl, by rw [hd y files hy]; rfl⟩

theorem get?_removeEdge (d : Dependents) (file y y' : Path) :
    (d.removeEdge file y).get? y' =
      if y'.same y then strike file (d.get? y') else d.get? y' := by
  have hsame (h : y'.same y = true) : d.get? y' = d.get? y :=
    OrderedMap.get?_congr d (Path.same_iff_compare.mp h)
  have hne (h : ¬y'.same y = true) : compare y' y ≠ .eq := fun hc =>
    h (Path.same_iff_compare.mpr hc)
  rw [removeEdge]
  cases hy : d.get? y with
  | none =>
    by_cases h : y'.same y = true
    · rw [if_pos h, hsame h, hy]
      rfl
    · rw [if_neg h]
  | some files =>
    by_cases h : y'.same y = true
    · have hcmp := Path.same_iff_compare.mp h
      rw [if_pos h, hsame h, hy, strike, Option.map_some, Option.filter_some]
      cases hempty : (OrderedMap.erase files file).isEmpty
      · simp [hempty, OrderedMap.get?_insert, hcmp]
      · simp [hempty, OrderedMap.get?_erase, hcmp]
    · rw [if_neg h]
      simp only
      split
      · rw [OrderedMap.get?_erase, if_neg (hne h)]
      · rw [OrderedMap.get?_insert, if_neg (hne h)]

theorem get?_foldl_removeEdge (ys : List Path) (d : Dependents) (file y : Path) :
    (ys.foldl (removeEdge · file) d).get? y =
      if ys.any (y.same ·) then strike file (d.get? y) else d.get? y := by
  induction ys generalizing d with
  | nil => rfl
  | cons z ys ih =>
    rw [List.foldl_cons, ih, get?_removeEdge, List.any_cons]
    cases y.same z <;> cases ys.any (y.same ·) <;> simp [strike_strike]

/-- The search through all entries leaves what is left when each edge is removed, spelling for
spelling. -/
theorem forget_eq_update (hd : d.NoneEmpty)
    (h : ∀ y, previous.contains y = true ↔ d.Lists y file) :
    d.forget file = d.update file previous .empty := by
  have hall : previous.without .empty = previous :=
    OrderedMap.ext_entries (List.filter_eq_self.mpr fun _ _ => rfl)
  have hupdate : d.update file previous .empty = previous.toList.foldl (removeEdge · file) d := by
    rw [update, hall]
    rfl
  refine OrderedMap.ext_of_keys d (fun k => mem_keys_of_forget)
    (fun k => mem_keys_of_update_empty) fun y => ?_
  have hany : previous.toList.any (y.same ·) = true ↔ d.Lists y file := by
    rw [List.any_eq_true, ← PathSet.contains_iff_mem, h y]
  have hforget : (d.forget file).get? y = strike file (d.get? y) := get?_forget d file y
  rw [hforget, hupdate, get?_foldl_removeEdge]
  split
  · rfl
  · next hnot => exact strike_of_not_lists hd (mt hany.mpr hnot)

theorem forget_eq_self_iff (hd : d.NoneEmpty) : d.forget file = d ↔ d.mentions file = false := by
  rw [← Bool.not_eq_true, mentions_iff]
  constructor
  · rintro heq ⟨y, hy⟩
    rw [← heq, lists_forget] at hy
    simp at hy
  · intro h
    have hforget : d.forget file = d.update file .empty .empty :=
      forget_eq_update hd fun y => iff_of_false (by simp) fun hy => h ⟨y, hy⟩
    rw [hforget]
    rfl

end Dependents

namespace Workspace

variable {file : Path} {w : Workspace} {previous : PathSet}

theorem changeDependents_congr {change change' : Dependents → Dependents}
    (h : change w.current.dependents = change' w.current.dependents) :
    changeDependents change w = changeDependents change' w := by
  have hvalue : change (w.store.dependents.get w.files w.store.layout.dependents) =
      change' (w.store.dependents.get w.files w.store.layout.dependents) := h
  simp only [changeDependents, Table.update, hvalue]

theorem dirty_forgetFile (file : Path) (w : Workspace) :
    (forgetFile file w).2.store.dependents.dirty =
      (w.store.dependents.dirty || w.current.dependents.mentions file) := by
  rw [forgetFile_eq]
  cases w.current.dependents.mentions file
  · exact (Bool.or_false _).symm
  · exact (Bool.or_true _).symm

/-- Where no dependency is kept without files, a file that is searched for everywhere leaves the
index as one that is moved away from the dependencies that list it. The index waits for a save if
it did before, and else if and only if it changed. -/
theorem forgetFile_eq_moveFile (hd : w.current.dependents.NoneEmpty)
    (hprevious : previous.sameKeys (w.current.dependents.importsOf file) = true) :
    (forgetFile file w).2.current.dependents =
        w.current.dependents.update file previous .empty ∧
      (forgetFile file w).2 = (moveFile file previous .empty (dependents w).2).2 ∧
      ((forgetFile file w).2.store.dependents.dirty = true ↔
        w.store.dependents.dirty = true ∨
          (forgetFile file w).2.current.dependents ≠ w.current.dependents) := by
  have hlists (y : Path) : previous.contains y = true ↔ w.current.dependents.Lists y file := by
    rw [OrderedMap.sameKeys_iff.mp hprevious y, Dependents.contains_importsOf]
  have hforget := Dependents.forget_eq_update hd hlists
  have hself : w.current.dependents.forget file = w.current.dependents ↔
      w.current.dependents.mentions file = false := Dependents.forget_eq_self_iff hd
  have hsame : previous.sameKeys (.empty : PathSet) = !w.current.dependents.mentions file := by
    rw [Bool.eq_iff_iff, OrderedMap.sameKeys_iff, Bool.not_eq_true', ← Bool.not_eq_true,
      Dependents.mentions_iff, not_exists]
    simp only [OrderedMap.contains_empty, ← hlists, Bool.not_eq_true]
  have hcurrent : (forgetFile file w).2.current.dependents = w.current.dependents.forget file := by
    rw [current_forgetFile, Books.forget]
    split
    · rfl
    · next hnot => exact (hself.mpr (Bool.not_eq_true _ ▸ hnot)).symm
  refine ⟨hcurrent.trans hforget, ?_, ?_⟩
  · rw [forgetFile_eq, moveFile, hsame]
    cases w.current.dependents.mentions file with
    | true => exact congrArg Prod.snd (changeDependents_congr hforget)
    | false => rfl
  · rw [dirty_forgetFile, hcurrent, Ne, hself, Bool.or_eq_true, Bool.not_eq_false]

open Dependents.Sample in
theorem forgetFile_eq_moveFile_of_spelled_anew :
    let store : Store := ⟨⟨.ofString "/cache"⟩, "", false, false, {}, ⟨some index, false⟩, {}⟩
    let w : Workspace := ⟨.empty 0, store⟩
    w.current.dependents.NoneEmpty ∧
      importsBefore.sameKeys (w.current.dependents.importsOf importer) = true ∧
      (forgetFile importer w).2 = (moveFile importer importsBefore .empty (dependents w).2).2 ∧
      (forgetFile importer w).2.store.dependents.dirty = true := by
  intro store w
  have hd : w.current.dependents.NoneEmpty := by decide +kernel
  have hsame : importsBefore.sameKeys (w.current.dependents.importsOf importer) = true := by
    decide +kernel
  obtain ⟨-, hmoved, -⟩ := forgetFile_eq_moveFile hd hsame
  exact ⟨hd, hsame, hmoved, by decide +kernel⟩

end Workspace

end BuildCache
