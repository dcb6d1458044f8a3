import BuildCache.Dependents
import BuildCache.Proofs.OrderedMap
import BuildCache.Proofs.Path.Text

/-!
# Tables and records of textual paths

Writing a table or a record fails on a path that is not text and on nothing else. What is read from
disk has no such path, and the changes of the reverse index add none.
-/

namespace BuildCache

/-- A form that writes the values whose paths are all text, and reads no others. -/
class TextForm (α : Type) [JsonForm α] where
  Textual : α → Prop
  of_ofJson? : ∀ {v : Json} {a : α}, JsonForm.ofJson? v = some a → Textual a
  isSome_toJson?_iff : ∀ {a : α}, (JsonForm.toJson? a).isSome = true ↔ Textual a

open TextForm

namespace JsonForm

variable {α : Type} [JsonForm α] [TextForm α]

theorem textual_of_parse? {text : String} {a : α} (h : parse? text = some a) : Textual a := by
  obtain ⟨v, -, hv⟩ := Option.bind_eq_some_iff.mp h
  exact of_ofJson? hv

theorem isSome_render?_iff {pretty : Bool} {a : α} :
    (render? pretty a).isSome = true ↔ Textual a := by
  rw [render?, Option.isSome_map, isSome_toJson?_iff]

private theorem isSome_mapM_iff {β γ : Type} {f : β → Option γ} {bs : List β} :
    (bs.mapM f).isSome = true ↔ ∀ b ∈ bs, (f b).isSome = true := by
  induction bs with
  | nil => simp
  | cons b bs ih =>
    rw [List.mapM_cons, List.forall_mem_cons, ← ih]
    cases f b <;> cases bs.mapM f <;> simp

private theorem exists_of_mem_mapM {β γ : Type} {f : β → Option γ} {bs : List β} {cs : List γ}
    (h : bs.mapM f = some cs) {c : γ} (hc : c ∈ cs) : ∃ b, f b = some c := by
  induction bs generalizing cs with
  | nil =>
    cases h
    simp at hc
  | cons b bs ih =>
    simp only [List.mapM_cons, bind, Option.bind_eq_some_iff, pure, Option.some.injEq] at h
    obtain ⟨d, hd, ds, hds, rfl⟩ := h
    rcases List.mem_cons.mp hc with rfl | hc
    · exact ⟨b, hd⟩
    · exact ih hds hc

instance : TextForm CacheId where
  Textual _ := True
  of_ofJson? _ := trivial
  isSome_toJson?_iff := ⟨fun _ => trivial, fun _ => rfl⟩

instance : TextForm DependencyStamp where
  Textual _ := True
  of_ofJson? _ := trivial
  isSome_toJson?_iff {a} := by
    obtain ⟨_ | hash, _ | modified⟩ := a <;> exact ⟨fun _ => trivial, fun _ => rfl⟩

instance : TextForm Path where
  Textual := Path.IsText
  of_ofJson? h := by
    obtain ⟨s, -, rfl⟩ := Option.map_eq_some_iff.mp h
    exact Path.isText_ofString s
  isSome_toJson?_iff {p} := by
    have hform : toJson? p = p.text?.map Json.ofString := rfl
    rw [hform, Option.isSome_map, Path.isText_iff_text?]

instance : TextForm (PathMap α) where
  Textual m := (∀ p ∈ m.keys, p.IsText) ∧ ∀ a ∈ m.values, Textual a
  of_ofJson? {v m} h := by
    simp only [ofJson?, bind, Option.bind_eq_some_iff, pure, Option.some.injEq] at h
    obtain ⟨fields, -, entries, hentries, rfl⟩ := h
    refine OrderedMap.ofList_induction
      (P := fun m : PathMap α => (∀ p ∈ m.keys, p.IsText) ∧ ∀ a ∈ m.values, Textual a)
      ⟨fun p hp => (by cases hp), fun a ha => (by cases ha)⟩ fun m hm e he => ?_
    obtain ⟨⟨key, v⟩, hfield⟩ := exists_of_mem_mapM hentries he
    obtain ⟨a, ha, rfl⟩ := Option.map_eq_some_iff.mp hfield
    refine ⟨fun p hp => ?_, fun b hb => ?_⟩
    · rcases OrderedMap.eq_or_mem_keys_of_insert hp with rfl | hp
      · exact Path.isText_ofString key
      · exact hm.1 p hp
    · rcases OrderedMap.eq_or_mem_values_of_insert hb with rfl | hb
      · exact of_ofJson? ha
      · exact hm.2 b hb
  isSome_toJson?_iff {m} := by
    have hentry (e : Path × α) :
        (do return (some (← e.1.text?), ← toJson? e.2) : Option (Option String × Json)).isSome = true ↔
          e.1.IsText ∧ Textual e.2 := by
      rw [Path.isText_iff_text?, ← isSome_toJson?_iff]
      cases e.1.text? <;> cases toJson? e.2 <;> simp
    show (Option.bind (m.entries.mapM _) (some ∘ Json.object)).isSome = true ↔ _
    rw [← Option.map_eq_bind, Option.isSome_map, isSome_mapM_iff]
    simp only [hentry, OrderedMap.keys, OrderedMap.values, List.forall_mem_map]
    exact ⟨fun h => ⟨fun e he => (h e he).1, fun e he => (h e he).2⟩,
      fun h e he => ⟨h.1 e he, h.2 e he⟩⟩

instance : TextForm PathSet where
  Textual s := ∀ p ∈ s.toList, p.IsText
  of_ofJson? {v s} h p hp := by
    simp only [ofJson?, bind, Option.bind_eq_some_iff, pure, Option.some.injEq] at h
    obtain ⟨items, -, ps, hps, rfl⟩ := h
    obtain ⟨item, hitem⟩ := exists_of_mem_mapM hps (PathSet.mem_of_mem_ofList hp)
    obtain ⟨text, -, rfl⟩ := Option.map_eq_some_iff.mp hitem
    exact Path.isText_ofString text
  isSome_toJson?_iff {s} := by
    have hform : toJson? s = (s.toList.mapM toJson?).map Json.array := rfl
    rw [hform, Option.isSome_map, isSome_mapM_iff]
    exact forall₂_congr fun p _ => isSome_toJson?_iff

omit [TextForm α] in
private theorem ofJson?_of_optional? {v : Option Json} {a : α}
    (h : Json.optional? ofJson? v = some (some a)) : ∃ w, ofJson? w = some a := by
  rw [Json.optional?.eq_def] at h
  split at h
  · cases h
  · cases h
  · obtain ⟨b, hb, hsome⟩ := Option.map_eq_some_iff.mp h
    cases hsome
    exact ⟨_, hb⟩

instance : TextForm CacheRecord where
  Textual r := ∀ p ∈ r.dependencyPaths, p.IsText
  of_ofJson? {v r} h := by
    simp only [ofJson?, bind, Option.bind_eq_some_iff] at h
    obtain ⟨fields, -, h⟩ := h
    split at h
    · simp only [Option.bind_eq_some_iff, pure, Option.some.injEq] at h
      obtain ⟨hash, -, modified, -, fingerprint, -, dependencies, hdependencies, rfl⟩ := h
      cases dependencies with
      | none => exact fun p hp => (by cases hp)
      | some m =>
        obtain ⟨w, hw⟩ := ofJson?_of_optional? hdependencies
        exact (of_ofJson? hw).1
    · cases h
  isSome_toJson?_iff {r} := by
    have hform : (toJson? r).isSome = (optional? r.dependencies).isSome := by
      simp only [toJson?, bind, pure]
      cases optional? r.dependencies <;> rfl
    rw [hform, CacheRecord.dependencyPaths, CacheRecord.dependencyMap]
    cases r.dependencies with
    | none => exact ⟨fun _ p hp => (by cases hp), fun _ => rfl⟩
    | some m =>
      rw [optional?, Option.isSome_map, isSome_toJson?_iff]
      exact ⟨fun h => h.1, fun h => ⟨h, fun _ _ => trivial⟩⟩

end JsonForm

theorem CacheRecord.textual_dependencySet {r : CacheRecord} :
    Textual r.dependencySet ↔ Textual r := by
  have hkeys : r.dependencySet.toList = r.dependencyPaths := OrderedMap.keys_map _ _
  show (∀ p ∈ r.dependencySet.toList, p.IsText) ↔ ∀ p ∈ r.dependencyPaths, p.IsText
  rw [hkeys]

namespace PathMap

variable {α : Type} [JsonForm α] [TextForm α] {m : PathMap α} {p : Path} {a : α}

theorem textual_empty : Textual (∅ : PathMap α) :=
  ⟨fun p hp => (by cases hp), fun a ha => (by cases ha)⟩

theorem isText_of_contains (h : Textual m) (hp : m.contains p = true) : p.IsText := by
  obtain ⟨q, hq, hcmp⟩ := OrderedMap.contains_iff.mp hp
  exact (Path.isText_congr hcmp).mpr (h.1 q hq)

theorem textual_of_get? (h : Textual m) (ha : m.get? p = some a) : Textual a := by
  obtain ⟨q, hq, -⟩ := OrderedMap.get?_eq_some_iff.mp ha
  exact h.2 a (List.mem_map_of_mem hq)

theorem textual_insert (h : Textual m) (hp : p.IsText) (ha : Textual a) :
    Textual (m.insert p a) := by
  refine ⟨fun q hq => ?_, fun b hb => ?_⟩
  · rcases OrderedMap.eq_or_mem_keys_of_insert hq with rfl | hq
    · exact hp
    · exact h.1 q hq
  · rcases OrderedMap.eq_or_mem_values_of_insert hb with rfl | hb
    · exact ha
    · exact h.2 b hb

theorem textual_filter (h : Textual m) (f : Path → α → Bool) : Textual (m.filter f) := by
  refine ⟨fun q hq => h.1 q (OrderedMap.mem_keys_of_mem_keys_filter hq), fun b hb => ?_⟩
  obtain ⟨e, he, rfl⟩ := List.mem_map.mp hb
  exact h.2 e.2 (List.mem_map_of_mem (List.mem_filter.mp he).1)

theorem textual_erase (h : Textual m) (p : Path) : Textual (m.erase p) := textual_filter h _

end PathMap

namespace Dependents

variable {d : Dependents} {file dependency : Path} {previous next : PathSet}

theorem textual_filesOf (h : Textual d) (dependency : Path) :
    Textual (d.filesOf dependency) := by
  rw [filesOf]
  cases hfiles : d.get? dependency with
  | none => exact fun p hp => (by cases hp)
  | some files => exact PathMap.textual_of_get? h hfiles

theorem textual_addEdge (h : Textual d) (hfile : file.IsText) (hdependency : dependency.IsText) :
    Textual (d.addEdge file dependency) := by
  refine PathMap.textual_insert h hdependency fun p hp => ?_
  rcases OrderedMap.eq_or_mem_keys_of_insert hp with rfl | hp
  · exact hfile
  · exact textual_filesOf h dependency p hp

theorem textual_removeEdge (h : Textual d) (file dependency : Path) :
    Textual (d.removeEdge file dependency) := by
  rw [removeEdge]
  split
  · exact h
  · next files hfiles =>
    simp only
    split
    · exact PathMap.textual_erase h dependency
    · refine PathMap.textual_insert h (PathMap.isText_of_contains h ?_) fun p hp => ?_
      · rw [OrderedMap.contains, hfiles]
        rfl
      · have hfiles : Textual files := PathMap.textual_of_get? h hfiles
        exact hfiles p (OrderedMap.mem_keys_of_mem_keys_filter hp)

theorem textual_update (h : Textual d) (hfile : file.IsText) (hnext : Textual next) :
    Textual (d.update file previous next) := by
  have hremoved (ps : List Path) : Textual (ps.foldl (removeEdge · file) d) := by
    induction ps generalizing d with
    | nil => exact h
    | cons p ps ih => exact ih (textual_removeEdge h file p)
  have hadded (ps : List Path) (hps : ∀ p ∈ ps, p.IsText) {d : Dependents} (h : Textual d) :
      Textual (ps.foldl (addEdge · file) d) := by
    induction ps generalizing d with
    | nil => exact h
    | cons p ps ih =>
      obtain ⟨hp, hps⟩ := List.forall_mem_cons.mp hps
      exact ih hps (textual_addEdge h hfile hp)
  exact hadded _ (fun p hp => hnext p (OrderedMap.mem_keys_of_mem_keys_filter hp)) (hremoved _)

theorem textual_forget (h : Textual d) (file : Path) : Textual (d.forget file) := by
  refine PathMap.textual_filter (m := d.map fun _ files => files.erase file) ⟨?_, ?_⟩ _
  · rw [OrderedMap.keys_map]
    exact h.1
  · intro files hfiles p hp
    obtain ⟨moved, hmoved, rfl⟩ := List.mem_map.mp hfiles
    obtain ⟨e, he, rfl⟩ := List.mem_map.mp hmoved
    exact h.2 e.2 (List.mem_map_of_mem he) p (OrderedMap.mem_keys_of_mem_keys_filter hp)

end Dependents

end BuildCache
