import BuildCache.Proofs.ReverseIndex
import BuildCache.CacheId

/-!
# The books of a cache

What a cache knows, without the files it is kept in: ids, reverse index and records. The changes of
a workspace are followed here, and the index stays true to the records under each of them.
-/

namespace BuildCache

structure Books where
  ids : IdTable
  dependents : Dependents
  record : CacheId → Option CacheRecord

namespace Books

def empty : Books := ⟨∅, ∅, fun _ => none⟩

def withRecord (b : Books) (id : CacheId) (record : Option CacheRecord) : Books :=
  { b with record := fun id' => if id' = id then record else b.record id' }

def forget (b : Books) (file : Path) : Books :=
  if b.dependents.mentions file then { b with dependents := b.dependents.forget file } else b

def move (b : Books) (file : Path) (previous next : PathSet) : Books :=
  if previous.sameKeys next then b
  else { b with dependents := b.dependents.update file previous next }

def assign (b : Books) (file : Path) : Books :=
  match b.ids.get? file with
  | some _ => b
  | none => { b with ids := b.ids.insert file (.forPath file) }

/-- Puts a record under the id of a file and moves the file in the reverse index. -/
def put (b : Books) (file : Path) (id : CacheId) (record : CacheRecord) : Books :=
  match b.record id with
  | some previous =>
    (b.move file previous.dependencySet record.dependencySet).withRecord id (some record)
  | none => ((b.forget file).move file .empty record.dependencySet).withRecord id (some record)

def commit (b : Books) (file : Path) (id : CacheId) (record : CacheRecord) : Books :=
  (b.assign file).put file id record

def evict (b : Books) (file : Path) : Books :=
  let untracked : Books := { b with ids := b.ids.erase file }
  match b.ids.get? file with
  | none => untracked
  | some id =>
    match b.record id with
    | some record => (untracked.withRecord id none).move file record.dependencySet .empty
    | none => (untracked.withRecord id none).forget file

def evictAll (b : Books) (files : List Path) : Books := files.foldl evict b

/-- The files that are tracked when their turn to be evicted comes. -/
def evictedOf (b : Books) : List Path → List Path
  | [] => []
  | file :: rest =>
    let others := (b.evict file).evictedOf rest
    if b.ids.contains file then file :: others else others

/-- The books without the entry of a dependency. -/
def dropDependency (b : Books) (dependency : Path) : Books :=
  { b with dependents := b.dependents.erase dependency }

def evictDependents (b : Books) (dependency : Path) : Books :=
  (b.dropDependency dependency).evictAll (b.dependents.filesOf dependency).toList

def evictedUnder (b : Books) (dependency : Path) : List Path :=
  (b.dropDependency dependency).evictedOf (b.dependents.filesOf dependency).toList

@[simp] theorem ids_withRecord (b : Books) (id : CacheId) (r : Option CacheRecord) :
    (b.withRecord id r).ids = b.ids := rfl

@[simp] theorem dependents_withRecord (b : Books) (id : CacheId) (r : Option CacheRecord) :
    (b.withRecord id r).dependents = b.dependents := rfl

@[simp] theorem record_withRecord (b : Books) (id : CacheId) (r : Option CacheRecord)
    (id' : CacheId) : (b.withRecord id r).record id' = if id' = id then r else b.record id' := rfl

@[simp] theorem ids_forget (b : Books) (file : Path) : (b.forget file).ids = b.ids := by
  rw [forget]
  split <;> rfl

@[simp] theorem record_forget (b : Books) (file : Path) : (b.forget file).record = b.record := by
  rw [forget]
  split <;> rfl

@[simp] theorem ids_move (b : Books) (file : Path) (previous next : PathSet) :
    (b.move file previous next).ids = b.ids := by
  rw [move]
  split <;> rfl

@[simp] theorem record_move (b : Books) (file : Path) (previous next : PathSet) :
    (b.move file previous next).record = b.record := by
  rw [move]
  split <;> rfl

theorem lists_forget (b : Books) (file y f : Path) :
    (b.forget file).dependents.Lists y f ↔ b.dependents.Lists y f ∧ f.same file = false := by
  rw [forget]
  split
  · exact Dependents.lists_forget _ _ _ _
  · next hmentions =>
    refine ⟨fun h => ⟨h, ?_⟩, And.left⟩
    rw [← Bool.not_eq_true]
    intro hsame
    exact hmentions (Dependents.mentions_iff.mpr
      ⟨y, (Dependents.lists_congr (Path.same_refl y) hsame).mp h⟩)

theorem lists_move (b : Books) (file : Path) (previous next : PathSet) (y f : Path) :
    (b.move file previous next).dependents.Lists y f ↔
      (b.dependents.Lists y f ∧
          ¬(f.same file = true ∧ previous.contains y = true ∧ next.contains y = false)) ∨
        (f.same file = true ∧ next.contains y = true ∧ previous.contains y = false) := by
  rw [move]
  split
  · next hsame =>
    have hy : previous.contains y = next.contains y := OrderedMap.sameKeys_iff.mp hsame y
    cases h : next.contains y <;> simp [hy, h]
  · exact Dependents.lists_update _ _ _ _ _ _

theorem noneEmpty_forget {b : Books} (h : b.dependents.NoneEmpty) (file : Path) :
    (b.forget file).dependents.NoneEmpty := by
  rw [forget]
  split
  · exact Dependents.noneEmpty_forget _ _
  · exact h

theorem noneEmpty_move {b : Books} (h : b.dependents.NoneEmpty) (file : Path)
    (previous next : PathSet) : (b.move file previous next).dependents.NoneEmpty := by
  rw [move]
  split
  · exact h
  · exact Dependents.noneEmpty_update h _ _ _

@[simp] theorem record_assign (b : Books) (file : Path) : (b.assign file).record = b.record := by
  rw [assign]
  split <;> rfl

@[simp] theorem dependents_assign (b : Books) (file : Path) :
    (b.assign file).dependents = b.dependents := by
  rw [assign]
  split <;> rfl

@[simp] theorem ids_put (b : Books) (file : Path) (id : CacheId) (r : CacheRecord) :
    (b.put file id r).ids = b.ids := by
  rw [put]
  split <;> simp

theorem record_put (b : Books) (file : Path) (id : CacheId) (r : CacheRecord) (id' : CacheId) :
    (b.put file id r).record id' = if id' = id then some r else b.record id' := by
  rw [put]
  split <;> simp

theorem ids_evict (b : Books) (file : Path) : (b.evict file).ids = b.ids.erase file := by
  rw [evict]
  split
  · rfl
  · split <;> simp

theorem record_evict (b : Books) (file : Path) (id : CacheId) :
    (b.evict file).record id = if b.ids.get? file = some id then none else b.record id := by
  rw [evict]
  split
  · next h => simp [h]
  · next id' h =>
    have heq : (some id' = some id) ↔ id = id' := by rw [Option.some.injEq, eq_comm]
    split <;> simp [h, heq]

theorem noneEmpty_evict {b : Books} (h : b.dependents.NoneEmpty) (file : Path) :
    (b.evict file).dependents.NoneEmpty := by
  rw [evict]
  split
  · exact h
  · split
    · refine noneEmpty_move ?_ _ _ _
      exact h
    · refine noneEmpty_forget ?_ _
      exact h

/-- Files are named by paths of a set, and each id is that of its file's path. -/
def Named (S : Path → Prop) (ids : IdTable) : Prop :=
  ∀ e ∈ ids.entries, S e.1 ∧ e.2 = .forPath e.1

/-- The index is true to the records, except that loose files may be listed under fewer of their
dependencies. -/
structure Tied (S loose : Path → Prop) (b : Books) : Prop where
  noneEmpty : b.dependents.NoneEmpty
  tracked : ∀ y f, b.dependents.Lists y f → b.ids.contains f = true
  sound : ∀ f id r y, b.ids.get? f = some id → b.record id = some r → b.dependents.Lists y f →
    r.dependencySet.contains y = true
  complete : ∀ f id r y, b.ids.get? f = some id → b.record id = some r → ¬loose f →
    r.dependencySet.contains y = true → b.dependents.Lists y f
  owned : ∀ id, (b.record id).isSome = true → ∃ f, b.ids.get? f = some id
  named : Named S b.ids

/-- The index lists each file under exactly the dependencies of its record. -/
abbrev Consistent (S : Path → Prop) (b : Books) : Prop := Tied S (fun _ => False) b

/-- Different paths of a set have different ids. -/
def Distinct (S : Path → Prop) : Prop :=
  ∀ p q, S p → S q → CacheId.forPath p = CacheId.forPath q → p = q

variable {S loose loose' : Path → Prop} {b : Books}

theorem named_empty (S : Path → Prop) : Named S ∅ := by
  intro e he
  simp [EmptyCollection.emptyCollection, OrderedMap.empty] at he

theorem consistent_empty (S : Path → Prop) : Consistent S empty where
  noneEmpty := Dependents.noneEmpty_empty
  tracked y f h := (Dependents.not_lists_empty y f h).elim
  sound f id r y _ _ h := (Dependents.not_lists_empty y f h).elim
  complete f id r y _ h := by simp [empty] at h
  owned id h := by simp [empty] at h
  named := named_empty S

/-- Records that are lost leave the index true to the others. -/
theorem Tied.of_fewer_records {b' : Books} (h : Tied S loose b) (hids : b'.ids = b.ids)
    (hdependents : b'.dependents = b.dependents)
    (hrecord : ∀ id, b'.record id = b.record id ∨ b'.record id = none) : Tied S loose b' where
  noneEmpty := hdependents ▸ h.noneEmpty
  tracked := by rw [hids, hdependents]; exact h.tracked
  sound f id r y hid hr := by
    rw [hids] at hid
    rw [hdependents]
    rcases hrecord id with heq | hnone
    · exact h.sound f id r y hid (heq ▸ hr)
    · simp [hnone] at hr
  complete f id r y hid hr := by
    rw [hids] at hid
    rw [hdependents]
    rcases hrecord id with heq | hnone
    · exact h.complete f id r y hid (heq ▸ hr)
    · simp [hnone] at hr
  owned id hsome := by
    rw [hids]
    rcases hrecord id with heq | hnone
    · exact h.owned id (heq ▸ hsome)
    · simp [hnone] at hsome
  named := by rw [hids]; exact h.named

theorem exists_entry {ids : IdTable} {f : Path} {id : CacheId} (h : ids.get? f = some id) :
    ∃ k, (k, id) ∈ ids.entries ∧ f.same k = true := by
  obtain ⟨k, hk, hcmp⟩ := OrderedMap.get?_eq_some_iff.mp h
  exact ⟨k, hk, Path.same_iff_compare.mpr hcmp⟩

theorem get?_same (ids : IdTable) {f g : Path} (h : f.same g = true) : ids.get? f = ids.get? g :=
  OrderedMap.get?_congr ids (Path.same_iff_compare.mp h)

theorem Named.erase {ids : IdTable} (h : Named S ids) (file : Path) :
    Named S (OrderedMap.erase ids file) :=
  fun e he => h e (List.mem_filter.mp he).1

theorem Named.assign (h : Named S b.ids) {file : Path} (hfile : S file) :
    Named S (b.assign file).ids := by
  rw [Books.assign]
  split
  · exact h
  · next hnone =>
    intro e he
    rcases OrderedMap.mem_entries_insert hnone he with rfl | he
    · exact ⟨hfile, rfl⟩
    · exact h e he

/-- The table gives a file an id, or would. -/
def Assigned (S : Path → Prop) (ids : IdTable) (file : Path) (id : CacheId) : Prop :=
  (file, id) ∈ ids.entries ∨ S file ∧ id = .forPath file

/-- Different files have different ids in a table, and will if paths of a set are added to it. -/
def Separate (S : Path → Prop) (ids : IdTable) : Prop :=
  ∀ f g id, Assigned S ids f id → Assigned S ids g id → f.same g = true

theorem Separate.mono {ids ids' : IdTable} (h : Separate S ids)
    (hsub : ∀ file id, Assigned S ids' file id → Assigned S ids file id) : Separate S ids' :=
  fun f g id hf hg => h f g id (hsub f id hf) (hsub g id hg)

theorem Separate.empty {ids : IdTable} (h : Separate S ids) : Separate S ∅ := by
  refine h.mono fun file id hassigned => ?_
  rcases hassigned with hmem | hnew
  · simp [EmptyCollection.emptyCollection, OrderedMap.empty] at hmem
  · exact .inr hnew

theorem Separate.erase {ids : IdTable} (h : Separate S ids) (file : Path) :
    Separate S (OrderedMap.erase ids file) :=
  h.mono fun _ _ hassigned => hassigned.imp_left fun hmem => (List.mem_filter.mp hmem).1

theorem Separate.assign (h : Separate S b.ids) {file : Path} (hfile : S file) :
    Separate S (b.assign file).ids := by
  rw [Books.assign]
  split
  · exact h
  · next hnone =>
    refine h.mono fun f id hassigned => ?_
    rcases hassigned with hmem | hnew
    · rcases OrderedMap.mem_entries_insert hnone hmem with heq | hmem
      · obtain ⟨rfl, rfl⟩ := Prod.mk.inj heq
        exact .inr ⟨hfile, rfl⟩
      · exact .inl hmem
    · exact .inr hnew

theorem Separate.same_of_id {ids : IdTable} (h : Separate S ids) {f g : Path} {id : CacheId}
    (hf : ids.get? f = some id) (hg : ids.get? g = some id) : f.same g = true := by
  obtain ⟨k, hk, hfk⟩ := exists_entry hf
  obtain ⟨k', hk', hgk'⟩ := exists_entry hg
  exact Path.same_trans (Path.same_trans hfk (h k k' id (.inl hk) (.inl hk'))) (Path.same_symm hgk')

theorem Named.separate {ids : IdTable} (h : Named S ids) (hS : Distinct S) : Separate S ids := by
  have hassigned {f : Path} {id : CacheId} (hf : Assigned S ids f id) : S f ∧ id = .forPath f := by
    rcases hf with hmem | hnew
    · exact h _ hmem
    · exact hnew
  intro f g id hf hg
  obtain ⟨hfS, hfid⟩ := hassigned hf
  obtain ⟨hgS, hgid⟩ := hassigned hg
  obtain rfl := hS f g hfS hgS (hfid.symm.trans hgid)
  exact Path.same_refl f

theorem Named.same_of_id {ids : IdTable} (h : Named S ids) (hS : Distinct S) {f g : Path}
    {id : CacheId} (hf : ids.get? f = some id) (hg : ids.get? g = some id) : f.same g = true :=
  (h.separate hS).same_of_id hf hg

theorem Tied.lists_evict (h : Tied S loose b) (file y f : Path) :
    (b.evict file).dependents.Lists y f ↔ b.dependents.Lists y f ∧ f.same file = false := by
  rw [evict]
  split
  · next hid =>
    refine ⟨fun hl => ⟨hl, ?_⟩, And.left⟩
    rw [← Bool.not_eq_true]
    intro hsame
    have htracked := h.tracked y f hl
    rw [OrderedMap.contains, get?_same b.ids hsame, hid] at htracked
    contradiction
  · next id hid =>
    split
    · next r hr =>
      simp only [lists_move, dependents_withRecord]
      constructor
      · rintro (⟨hl, hkept⟩ | ⟨-, hempty, -⟩)
        · refine ⟨hl, ?_⟩
          rw [← Bool.not_eq_true]
          intro hsame
          -- what lists the file is among the dependencies of its record
          have hy := h.sound f id r y ((get?_same b.ids hsame).trans hid) hr hl
          exact hkept ⟨hsame, hy, rfl⟩
        · simp at hempty
      · rintro ⟨hl, hne⟩
        exact .inl ⟨hl, by simp [hne]⟩
    · simp only [lists_forget, dependents_withRecord]

theorem contains_erase_ids (ids : IdTable) (file f : Path) :
    OrderedMap.contains (OrderedMap.erase ids file) f = (!f.same file && ids.contains f) := by
  rw [OrderedMap.contains_erase]
  congr 1
  rw [bne, Bool.not_inj_iff, Bool.eq_iff_iff, beq_iff_eq]
  exact Path.same_iff_compare.symm

theorem get?_erase_ids (ids : IdTable) (file f : Path) :
    OrderedMap.get? (OrderedMap.erase ids file) f =
      if f.same file then none else ids.get? f := by
  rw [OrderedMap.get?_erase]
  by_cases h : f.same file = true
  · rw [if_pos h, if_pos (Path.same_iff_compare.mp h)]
  · rw [if_neg h, if_neg (mt Path.same_iff_compare.mpr h)]

theorem live_evict {file : Path} {id : CacheId}
    (hne : b.ids.get? file ≠ some id) (h : ∃ f, b.ids.get? f = some id) :
    ∃ f, (b.evict file).ids.get? f = some id := by
  obtain ⟨f, hf⟩ := h
  refine ⟨f, ?_⟩
  rw [ids_evict, get?_erase_ids]
  split
  · next hsame =>
    rw [get?_same b.ids hsame] at hf
    contradiction
  · exact hf

theorem get?_insert_ids (ids : IdTable) (file : Path) (id : CacheId) (f : Path) :
    OrderedMap.get? (OrderedMap.insert ids file id) f =
      if f.same file then some id else ids.get? f := by
  rw [OrderedMap.get?_insert]
  by_cases h : f.same file = true
  · rw [if_pos h, if_pos (Path.same_iff_compare.mp h)]
  · rw [if_neg h, if_neg (mt Path.same_iff_compare.mpr h)]

theorem get?_assign {f file : Path} {id : CacheId} (h : b.ids.get? f = some id) :
    (b.assign file).ids.get? f = some id := by
  rw [assign]
  split
  · exact h
  · next hnone =>
    rw [get?_insert_ids, if_neg, h]
    intro hsame
    rw [get?_same b.ids hsame, hnone] at h
    contradiction

theorem get?_assign_of_ne {f file : Path} {id : CacheId}
    (hid : (b.assign file).ids.get? file = some id) (hf : (b.assign file).ids.get? f ≠ some id) :
    (b.assign file).ids.get? f = b.ids.get? f := by
  rw [← hid] at hf
  rw [assign] at hf ⊢
  split
  · rfl
  · next hnone =>
    rw [hnone] at hf
    have hne : ¬f.same file = true := fun hsame => hf (get?_same _ hsame)
    rw [get?_insert_ids, if_neg hne]

theorem entry_of_evict {file f : Path} {id : CacheId} {r : CacheRecord}
    (hid : (b.evict file).ids.get? f = some id) (hr : (b.evict file).record id = some r) :
    f.same file = false ∧ b.ids.get? f = some id ∧ b.record id = some r := by
  rw [ids_evict, get?_erase_ids] at hid
  rw [record_evict] at hr
  split at hid
  · contradiction
  · next hne =>
    split at hr
    · contradiction
    · exact ⟨by simpa using hne, hid, hr⟩

/-- An eviction keeps the index true to the records, and the file need not be loose any more. -/
theorem Tied.evict (h : Tied S loose b) (file : Path)
    (hloose : ∀ f, loose f → f.same file = true ∨ loose' f) : Tied S loose' (b.evict file) where
  noneEmpty := noneEmpty_evict h.noneEmpty file
  tracked y f hl := by
    rw [h.lists_evict] at hl
    rw [ids_evict, contains_erase_ids, h.tracked y f hl.1, hl.2]
    rfl
  sound f id r y hid hr hl := by
    obtain ⟨-, hid, hr⟩ := entry_of_evict hid hr
    exact h.sound f id r y hid hr ((h.lists_evict file y f).mp hl).1
  complete f id r y hid hr hf hy := by
    obtain ⟨hne, hid, hr⟩ := entry_of_evict hid hr
    refine (h.lists_evict file y f).mpr ⟨h.complete f id r y hid hr (fun hl => ?_) hy, hne⟩
    rcases hloose f hl with hsame | hl
    · rw [hne] at hsame
      contradiction
    · exact hf hl
  owned id hsome := by
    rw [record_evict] at hsome
    split at hsome
    · contradiction
    · next hid =>
      obtain ⟨f, hf⟩ := h.owned id hsome
      refine ⟨f, ?_⟩
      rw [ids_evict, get?_erase_ids, if_neg, hf]
      intro hsame
      exact hid ((get?_same b.ids hsame).symm.trans hf)
  named := by
    rw [ids_evict]
    exact h.named.erase file

theorem Tied.evictAll (files : List Path) {b : Books}
    (h : Tied S (fun f => ∃ g ∈ files, f.same g = true) b) : Consistent S (b.evictAll files) := by
  induction files generalizing b with
  | nil => exact ⟨h.noneEmpty, h.tracked, h.sound, fun f id r y hid hr _ =>
      h.complete f id r y hid hr (by simp), h.owned, h.named⟩
  | cons file rest ih =>
    refine ih (h.evict file ?_)
    rintro f ⟨g, hg, hsame⟩
    rcases List.mem_cons.mp hg with rfl | hg
    · exact .inl hsame
    · exact .inr ⟨g, hg, hsame⟩

/-- Without a dependency's entry the files that it listed are loose. -/
theorem Tied.dropDependency (h : Consistent S b) (dependency : Path) :
    Tied S (fun f => ∃ g ∈ (b.dependents.filesOf dependency).toList, f.same g = true)
      (b.dropDependency dependency) where
  noneEmpty := Dependents.noneEmpty_erase h.noneEmpty dependency
  tracked y f hl := h.tracked y f ((Dependents.lists_erase _ _ _ _).mp hl).1
  sound f id r y hid hr hl := h.sound f id r y hid hr ((Dependents.lists_erase _ _ _ _).mp hl).1
  complete f id r y hid hr hf hy := by
    have hl := h.complete f id r y hid hr (fun hf => hf) hy
    refine (Dependents.lists_erase _ _ _ _).mpr ⟨hl, ?_⟩
    rw [← Bool.not_eq_true]
    intro hsame
    rw [Dependents.lists_congr hsame (Path.same_refl f)] at hl
    exact hf (PathSet.contains_iff_mem.mp hl)
  owned := h.owned
  named := h.named

theorem Consistent.evict (h : Consistent S b) (file : Path) : Consistent S (b.evict file) :=
  Tied.evict h file fun _ => False.elim

theorem Consistent.evictDependents (h : Consistent S b) (dependency : Path) :
    Consistent S (b.evictDependents dependency) :=
  Tied.evictAll _ (Tied.dropDependency h dependency)

/-- A file that has a record under its id after an assignment had that id before: a record under
the new id would belong to another path of the same id. -/
theorem Consistent.get?_of_assign (h : Consistent S b) (hS : Distinct S) {file f : Path}
    {id : CacheId} {r : CacheRecord} (hfile : S file) (hid : (b.assign file).ids.get? f = some id)
    (hr : b.record id = some r) : b.ids.get? f = some id := by
  rw [Books.assign] at hid
  split at hid
  · exact hid
  · next hnone =>
    rw [get?_insert_ids] at hid
    split at hid
    · cases hid
      obtain ⟨g, hg⟩ := h.owned _ (by rw [hr]; rfl)
      obtain ⟨k, hk, hgk⟩ := exists_entry hg
      obtain ⟨hkS, hkid⟩ := h.named _ hk
      obtain rfl := hS file k hfile hkS hkid
      rw [get?_same b.ids hgk, hnone] at hg
      contradiction
    · exact hid

theorem Consistent.assign (h : Consistent S b) (hS : Distinct S) {file : Path} (hfile : S file) :
    Consistent S (b.assign file) where
  noneEmpty := by
    rw [dependents_assign]
    exact h.noneEmpty
  tracked y f hl := by
    rw [dependents_assign] at hl
    obtain ⟨id, hid⟩ := Option.isSome_iff_exists.mp (h.tracked y f hl)
    rw [OrderedMap.contains, get?_assign hid]
    rfl
  sound f id r y hid hr hl := by
    rw [record_assign] at hr
    rw [dependents_assign] at hl
    exact h.sound f id r y (h.get?_of_assign hS hfile hid hr) hr hl
  complete f id r y hid hr hloose hy := by
    rw [record_assign] at hr
    rw [dependents_assign]
    exact h.complete f id r y (h.get?_of_assign hS hfile hid hr) hr hloose hy
  owned id hsome := by
    rw [record_assign] at hsome
    obtain ⟨f, hf⟩ := h.owned id hsome
    exact ⟨f, get?_assign hf⟩
  named := h.named.assign hfile

theorem lists_put {file y f : Path} {id : CacheId} {r : CacheRecord} (h : Consistent S b)
    (hid : b.ids.get? file = some id) :
    (b.put file id r).dependents.Lists y f ↔
      if f.same file then r.dependencySet.contains y = true else b.dependents.Lists y f := by
  rw [put]
  split
  · next previous hprevious =>
    rw [dependents_withRecord, lists_move]
    by_cases hsame : f.same file = true
    · have hl : b.dependents.Lists y f ↔ previous.dependencySet.contains y = true := by
        have hf := (get?_same b.ids hsame).trans hid
        exact ⟨h.sound f id previous y hf hprevious,
          h.complete f id previous y hf hprevious (fun hf => hf)⟩
      rw [hl, if_pos hsame]
      cases previous.dependencySet.contains y <;> cases r.dependencySet.contains y <;> simp [hsame]
    · simp [hsame]
  · rw [dependents_withRecord, lists_move, lists_forget]
    by_cases hsame : f.same file = true
    · simp [hsame]
    · simp [hsame]

/-- The record of the file is the one that was put, and no other file has its id. -/
theorem Consistent.record_of_put (h : Consistent S b) (hS : Distinct S) {file f : Path}
    {id id' : CacheId} {r r' : CacheRecord} (hid : b.ids.get? file = some id)
    (hid' : b.ids.get? f = some id') (hr : (b.put file id r).record id' = some r') :
    if f.same file then r' = r else b.record id' = some r' := by
  rw [record_put] at hr
  split
  · next hsame =>
    rw [get?_same b.ids hsame, hid, Option.some.injEq] at hid'
    simpa [hid'] using hr.symm
  · next hne =>
    rwa [if_neg] at hr
    rintro rfl
    exact hne (h.named.same_of_id hS hid' hid)

theorem Consistent.put (h : Consistent S b) (hS : Distinct S) {file : Path} {id : CacheId}
    (hid : b.ids.get? file = some id) (r : CacheRecord) : Consistent S (b.put file id r) where
  noneEmpty := by
    rw [Books.put]
    split
    · exact noneEmpty_move h.noneEmpty _ _ _
    · exact noneEmpty_move (noneEmpty_forget h.noneEmpty file) _ _ _
  tracked y f hl := by
    rw [lists_put h hid] at hl
    rw [ids_put]
    split at hl
    · next hsame => rw [OrderedMap.contains, get?_same b.ids hsame, hid, Option.isSome_some]
    · exact h.tracked y f hl
  sound f id' r' y hid' hr hl := by
    rw [ids_put] at hid'
    have hrecord := h.record_of_put hS hid hid' hr
    rw [lists_put h hid] at hl
    split at hl <;> split at hrecord
    all_goals first
      | contradiction
      | exact hrecord ▸ hl
      | exact h.sound f id' r' y hid' hrecord hl
  complete f id' r' y hid' hr _ hy := by
    rw [ids_put] at hid'
    have hrecord := h.record_of_put hS hid hid' hr
    rw [lists_put h hid]
    split <;> split at hrecord
    all_goals first
      | contradiction
      | exact hrecord ▸ hy
      | exact h.complete f id' r' y hid' hrecord (fun hf => hf) hy
  owned id' hsome := by
    rw [ids_put]
    rw [record_put] at hsome
    split at hsome
    · next heq => exact ⟨file, heq ▸ hid⟩
    · exact h.owned id' hsome
  named := by
    rw [ids_put]
    exact h.named

end Books

end BuildCache
