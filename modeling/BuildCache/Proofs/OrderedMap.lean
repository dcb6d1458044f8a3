import BuildCache.Path.Map
import Mathlib.Data.List.Sort

/-!
# Laws of maps in key order

A map is known by what it answers: lookups after each change, and the keys, which compare as the
order does and not by spelling.
-/

namespace BuildCache

namespace OrderedMap

variable {κ α β : Type} [Ord κ]

theorem ext_entries {m n : OrderedMap κ α} (h : m.entries = n.entries) : m = n := by
  cases m
  cases n
  simpa using h

theorem mem_keys_of_mem_entries {m : OrderedMap κ α} {e : κ × α} (h : e ∈ m.entries) :
    e.1 ∈ m.keys :=
  List.mem_map_of_mem h

theorem mem_keys_of_mem_keys_filter {m : OrderedMap κ α} {p : κ → α → Bool} {k : κ}
    (h : k ∈ (m.filter p).keys) : k ∈ m.keys := by
  obtain ⟨e, he, rfl⟩ := List.mem_map.mp h
  exact mem_keys_of_mem_entries (List.mem_filter.mp he).1

@[simp] theorem contains_empty (k : κ) : (empty : OrderedMap κ α).contains k = false := rfl

theorem get?_map (m : OrderedMap κ α) (f : α → β) (k : κ) :
    (m.map fun _ v => f v).get? k = (m.get? k).map f := by
  simp [get?, map, List.find?_map, Function.comp_def]

theorem keys_map (m : OrderedMap κ α) (f : κ → α → β) : (m.map f).keys = m.keys := by
  simp [keys, map, Function.comp_def]

theorem size_erase_le (m : OrderedMap κ α) (k : κ) : (m.erase k).size ≤ m.size :=
  List.length_filter_le _ _

private theorem mem_insertEntry {k : κ} {v : α} {es : List (κ × α)} {e : κ × α}
    (hnew : ∀ e ∈ es, compare k e.1 ≠ .eq) (h : e ∈ insertEntry k v es) : e = (k, v) ∨ e ∈ es := by
  induction es with
  | nil => exact .inl (by simpa [insertEntry] using h)
  | cons head rest ih =>
    rw [insertEntry] at h
    split at h
    · exact List.mem_cons.mp h
    · next heq => exact absurd heq (hnew _ List.mem_cons_self)
    · rcases List.mem_cons.mp h with rfl | h
      · exact .inr List.mem_cons_self
      · rcases ih (fun e he => hnew e (List.mem_cons_of_mem _ he)) h with he | he
        · exact .inl he
        · exact .inr (List.mem_cons_of_mem _ he)

variable [Std.TransOrd κ]

theorem get?_congr (m : OrderedMap κ α) {k k' : κ} (h : compare k k' = .eq) :
    m.get? k = m.get? k' := by
  simp only [get?]
  congr 2
  funext e
  rw [Std.TransCmp.congr_left h]

theorem contains_congr (m : OrderedMap κ α) {k k' : κ} (h : compare k k' = .eq) :
    m.contains k = m.contains k' := by
  rw [contains, contains, get?_congr m h]

theorem get?_of_mem_entries {m : OrderedMap κ α} {k : κ} {v : α} (h : (k, v) ∈ m.entries) :
    m.get? k = some v := by
  obtain ⟨es, hs⟩ := m
  simp only [get?] at h ⊢
  induction es with
  | nil => simp at h
  | cons head rest ih =>
    obtain ⟨hhead, hrest⟩ := List.pairwise_cons.mp hs
    rcases List.mem_cons.mp h with rfl | h
    · simp [Std.ReflCmp.compare_self]
    · have hgt : compare k head.1 = .gt := Std.OrientedCmp.gt_iff_lt.mpr (hhead _ h)
      rw [List.find?_cons]
      simpa [hgt] using ih hrest h

theorem get?_eq_some_iff {m : OrderedMap κ α} {k : κ} {v : α} :
    m.get? k = some v ↔ ∃ k', (k', v) ∈ m.entries ∧ compare k k' = .eq := by
  constructor
  · intro h
    obtain ⟨e, he, rfl⟩ := Option.map_eq_some_iff.mp h
    exact ⟨e.1, List.mem_of_find?_eq_some he, by simpa using List.find?_some he⟩
  · rintro ⟨k', hmem, hk⟩
    rw [get?_congr m hk]
    exact get?_of_mem_entries hmem

theorem contains_iff {m : OrderedMap κ α} {k : κ} :
    m.contains k = true ↔ ∃ k' ∈ m.keys, compare k k' = .eq := by
  rw [contains, Option.isSome_iff_exists]
  constructor
  · rintro ⟨v, hv⟩
    obtain ⟨k', hmem, hk⟩ := get?_eq_some_iff.mp hv
    exact ⟨k', mem_keys_of_mem_entries hmem, hk⟩
  · rintro ⟨k', hmem, hk⟩
    obtain ⟨e, he, rfl⟩ := List.mem_map.mp hmem
    exact ⟨e.2, get?_eq_some_iff.mpr ⟨e.1, he, hk⟩⟩

theorem contains_of_mem_keys {m : OrderedMap κ α} {k : κ} (h : k ∈ m.keys) :
    m.contains k = true :=
  contains_iff.mpr ⟨k, h, Std.ReflCmp.compare_self⟩

theorem contains_insert (m : OrderedMap κ α) (k k' : κ) (v : α) :
    (m.insert k v).contains k' = (compare k' k == .eq || m.contains k') := by
  rw [contains, get?_insert, contains]
  by_cases h : compare k' k = .eq <;> simp [h]

theorem contains_erase (m : OrderedMap κ α) (k k' : κ) :
    (m.erase k).contains k' = (compare k' k != .eq && m.contains k') := by
  rw [contains, get?_erase, contains]
  by_cases h : compare k' k = .eq <;> simp [h]

theorem get?_filter_of_congr (m : OrderedMap κ α) {p : κ → α → Bool}
    (hp : ∀ k k' v, compare k k' = .eq → p k v = p k' v) (k : κ) :
    (m.filter p).get? k = (m.get? k).filter (p k) := by
  obtain ⟨es, hs⟩ := m
  simp only [filter, get?]
  induction es with
  | nil => rfl
  | cons head rest ih =>
    obtain ⟨k', v⟩ := head
    obtain ⟨hhead, hrest⟩ := List.pairwise_cons.mp hs
    have hrest := ih hrest
    rw [List.find?_filter] at hrest
    by_cases hk : compare k k' = .eq
    · have hnone : (rest.filter fun e => p e.1 e.2).find? (fun e => compare k e.1 == .eq) = none := by
        rw [List.find?_eq_none]
        intro e he
        have hlt : compare k e.1 = .lt := by
          rw [Std.TransCmp.congr_left hk]
          exact hhead e (List.mem_filter.mp he).1
        simp [hlt]
      rw [List.filter_cons]
      cases hpk : p k' v <;> simp [hk, hnone, hp k k' v hk, hpk, Option.filter]
    · have hne : (compare k k' == .eq) = false := by simpa using hk
      rw [List.filter_cons]
      cases hpk : p k' v <;> simp [hne] <;> simpa using hrest

theorem isEmpty_iff {m : OrderedMap κ α} : m.isEmpty = true ↔ ∀ k, m.contains k = false := by
  rw [isEmpty, List.isEmpty_iff]
  constructor
  · intro h k
    simp [contains, get?, h]
  · intro h
    rw [List.eq_nil_iff_forall_not_mem]
    intro e he
    have hk := contains_of_mem_keys (mem_keys_of_mem_entries he)
    simp [h] at hk

theorem isEmpty_eq_false_iff {m : OrderedMap κ α} :
    m.isEmpty = false ↔ ∃ k, m.contains k = true := by
  rw [← Bool.not_eq_true, isEmpty_iff]
  simp

theorem sameKeys_iff {m : OrderedMap κ α} {n : OrderedMap κ β} :
    m.sameKeys n = true ↔ ∀ k, m.contains k = n.contains k := by
  simp only [sameKeys, Bool.and_eq_true, List.all_eq_true]
  constructor
  · rintro ⟨hmn, hnm⟩ k
    rw [Bool.eq_iff_iff]
    constructor
    · intro hk
      obtain ⟨k', hmem, hk'⟩ := contains_iff.mp hk
      rw [contains_congr n hk']
      exact hmn k' hmem
    · intro hk
      obtain ⟨k', hmem, hk'⟩ := contains_iff.mp hk
      rw [contains_congr m hk']
      exact hnm k' hmem
  · intro h
    exact ⟨fun k hk => h k ▸ contains_of_mem_keys hk, fun k hk => h k ▸ contains_of_mem_keys hk⟩

theorem any_values_iff {m : OrderedMap κ α} {p : α → Bool} :
    m.values.any p = true ↔ ∃ k v, m.get? k = some v ∧ p v = true := by
  rw [List.any_eq_true]
  constructor
  · rintro ⟨v, hv, hp⟩
    obtain ⟨e, he, rfl⟩ := List.mem_map.mp hv
    exact ⟨e.1, e.2, get?_of_mem_entries he, hp⟩
  · rintro ⟨k, v, hk, hp⟩
    obtain ⟨k', hmem, -⟩ := get?_eq_some_iff.mp hk
    exact ⟨v, List.mem_map_of_mem hmem, hp⟩

theorem size_erase_lt {m : OrderedMap κ α} {k : κ} (h : m.contains k = true) :
    (m.erase k).size < m.size := by
  obtain ⟨k', hmem, hk⟩ := contains_iff.mp h
  obtain ⟨e, he, rfl⟩ := List.mem_map.mp hmem
  have hdropped : ¬(compare k e.1 != .eq) = true := by simpa using hk
  exact List.length_filter_lt_length_iff_exists.mpr ⟨e, he, hdropped⟩

theorem mem_entries_insert {m : OrderedMap κ α} {k : κ} {v : α} {e : κ × α}
    (hnone : m.get? k = none) (h : e ∈ (m.insert k v).entries) : e = (k, v) ∨ e ∈ m.entries := by
  refine mem_insertEntry (fun e he heq => ?_) h
  rw [get?_eq_some_iff.mpr ⟨e.1, he, heq⟩] at hnone
  contradiction

theorem eq_of_mem_keys {m : OrderedMap κ α} {k k' : κ} (hk : k ∈ m.keys) (hk' : k' ∈ m.keys)
    (h : compare k k' = .eq) : k = k' := by
  obtain ⟨es, hs⟩ := m
  simp only [keys] at hk hk'
  induction es with
  | nil => simp at hk
  | cons e es ih =>
    obtain ⟨hhead, hrest⟩ := List.pairwise_cons.mp hs
    have hlt {k : κ} (hk : k ∈ es.map (·.1)) : compare e.1 k = .lt := by
      obtain ⟨e', he', rfl⟩ := List.mem_map.mp hk
      exact hhead e' he'
    rcases List.mem_cons.mp hk with rfl | hk <;> rcases List.mem_cons.mp hk' with rfl | hk'
    · rfl
    · simp [hlt hk'] at h
    · simp [Std.OrientedCmp.gt_iff_lt.mpr (hlt hk)] at h
    · exact ih hrest hk hk'

theorem mem_keys_insert {m : OrderedMap κ α} {k k' : κ} {v : α} (h : m.contains k = false) :
    k' ∈ (m.insert k v).keys ↔ k' = k ∨ k' ∈ m.keys := by
  have hkeys {k' : κ} (hk' : k' ∈ (m.insert k v).keys) : k' = k ∨ k' ∈ m.keys := by
    obtain ⟨e, he, rfl⟩ := List.mem_map.mp hk'
    have hnone : m.get? k = none := by simpa [contains] using h
    rcases mem_entries_insert hnone he with rfl | he
    · exact .inl rfl
    · exact .inr (mem_keys_of_mem_entries he)
  have hold {k' : κ} (hk' : k' ∈ m.keys) : compare k' k ≠ .eq := by
    intro hcmp
    rw [← contains_congr m hcmp, contains_of_mem_keys hk'] at h
    contradiction
  refine ⟨hkeys, fun hk' => ?_⟩
  have hcontains : (m.insert k v).contains k' = true := by
    rw [contains_insert]
    rcases hk' with rfl | hk'
    · simp [Std.ReflCmp.compare_self]
    · simp [contains_of_mem_keys hk']
  -- the key that is there compares equal, and so is the same one
  obtain ⟨k'', hk'', hcmp⟩ := contains_iff.mp hcontains
  rcases hk', hkeys hk'' with ⟨rfl | hk', rfl | hold''⟩
  · exact hk''
  · exact absurd (Std.OrientedCmp.eq_symm hcmp) (hold hold'')
  · exact absurd hcmp (hold hk')
  · rwa [eq_of_mem_keys hk' hold'' hcmp]

theorem keys_insert_of_contains {m : OrderedMap κ α} {k : κ} (v : α) (h : m.contains k = true) :
    (m.insert k v).keys = m.keys := by
  obtain ⟨k', hk', hcmp⟩ := contains_iff.mp h
  clear h
  obtain ⟨es, hs⟩ := m
  simp only [keys, insert] at hk' ⊢
  induction es with
  | nil => simp at hk'
  | cons e es ih =>
    obtain ⟨hhead, hrest⟩ := List.pairwise_cons.mp hs
    rw [insertEntry]
    split
    · next hlt =>
      exfalso
      rcases List.mem_cons.mp hk' with rfl | hk'
      · simp [hlt] at hcmp
      · obtain ⟨e', he', rfl⟩ := List.mem_map.mp hk'
        have hlt' := Std.TransCmp.lt_trans hlt (hhead e' he')
        simp [hlt'] at hcmp
    · rfl
    · next hgt =>
      rcases List.mem_cons.mp hk' with rfl | hk'
      · simp [hgt] at hcmp
      · rw [List.map_cons, List.map_cons, ih hrest hk']

theorem eq_or_mem_keys_of_insert {m : OrderedMap κ α} {k k' : κ} {v : α}
    (h : k' ∈ (m.insert k v).keys) : k' = k ∨ k' ∈ m.keys := by
  cases hcontains : m.contains k with
  | true => exact .inr (keys_insert_of_contains v hcontains ▸ h)
  | false => exact (mem_keys_insert hcontains).mp h

theorem eq_or_mem_values_of_insert {m : OrderedMap κ α} {k : κ} {v v' : α}
    (h : v' ∈ (m.insert k v).values) : v' = v ∨ v' ∈ m.values := by
  obtain ⟨es, hs⟩ := m
  simp only [values, insert] at h ⊢
  clear hs
  induction es with
  | nil => exact .inl (by simpa [insertEntry] using h)
  | cons e es ih =>
    rw [insertEntry] at h
    split at h
    · exact List.mem_cons.mp h
    · rcases List.mem_cons.mp h with rfl | h
      · exact .inl rfl
      · exact .inr (List.mem_cons_of_mem _ h)
    · rcases List.mem_cons.mp h with rfl | h
      · exact .inr List.mem_cons_self
      · exact (ih h).imp_right (List.mem_cons_of_mem _)

/-- Maps that answer alike are equal where the keys of both are spelled as those of a third. -/
theorem ext_of_keys (names : OrderedMap κ α) {m n : OrderedMap κ α}
    (hm : ∀ k ∈ m.keys, k ∈ names.keys) (hn : ∀ k ∈ n.keys, k ∈ names.keys)
    (h : ∀ k, m.get? k = n.get? k) : m = n := by
  have hmem {m n : OrderedMap κ α} (hm : ∀ k ∈ m.keys, k ∈ names.keys)
      (hn : ∀ k ∈ n.keys, k ∈ names.keys) (h : ∀ k, m.get? k = n.get? k) {e : κ × α}
      (he : e ∈ m.entries) : e ∈ n.entries := by
    obtain ⟨k, hk, hcmp⟩ := get?_eq_some_iff.mp ((h e.1).symm.trans (get?_of_mem_entries he))
    have hspelled : e.1 = k := eq_of_mem_keys (hm _ (mem_keys_of_mem_entries he))
      (hn _ (mem_keys_of_mem_entries hk)) hcmp
    rwa [← hspelled] at hk
  have hirrefl : Std.Irrefl fun a b : κ × α => compare a.1 b.1 = .lt :=
    ⟨fun a ha => by simp [Std.ReflCmp.compare_self] at ha⟩
  have hantisymm : Std.Antisymm fun a b : κ × α => compare a.1 b.1 = .lt :=
    ⟨fun a b hab hba => by simp [Std.OrientedCmp.gt_iff_lt.mpr hab] at hba⟩
  exact ext_entries (m.sorted.eq_of_mem_iff n.sorted fun e =>
    ⟨hmem hm hn h, hmem hn hm fun k => (h k).symm⟩)

theorem erase_of_not_contains {m : OrderedMap κ α} {k : κ} (h : m.contains k = false) :
    m.erase k = m := by
  refine ext_entries (List.filter_eq_self.mpr fun e he => ?_)
  rw [bne_iff_ne]
  intro hcmp
  rw [contains_congr m hcmp, contains_of_mem_keys (mem_keys_of_mem_entries he)] at h
  contradiction

theorem erase_erase (m : OrderedMap κ α) (k : κ) : (m.erase k).erase k = m.erase k :=
  erase_of_not_contains (by simp [contains_erase, Std.ReflCmp.compare_self])

theorem ofList_induction {P : OrderedMap κ α → Prop} {es : List (κ × α)} (hempty : P empty)
    (hinsert : ∀ m, P m → ∀ e ∈ es, P (m.insert e.1 e.2)) : P (ofList es) := by
  rw [ofList]
  generalize (empty : OrderedMap κ α) = m at hempty ⊢
  induction es generalizing m with
  | nil => exact hempty
  | cons e es ih =>
    exact ih (fun m hm e he => hinsert m hm e (List.mem_cons_of_mem _ he)) _
      (hinsert m hempty e List.mem_cons_self)

theorem insertEntry_of_lt {k : κ} {v : α} {es : List (κ × α)}
    (h : ∀ e ∈ es, compare e.1 k = .lt) : insertEntry k v es = es ++ [(k, v)] := by
  induction es with
  | nil => rfl
  | cons head rest ih =>
    have hgt : compare k head.1 = .gt := Std.OrientedCmp.gt_iff_lt.mpr (h head (by simp))
    rw [insertEntry, hgt, ih fun e he => h e (by simp [he])]
    rfl

private theorem foldl_insert_entries (es : List (κ × α)) (m : OrderedMap κ α)
    (h : (m.entries ++ es).Pairwise fun a b => compare a.1 b.1 = .lt) :
    (es.foldl (fun m e => m.insert e.1 e.2) m).entries = m.entries ++ es := by
  induction es generalizing m with
  | nil => simp
  | cons e es ih =>
    have hlt : ∀ a ∈ m.entries, compare a.1 e.1 = .lt := fun a ha =>
      (List.pairwise_append.mp h).2.2 a ha e (by simp)
    have hentries : (m.insert e.1 e.2).entries = m.entries ++ [e] := insertEntry_of_lt hlt
    rw [List.foldl_cons, ih _ (by simpa [hentries] using h), hentries]
    simp

theorem ofList_entries (m : OrderedMap κ α) : ofList m.entries = m :=
  ext_entries (foldl_insert_entries m.entries empty m.sorted)

end OrderedMap

namespace PathSet

theorem ofList_eq (ps : List Path) : ofList ps = OrderedMap.ofList (ps.map (·, ())) := by
  rw [OrderedMap.ofList, List.foldl_map]
  rfl

theorem ofList_toList (s : PathSet) : ofList s.toList = s := by
  have hentries : s.toList.map (·, ()) = s.entries := by
    rw [toList, OrderedMap.keys, List.map_map]
    exact List.map_id s.entries
  rw [ofList_eq, hentries, OrderedMap.ofList_entries]

theorem mem_of_mem_ofList {ps : List Path} {p : Path} (h : p ∈ (ofList ps).toList) : p ∈ ps := by
  rw [ofList_eq] at h
  revert h
  refine OrderedMap.ofList_induction (P := fun s => p ∈ s.keys → p ∈ ps)
    (fun h => (by cases h)) fun s hs e he h => ?_
  obtain ⟨q, hq, rfl⟩ := List.mem_map.mp he
  rcases OrderedMap.eq_or_mem_keys_of_insert h with rfl | h
  · exact hq
  · exact hs h

end PathSet

end BuildCache
