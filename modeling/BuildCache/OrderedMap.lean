/-!
# Maps in key order

An ordered map holds its entries smallest key first. Keys that compare equal are one key: the
spelling inserted first stays, the value inserted last counts.
-/

namespace BuildCache

/-- Entries in strictly increasing key order. -/
structure OrderedMap (κ α : Type) [Ord κ] where
  entries : List (κ × α)
  sorted : entries.Pairwise fun a b => compare a.1 b.1 = .lt
deriving DecidableEq

namespace OrderedMap

variable {κ α β : Type} [Ord κ]

def empty : OrderedMap κ α := ⟨[], .nil⟩

instance : EmptyCollection (OrderedMap κ α) := ⟨empty⟩
instance : Inhabited (OrderedMap κ α) := ⟨empty⟩

def keys (m : OrderedMap κ α) : List κ := m.entries.map (·.1)

def values (m : OrderedMap κ α) : List α := m.entries.map (·.2)

def size (m : OrderedMap κ α) : Nat := m.entries.length

def isEmpty (m : OrderedMap κ α) : Bool := m.entries.isEmpty

def get? (m : OrderedMap κ α) (k : κ) : Option α :=
  (m.entries.find? fun e => compare k e.1 == .eq).map (·.2)

def contains (m : OrderedMap κ α) (k : κ) : Bool := (m.get? k).isSome

/-- Entries that satisfy a test. -/
def filter (p : κ → α → Bool) (m : OrderedMap κ α) : OrderedMap κ α :=
  ⟨m.entries.filter fun e => p e.1 e.2, m.sorted.filter _⟩

def erase (m : OrderedMap κ α) (k : κ) : OrderedMap κ α :=
  m.filter fun k' _ => compare k k' != .eq

def map (f : κ → α → β) (m : OrderedMap κ α) : OrderedMap κ β :=
  ⟨m.entries.map fun e => (e.1, f e.1 e.2), by simpa [List.pairwise_map] using m.sorted⟩

/-- Puts an entry at its place in a sorted list, keeping the spelling of a key already there. -/
def insertEntry (k : κ) (v : α) : List (κ × α) → List (κ × α)
  | [] => [(k, v)]
  | (k', v') :: rest =>
    match compare k k' with
    | .lt => (k, v) :: (k', v') :: rest
    | .eq => (k', v) :: rest
    | .gt => (k', v') :: insertEntry k v rest

theorem key_of_mem_insertEntry {k : κ} {v : α} {es : List (κ × α)} {e : κ × α}
    (h : e ∈ insertEntry k v es) : e.1 = k ∨ ∃ e' ∈ es, e'.1 = e.1 := by
  induction es with
  | nil => exact .inl (by simp_all [insertEntry])
  | cons head rest ih =>
    obtain ⟨k', v'⟩ := head
    rw [insertEntry] at h
    split at h
    · rcases List.mem_cons.mp h with rfl | h
      · exact .inl rfl
      · exact .inr ⟨e, h, rfl⟩
    · rcases List.mem_cons.mp h with rfl | h
      · exact .inr ⟨(k', v'), by simp, rfl⟩
      · exact .inr ⟨e, by simp [h], rfl⟩
    · rcases List.mem_cons.mp h with rfl | h
      · exact .inr ⟨(k', v'), by simp, rfl⟩
      · rcases ih h with h | ⟨e', he', h⟩
        · exact .inl h
        · exact .inr ⟨e', by simp [he'], h⟩

theorem sorted_insertEntry [Std.TransOrd κ] (k : κ) (v : α) {es : List (κ × α)}
    (h : es.Pairwise fun a b => compare a.1 b.1 = .lt) :
    (insertEntry k v es).Pairwise fun a b => compare a.1 b.1 = .lt := by
  induction es with
  | nil => simp [insertEntry]
  | cons head rest ih =>
    obtain ⟨k', v'⟩ := head
    obtain ⟨hhead, hrest⟩ := List.pairwise_cons.mp h
    rw [insertEntry]
    split
    · next hlt =>
      refine List.pairwise_cons.mpr ⟨fun e he => ?_, h⟩
      rcases List.mem_cons.mp he with rfl | he
      · exact hlt
      · exact Std.TransCmp.lt_trans hlt (hhead e he)
    · exact List.pairwise_cons.mpr ⟨hhead, hrest⟩
    · next hgt =>
      refine List.pairwise_cons.mpr ⟨fun e he => ?_, ih hrest⟩
      rcases key_of_mem_insertEntry he with hk | ⟨e', he', hk⟩
      · simpa only [hk] using Std.OrientedCmp.gt_iff_lt.mp hgt
      · simpa only [hk] using hhead e' he'

def insert [Std.TransOrd κ] (m : OrderedMap κ α) (k : κ) (v : α) : OrderedMap κ α :=
  ⟨insertEntry k v m.entries, sorted_insertEntry k v m.sorted⟩

def ofList [Std.TransOrd κ] (es : List (κ × α)) : OrderedMap κ α :=
  es.foldl (fun m e => m.insert e.1 e.2) empty

/-- Both maps have the same keys, up to spelling. -/
def sameKeys (m : OrderedMap κ α) (n : OrderedMap κ β) : Bool :=
  m.keys.all n.contains && n.keys.all m.contains

theorem get?_empty (k : κ) : (empty : OrderedMap κ α).get? k = none := rfl

theorem get?_insert [Std.TransOrd κ] (m : OrderedMap κ α) (k k' : κ) (v : α) :
    (m.insert k v).get? k' = if compare k' k = .eq then some v else m.get? k' := by
  obtain ⟨es, hs⟩ := m
  simp only [insert, get?]
  induction es with
  | nil => by_cases h : compare k' k = .eq <;> simp [insertEntry, h]
  | cons head rest ih =>
    obtain ⟨k₀, v₀⟩ := head
    rw [insertEntry]
    split
    · by_cases h : compare k' k = .eq <;> simp [h]
    · next heq =>
      have hc : compare k' k = compare k' k₀ := Std.TransCmp.congr_right heq
      by_cases h : compare k' k₀ = .eq <;> simp [hc, h]
    · next hgt =>
      have hrest := ih (List.pairwise_cons.mp hs).2
      by_cases h : compare k' k₀ = .eq
      · have hk : compare k' k = compare k₀ k := Std.TransCmp.congr_left h
        have hlt : compare k₀ k = .lt := Std.OrientedCmp.gt_iff_lt.mp hgt
        simp [h, hk, hlt]
      · have hb : (compare k' k₀ == .eq) = false := by simpa using h
        simpa [List.find?_cons, hb] using hrest

theorem get?_erase [Std.TransOrd κ] (m : OrderedMap κ α) (k k' : κ) :
    (m.erase k).get? k' = if compare k' k = .eq then none else m.get? k' := by
  simp only [erase, filter, get?, List.find?_filter]
  split
  · next h =>
    rw [Option.map_eq_none_iff, List.find?_eq_none]
    intro e _
    have hc : compare k' e.1 = compare k e.1 := Std.TransCmp.congr_left h
    simp [hc]
  · next h =>
    congr 2
    funext e
    by_cases he : compare k' e.1 = .eq
    · have hc : compare k e.1 ≠ .eq := fun hk =>
        h (Std.TransCmp.eq_trans he (Std.OrientedCmp.eq_symm hk))
      simp [he, hc]
    · simp [he]

theorem get?_filter [Std.LawfulEqOrd κ] (m : OrderedMap κ α) (p : κ → α → Bool) (k : κ) :
    (m.filter p).get? k = (m.get? k).filter (p k) := by
  obtain ⟨es, hs⟩ := m
  simp only [filter, get?]
  induction es with
  | nil => rfl
  | cons head rest ih =>
    obtain ⟨k', v⟩ := head
    obtain ⟨hhead, hrest⟩ := List.pairwise_cons.mp hs
    by_cases hk : k = k'
    · subst hk
      have hnone : (rest.filter fun e => p e.1 e.2).find? (fun e => compare k e.1 == .eq) = none := by
        rw [List.find?_eq_none]
        intro e he
        simp [hhead e (List.mem_filter.mp he).1]
      cases hp : p k v <;> simp [hp, hnone, Std.ReflCmp.compare_self, Option.filter]
    · have hne : (compare k k' == .eq) = false := by simpa using hk
      have hrest := ih hrest
      rw [List.find?_filter] at hrest
      cases hp : p k' v <;> simp [hp, hne] <;> simpa using hrest

end OrderedMap

end BuildCache
