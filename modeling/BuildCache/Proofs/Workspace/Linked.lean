import BuildCache.Proofs.Record.RoundTrip
import BuildCache.Proofs.Workspace.Current
import BuildCache.Proofs.Workspace.Faults

/-!
# What is in memory and what is on disk

The books on disk are what a new session would find. A part of the store that does not wait for a
save is the same in memory and on disk, and a save brings the rest to disk.
-/

namespace BuildCache

open FileTree

variable {α : Type} [JsonForm α] [EmptyCollection α]

/-- The table that a file holds. -/
def FileTree.tableAt (t : FileTree) (p : Path) : α := (t.readJson? p).getD ∅

/-- What the files of a layout say. -/
def Layout.books (layout : Layout) (t : FileTree) : Books where
  ids := t.tableAt layout.ids
  dependents := t.tableAt layout.dependents
  record := fun id => t.readJson? (RecordTable.path layout.files id)

namespace Table

/-- A table in memory that was not changed is the one on disk. -/
structure Linked (table : Table α) (disk : α) : Prop where
  clean : table.dirty = false → ∀ a, table.value = some a → a = disk
  loaded : table.dirty = true → table.value.isSome = true

theorem Linked.load {table : Table α} {t : FileTree} {p : Path}
    (h : table.Linked (t.tableAt p)) : (table.load t p).Linked (t.tableAt p) where
  clean hclean a ha := by
    simp only [Table.load, Option.some.injEq] at ha
    subst ha
    rw [Table.get]
    split
    · next a ha => exact h.clean hclean a ha
    · rfl
  loaded _ := rfl

theorem linked_update (table : Table α) (t : FileTree) (p : Path) (change : α → α) (disk : α) :
    (table.update t p change).Linked disk where
  clean h := by simp [Table.update] at h
  loaded _ := rfl

theorem tableAt_congr {t t' : FileTree} {p : Path}
    (h : t'.readText? p = t.readText? p) : (t'.tableAt p : α) = t.tableAt p := by
  rw [tableAt, tableAt, Workspace.readJson?_congr h]

theorem get_congr (table : Table α) {t t' : FileTree} {p : Path}
    (h : t'.readText? p = t.readText? p) : table.get t' p = table.get t p := by
  rw [Table.get, Table.get, Workspace.readJson?_congr h]

theorem Linked.get_eq {table : Table α} {t : FileTree} {p : Path}
    (h : table.Linked (t.tableAt p)) (hclean : table.dirty = false) :
    table.get t p = t.tableAt p := by
  rw [Table.get]
  split
  · next a ha => exact h.clean hclean a ha
  · rfl

/-- A table that was saved is known as before. If all went well it is on disk, and else it is there
or what was there. -/
structure Brings (p : Path) (table table' : Table α) (t t' : FileTree) (done : Prop) : Prop where
  get : table'.get t' p = table.get t p
  linked : table'.Linked (t'.tableAt p)
  saved : done → t'.tableAt p = table.get t p
  partly : (t'.tableAt p : α) = t.tableAt p ∨ t'.tableAt p = table.get t p

/-- What leaves the file of the table alone, before and after, makes no difference. -/
theorem Brings.between {p : Path} {table table' : Table α} {t t₁ t₂ t' : FileTree}
    {done done' : Prop} (h : table.Brings p table' t₁ t₂ done)
    (hbefore : t₁.readText? p = t.readText? p) (hafter : t'.readText? p = t₂.readText? p)
    (hdone : done' → done) : table.Brings p table' t t' done' where
  get := by rw [get_congr _ hafter, h.get, get_congr _ hbefore]
  linked := by
    rw [tableAt_congr hafter]
    exact h.linked
  saved hd := by rw [tableAt_congr hafter, h.saved (hdone hd), get_congr _ hbefore]
  partly := by
    rw [tableAt_congr hafter, ← tableAt_congr hbefore, ← get_congr _ hbefore]
    exact h.partly

variable [LawfulForm α]

theorem tableAt_of_readText? {t : FileTree} {p : Path} {pretty : Bool} {a : α} {text : String}
    (hrender : JsonForm.render? pretty a = some text) (hread : t.readText? p = some text) :
    (t.tableAt p : α) = a := by
  rw [tableAt, readJson?, hread, Option.bind_some, JsonForm.parse?_render? hrender]
  rfl

/-- Saving a table changes its file only, to the table. -/
structure Saves (layout : Layout) (s : Slot) (table table' : Table α) (t t' : FileTree)
    (done : Prop) : Prop extends Brings (s.path layout) table table' t t' done where
  changes : layout.Changes (· = s) t t'

theorem saves_of_saveUnless {layout : Layout} {s : Slot} {table : Table α} {t : FileTree}
    {pretty : Bool} {fault : Option StoreError} (hsettled : layout.Settled t)
    (h : table.Linked (t.tableAt (s.path layout))) {r : Except StoreError Bool} {t' : FileTree}
    {table' : Table α} (hsave : table.saveUnless fault t pretty (s.path layout) = (r, t', table')) :
    table.Saves layout s table' t t' (∃ written, r = .ok written) := by
  rw [Table.saveUnless] at hsave
  split at hsave
  · next a hvalue hdirty =>
    have hget : table.get t (s.path layout) = a := by rw [Table.get, hvalue]
    split at hsave
    · next t₁ hwrite =>
      cases hsave
      obtain ⟨hchanges, text, hrender, hread⟩ := Slot.changes_of_writeJsonUnless_ok hwrite
      have hdisk : (t'.tableAt (s.path layout) : α) = a := tableAt_of_readText? hrender hread
      refine ⟨⟨?_, ⟨fun _ b hb => ?_, fun h => ?_⟩, fun _ => ?_, .inr ?_⟩, hchanges⟩
      · rw [hget, Table.get]
        simp only [hvalue]
      · have hb : table.value = some b := hb
        rw [hdisk, ← Option.some.injEq, ← hb, hvalue]
      · simp at h
      · rw [hdisk, hget]
      · rw [hdisk, hget]
    · next e t₁ hwrite =>
      cases hsave
      have hchanges : layout.Changes (fun _ => False) t t' :=
        Slot.changes_of_writeJsonUnless_error hwrite
      have hdisk : (t'.tableAt (s.path layout) : α) = t.tableAt (s.path layout) := by
        rw [tableAt, tableAt, Workspace.readJson?_congr (hchanges.readText? hsettled (fun h => h))]
      refine ⟨⟨?_, hdisk ▸ h, ?_, .inl hdisk⟩, hchanges.mono fun _ => False.elim⟩
      · rw [hget, Table.get, hvalue]
      · rintro ⟨written, hr⟩
        contradiction
  · next hcases =>
    cases hsave
    refine ⟨⟨rfl, h, fun _ => ?_, .inl rfl⟩, .refl _ _ _⟩
    cases hdirty : table.dirty with
    | false => exact (h.get_eq hdirty).symm
    | true =>
      obtain ⟨a, ha⟩ := Option.isSome_iff_exists.mp (h.loaded hdirty)
      exact (hcases a ha hdirty).elim

end Table

namespace RecordTable

/-- Records that wait are in memory. -/
def Waiting (table : RecordTable) : Prop :=
  ∀ id r, table.unsaved.get? id = some r → table.loaded.get? id = some (some r)

theorem Waiting.load {table : RecordTable} (h : table.Waiting) (t : FileTree) (dir : Path)
    (id : CacheId) : (table.load t dir id).Waiting := by
  intro id' r hr
  rw [RecordTable.load] at hr ⊢
  split at hr
  · rw [if_pos ‹_›]
    exact h id' r hr
  · next hnew =>
    rw [if_neg hnew]
    simp only [CacheId.get?_insert]
    split
    · next heq =>
      subst heq
      simp [OrderedMap.contains, h id' r hr] at hnew
    · exact h id' r hr

theorem Waiting.insert {table : RecordTable} (h : table.Waiting) (id : CacheId) (r : CacheRecord) :
    (table.insert id r).Waiting := by
  intro id' r' hr'
  simp only [RecordTable.insert, CacheId.get?_insert] at hr' ⊢
  split
  · next heq =>
    rw [if_pos heq] at hr'
    exact congrArg some hr'
  · next hne =>
    rw [if_neg hne] at hr'
    exact h id' r' hr'

theorem Waiting.remove {table : RecordTable} (h : table.Waiting) (id : CacheId) :
    (table.remove id).Waiting := by
  intro id' r hr
  simp only [RecordTable.remove, CacheId.get?_erase] at hr ⊢
  split at hr
  · contradiction
  · next hne =>
    rw [CacheId.get?_insert, if_neg hne]
    exact h id' r hr

/-- What is remembered of an id is on disk, unless it waits. -/
def CleanAt (table : RecordTable) (disk : CacheId → Option CacheRecord) (id : CacheId) : Prop :=
  table.unsaved.get? id = none → ∀ r, table.loaded.get? id = some r → r = disk id

variable {layout : Layout} {table : RecordTable} {t t' : FileTree}

/-- The records that the files of a layout hold. -/
abbrev onDisk (layout : Layout) (t : FileTree) (id : CacheId) : Option CacheRecord :=
  t.readJson? ((Slot.entry id .record).path layout)

theorem get?_of_clean {id : CacheId} (hclean : table.CleanAt (onDisk layout t) id)
    (hnone : table.unsaved.get? id = none) :
    table.get? t layout.files id = onDisk layout t id := by
  rw [RecordTable.get?]
  split
  · next r hr => exact hclean hnone r hr
  · rfl

/-- What writing some of the waiting records does. -/
structure Writes (layout : Layout) (entries : List (CacheId × CacheRecord)) (t t' : FileTree) :
    Prop where
  changes : layout.Changes (fun s => ∃ id, s = .entry id .record) t t'
  written : ∀ id r, (id, r) ∈ entries → onDisk layout t' id = some r
  others : ∀ id, (∀ r, (id, r) ∉ entries) → onDisk layout t' id = onDisk layout t id

theorem Writes.nil (t : FileTree) : Writes layout [] t t :=
  ⟨.refl _ _ _, by simp, fun _ _ => rfl⟩

theorem Writes.cons {t₁ : FileTree} {id : CacheId} {r : CacheRecord} {pretty : Bool}
    {fault : Option StoreError} {entries : List (CacheId × CacheRecord)}
    (hsettled : layout.Settled t)
    (hwrite : t.writeJsonUnless fault pretty ((Slot.entry id .record).path layout) r =
      (.ok (), t₁))
    (hnew : ∀ r', (id, r') ∉ entries) (h : Writes layout entries t₁ t') :
    Writes layout ((id, r) :: entries) t t' := by
  obtain ⟨hchanges, text, hrender, hread⟩ := Slot.changes_of_writeJsonUnless_ok hwrite
  have hself : onDisk layout t₁ id = some r := by
    rw [onDisk, readJson?, hread, Option.bind_some, JsonForm.parse?_render? hrender]
  refine ⟨(hchanges.mono fun s hs => ⟨id, hs⟩).trans h.changes, ?_, ?_⟩
  · intro id' r' hmem
    rcases List.mem_cons.mp hmem with heq | hmem
    · cases heq
      rw [h.others id hnew, hself]
    · exact h.written id' r' hmem
  · intro id' hother
    have hne : ¬Slot.entry id' .record = .entry id .record := by
      intro heq
      obtain rfl : id' = id := by simpa using heq
      exact hother r List.mem_cons_self
    rw [h.others id' fun r' hr' => hother r' (List.mem_cons_of_mem _ hr')]
    exact Workspace.readJson?_congr (hchanges.readText? hsettled hne)

/-- Records that are written one after the other, each with success. -/
inductive WrittenInTurn (faults : CacheId → Option StoreError) (pretty : Bool) (dir : Path) :
    List (CacheId × CacheRecord) → FileTree → FileTree → Prop where
  | nil (t : FileTree) : WrittenInTurn faults pretty dir [] t t
  | cons {id : CacheId} {record : CacheRecord} {rest : List (CacheId × CacheRecord)}
      {t t₁ t' : FileTree}
      (hwrite : t.writeJsonUnless (faults id) pretty (path dir id) record = (.ok (), t₁))
      (hrest : WrittenInTurn faults pretty dir rest t₁ t') :
      WrittenInTurn faults pretty dir ((id, record) :: rest) t t'

variable {faults : CacheId → Option StoreError} {pretty : Bool}

theorem WrittenInTurn.writes {entries : List (CacheId × CacheRecord)}
    (h : WrittenInTurn faults pretty layout.files entries t t') (hsettled : layout.Settled t)
    (hdistinct : entries.Pairwise fun a b => a.1 ≠ b.1) : Writes layout entries t t' := by
  induction h with
  | nil => exact .nil _
  | @cons id record rest t t₁ t' hwrite _ ih =>
    obtain ⟨hhead, hrest⟩ := List.pairwise_cons.mp hdistinct
    rw [Slot.path_record] at hwrite
    have hsettled₁ := (Slot.changes_of_writeJsonUnless_ok hwrite).1.settled hsettled
    exact .cons hsettled hwrite (fun r' hr' => hhead (id, r') hr' rfl) (ih hsettled₁ hrest)

/-- How the writing of waiting records ends: all that are held are written, or one of them cannot
be and goes on waiting with those after it. -/
inductive WriteEnd (faults : CacheId → Option StoreError) (pretty : Bool) (dir : Path)
    (table : RecordTable) (t : FileTree) :
    List (CacheId × CacheRecord) → Except StoreError Nat → FileTree → RecordTable → Prop where
  | all (n : Nat) : WriteEnd faults pretty dir table t [] (.ok n) t table
  | stopped {id : CacheId} {record : CacheRecord} {rest : List (CacheId × CacheRecord)}
      {e : StoreError} {t' : FileTree}
      (hwrite : t.writeJsonUnless (faults id) pretty (path dir id) record = (.error e, t')) :
      WriteEnd faults pretty dir table t ((id, record) :: rest) (.error e) t'
        { table with unsaved := .ofList ((id, record) :: rest) }

/-- Up to the first that fails the records are written, and the others go on waiting. -/
theorem writeAllUnless_cases (dir : Path) (entries : List (CacheId × CacheRecord)) {count : Nat}
    {r : Except StoreError Nat} {table' : RecordTable}
    (h : table.writeAllUnless faults t pretty dir count entries = (r, t', table')) :
    ∃ written waiting t₁, entries.filter (fun e => table.holds e.1) = written ++ waiting ∧
      WrittenInTurn faults pretty dir written t t₁ ∧
      WriteEnd faults pretty dir table t₁ waiting r t' table' := by
  induction entries generalizing t count with
  | nil =>
    cases h
    exact ⟨[], [], _, rfl, .nil _, .all count⟩
  | cons e rest ih =>
    obtain ⟨id, record⟩ := e
    rw [writeAllUnless] at h
    by_cases hholds : table.holds id = true
    · rw [if_pos hholds] at h
      have hfilter : ((id, record) :: rest).filter (fun e => table.holds e.1) =
          (id, record) :: rest.filter fun e => table.holds e.1 := List.filter_cons_of_pos hholds
      split at h
      · next t₁ hwrite =>
        obtain ⟨written, waiting, t₂, hentries, hwritten, hend⟩ := ih h
        refine ⟨(id, record) :: written, waiting, t₂, ?_, .cons hwrite hwritten, hend⟩
        rw [hfilter, hentries, List.cons_append]
      · next e t₁ hwrite =>
        cases h
        refine ⟨[], _, t, hfilter, .nil t, ?_⟩
        rw [hfilter]
        exact .stopped hwrite
    · rw [if_neg hholds] at h
      have hfilter : ((id, record) :: rest).filter (fun e => table.holds e.1) =
          rest.filter fun e => table.holds e.1 := List.filter_cons_of_neg hholds
      rw [hfilter]
      exact ih h

theorem Writes.of_unchanged {t₁ : FileTree} {entries : List (CacheId × CacheRecord)}
    (h : Writes layout entries t t₁) (hsettled : layout.Settled t)
    (hchanges : layout.Changes (fun _ => False) t₁ t') : Writes layout entries t t' := by
  have hsame (id : CacheId) : onDisk layout t' id = onDisk layout t₁ id :=
    Workspace.readJson?_congr (hchanges.readText? (h.changes.settled hsettled) fun h => h)
  refine ⟨h.changes.trans (hchanges.mono fun _ => False.elim), ?_, ?_⟩
  · intro id r hmem
    rw [hsame, h.written id r hmem]
  · intro id hother
    rw [hsame, h.others id hother]

theorem writeAllUnless_spec (entries : List (CacheId × CacheRecord)) {count : Nat}
    (hsettled : layout.Settled t) (hdistinct : entries.Pairwise fun a b => a.1 ≠ b.1)
    (hholds : ∀ e ∈ entries, table.holds e.1 = true) {r : Except StoreError Nat}
    {table' : RecordTable}
    (h : table.writeAllUnless faults t pretty layout.files count entries = (r, t', table')) :
    ∃ written waiting, entries = written ++ waiting ∧ Writes layout written t t' ∧
      ((waiting = [] ∧ (∃ n, r = .ok n) ∧ table' = table) ∨
        ((∃ e, r = .error e) ∧ table' = { table with unsaved := .ofList waiting })) := by
  obtain ⟨written, waiting, t₁, hentries, hwritten, hend⟩ := writeAllUnless_cases _ _ h
  rw [List.filter_eq_self.mpr hholds] at hentries
  have hwrites := hwritten.writes hsettled (List.pairwise_append.mp (hentries ▸ hdistinct)).1
  refine ⟨written, waiting, hentries, ?_⟩
  cases hend with
  | all n => exact ⟨hwrites, .inl ⟨rfl, ⟨n, rfl⟩, rfl⟩⟩
  | stopped hwrite =>
    exact ⟨hwrites.of_unchanged hsettled (Slot.changes_of_writeJsonUnless_error hwrite),
      .inr ⟨⟨_, rfl⟩, rfl⟩⟩

theorem get?_iff_mem {m : OrderedMap CacheId CacheRecord} {id : CacheId}
    {r : CacheRecord} : m.get? id = some r ↔ (id, r) ∈ m.entries := by
  rw [OrderedMap.get?_eq_some_iff]
  constructor
  · rintro ⟨id', hmem, hcmp⟩
    rwa [CacheId.compare_eq_iff.mp hcmp]
  · exact fun hmem => ⟨id, hmem, Std.ReflCmp.compare_self⟩

/-- Records that were saved are known as before. If all went well they are on disk, and else each
is there or what was there. -/
structure Brings (layout : Layout) (table table' : RecordTable) (t t' : FileTree) (done : Prop) :
    Prop where
  waiting : table'.Waiting
  clean : ∀ id, table.CleanAt (onDisk layout t) id → table'.CleanAt (onDisk layout t') id
  get? : ∀ id, table'.get? t' layout.files id = table.get? t layout.files id
  saved : done → ∀ id, table.CleanAt (onDisk layout t) id →
    onDisk layout t' id = table.get? t layout.files id
  partly : ∀ id, onDisk layout t' id = onDisk layout t id ∨
    onDisk layout t' id = table.get? t layout.files id

theorem Brings.after {table' : RecordTable} {t₁ : FileTree} {done done' : Prop}
    (h : table.Brings layout table' t₁ t' done)
    (hbefore : ∀ id, t₁.readText? ((Slot.entry id .record).path layout) =
      t.readText? ((Slot.entry id .record).path layout))
    (hdone : done' → done) : table.Brings layout table' t t' done' := by
  have hdisk : onDisk layout t₁ = onDisk layout t :=
    funext fun id => Workspace.readJson?_congr (hbefore id)
  have hget (id : CacheId) : table.get? t₁ layout.files id = table.get? t layout.files id := by
    rw [RecordTable.get?, RecordTable.get?, Slot.path_record, Workspace.readJson?_congr (hbefore id)]
  refine ⟨h.waiting, fun id hclean => h.clean id (hdisk ▸ hclean), fun id => ?_,
    fun hd id hclean => ?_, fun id => ?_⟩
  · rw [h.get?, hget]
  · rw [h.saved (hdone hd) id (hdisk ▸ hclean), hget]
  · rw [← hget, ← hdisk]
    exact h.partly id

/-- Saving records changes their files only, to what is in memory. -/
structure Saves (layout : Layout) (table table' : RecordTable) (t t' : FileTree) (done : Prop) :
    Prop extends Brings layout table table' t t' done where
  changes : layout.Changes (fun s => ∃ id, s = .entry id .record) t t'

/-- A save of records writes the first of those that wait, and the others go on waiting. -/
structure Parted (layout : Layout) (table table' : RecordTable) (t t' : FileTree)
    (written waiting : List (CacheId × CacheRecord)) (done : Prop) : Prop where
  entries : table.unsaved.entries = written ++ waiting
  writes : Writes layout written t t'
  loaded : table'.loaded = table.loaded
  unsaved : ∀ id r, table'.unsaved.get? id = some r ↔ (id, r) ∈ waiting
  all : done → waiting = []

theorem exists_parted (hsettled : layout.Settled t) (hwaiting : table.Waiting)
    {r : Except StoreError Nat} {table' : RecordTable}
    (h : table.saveUnless faults t pretty layout.files = (r, t', table')) :
    ∃ written waiting, table.Parted layout table' t t' written waiting (∃ n, r = .ok n) := by
  have hdistinct : table.unsaved.entries.Pairwise fun a b => a.1 ≠ b.1 :=
    table.unsaved.sorted.imp fun hlt heq => by simp [heq, Std.ReflCmp.compare_self] at hlt
  have hholds : ∀ e ∈ table.unsaved.entries, holds { table with unsaved := .empty } e.1 = true :=
    fun e he => by simp [holds, hwaiting e.1 e.2 (OrderedMap.get?_of_mem_entries he)]
  obtain ⟨written, waiting, hentries, hwrites, hresult⟩ :=
    writeAllUnless_spec _ hsettled hdistinct hholds h
  have hsorted : waiting.Pairwise fun a b => compare a.1 b.1 = .lt :=
    (List.pairwise_append.mp (hentries ▸ table.unsaved.sorted)).2.1
  refine ⟨written, waiting, ?_⟩
  rcases hresult with ⟨rfl, -, rfl⟩ | ⟨⟨e, rfl⟩, rfl⟩
  · exact ⟨hentries, hwrites, rfl, fun id r => by simp [OrderedMap.get?_empty], fun _ => rfl⟩
  · refine ⟨hentries, hwrites, rfl, fun id r => ?_, fun ⟨n, hn⟩ => ?_⟩
    · rw [OrderedMap.ofList_entries ⟨waiting, hsorted⟩, get?_iff_mem]
    · contradiction

namespace Parted

variable {table' : RecordTable} {written waiting : List (CacheId × CacheRecord)} {done : Prop}
  {id : CacheId}

theorem waits (h : table.Parted layout table' t t' written waiting done)
    (hwaiting : table.Waiting) : table'.Waiting := by
  intro id r hr
  rw [h.loaded]
  exact hwaiting id r (get?_iff_mem.mpr (h.entries ▸
    List.mem_append_right _ ((h.unsaved id r).mp hr)))

theorem loaded_of_mem (h : table.Parted layout table' t t' written waiting done)
    (hwaiting : table.Waiting) {r : CacheRecord} (hmem : (id, r) ∈ written) :
    table.loaded.get? id = some (some r) :=
  hwaiting id r (get?_iff_mem.mpr (h.entries ▸ List.mem_append_left _ hmem))

theorem eq_none_of_not_mem (h : table.Parted layout table' t t' written waiting done)
    (hid : ∀ r, (id, r) ∉ written) (hnone : table'.unsaved.get? id = none) :
    table.unsaved.get? id = none := by
  rw [← Option.not_isSome_iff_eq_none, Option.isSome_iff_exists]
  rintro ⟨r, hr⟩
  rw [get?_iff_mem, h.entries, List.mem_append] at hr
  rcases hr with hr | hr
  · exact hid r hr
  · rw [(h.unsaved id r).mpr hr] at hnone
    contradiction

theorem unsaved_eq_none (h : table.Parted layout table' t t' written waiting done)
    (hid : ∀ r, (id, r) ∉ waiting) : table'.unsaved.get? id = none := by
  rw [← Option.not_isSome_iff_eq_none, Option.isSome_iff_exists]
  rintro ⟨r, hr⟩
  exact hid r ((h.unsaved id r).mp hr)

theorem eq_of_unsaved (h : table.Parted layout table' t t' written waiting done)
    (hnone : table.unsaved.get? id = none) :
    table'.unsaved.get? id = none ∧ onDisk layout t' id = onDisk layout t id := by
  have hid (r : CacheRecord) : (id, r) ∉ written ++ waiting := by
    rw [← h.entries, ← get?_iff_mem, hnone]
    exact nofun
  exact ⟨h.unsaved_eq_none fun r hr => hid r (List.mem_append_right _ hr),
    h.writes.others id fun r hr => hid r (List.mem_append_left _ hr)⟩

theorem onDisk_of_done (h : table.Parted layout table' t t' written waiting done) (hdone : done)
    (id : CacheId) : table'.unsaved.get? id = none ∧
      onDisk layout t' id = (table.unsaved.get? id).or (onDisk layout t id) := by
  cases hid : table.unsaved.get? id with
  | none => exact h.eq_of_unsaved hid
  | some r =>
    have hentries := h.entries
    rw [h.all hdone, List.append_nil] at hentries
    refine ⟨h.unsaved_eq_none fun r hr => ?_, ?_⟩
    · rw [h.all hdone] at hr
      exact List.not_mem_nil hr
    · exact h.writes.written id r (hentries ▸ get?_iff_mem.mp hid)

theorem clean (h : table.Parted layout table' t t' written waiting done)
    (hwaiting : table.Waiting) (hclean : table.CleanAt (onDisk layout t) id) :
    table'.CleanAt (onDisk layout t') id := by
  intro hnone r hr
  rw [h.loaded] at hr
  by_cases hid : ∃ r', (id, r') ∈ written
  · obtain ⟨r', hmem⟩ := hid
    rw [h.loaded_of_mem hwaiting hmem, Option.some.injEq] at hr
    rw [h.writes.written id r' hmem, hr]
  · have hid := not_exists.mp hid
    rw [h.writes.others id hid]
    exact hclean (h.eq_none_of_not_mem hid hnone) r hr

theorem get? (h : table.Parted layout table' t t' written waiting done)
    (hwaiting : table.Waiting) (id : CacheId) :
    table'.get? t' layout.files id = table.get? t layout.files id := by
  rw [RecordTable.get?, RecordTable.get?, h.loaded]
  split
  · rfl
  · next hunloaded =>
    rw [Slot.path_record]
    refine h.writes.others id fun r hmem => ?_
    rw [h.loaded_of_mem hwaiting hmem] at hunloaded
    contradiction

theorem partly (h : table.Parted layout table' t t' written waiting done)
    (hwaiting : table.Waiting) (id : CacheId) :
    onDisk layout t' id = onDisk layout t id ∨
      onDisk layout t' id = table.get? t layout.files id := by
  by_cases hid : ∃ r, (id, r) ∈ written
  · obtain ⟨r, hmem⟩ := hid
    rw [h.writes.written id r hmem, RecordTable.get?, h.loaded_of_mem hwaiting hmem]
    exact .inr rfl
  · exact .inl (h.writes.others id (not_exists.mp hid))

theorem saved (h : table.Parted layout table' t t' written waiting done)
    (hwaiting : table.Waiting) (hdone : done) (hclean : table.CleanAt (onDisk layout t) id) :
    onDisk layout t' id = table.get? t layout.files id := by
  rw [← h.get? hwaiting id]
  exact (get?_of_clean (h.clean hwaiting hclean) (h.onDisk_of_done hdone id).1).symm

end Parted

theorem saves_of_saveUnless (hsettled : layout.Settled t) (hwaiting : table.Waiting)
    {r : Except StoreError Nat} {table' : RecordTable}
    (h : table.saveUnless faults t pretty layout.files = (r, t', table')) :
    table.Saves layout table' t t' (∃ n, r = .ok n) := by
  obtain ⟨written, waiting, hparted⟩ := exists_parted hsettled hwaiting h
  exact ⟨⟨hparted.waits hwaiting, fun id => hparted.clean hwaiting, hparted.get? hwaiting,
    fun hdone id => hparted.saved hwaiting hdone, hparted.partly hwaiting⟩, hparted.writes.changes⟩

end RecordTable

end BuildCache
