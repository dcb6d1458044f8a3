import BuildCache.Record.Json
import BuildCache.Store.Replace

/-!
# Tables

A table is read from its file when it is first needed and written back only by a save. A file that
is missing or cannot be read as a table counts as an empty one.
-/

namespace BuildCache

variable {α : Type} [JsonForm α]

namespace FileTree

/-- The value in a JSON file, if it holds one. -/
def readJson? (t : FileTree) (p : Path) : Option α := (t.readText? p).bind JsonForm.parse?

/-- Makes the directory that a path lies in, if it has a parent. -/
def prepareParent (t : FileTree) (p : Path) : Except StoreError Unit × FileTree :=
  match p.parent? with
  | some parent => t.prepare parent
  | none => (.ok (), t)

def writeJson (t : FileTree) (pretty : Bool) (p : Path) (a : α) :
    Except StoreError Unit × FileTree :=
  match t.prepareParent p with
  | (.error e, t) => (.error e, t)
  | (.ok (), t) =>
    match JsonForm.render? pretty a with
    | none => (.error .nonTextKey, t)
    | some text => t.replace p (.ofString text)

end FileTree

/-- A table in memory: its value once it was needed, and whether it was changed since the last
save. -/
structure Table (α : Type) where
  value : Option α := none
  dirty : Bool := false
deriving DecidableEq

namespace Table

variable [EmptyCollection α]

/-- What the table holds: the value in memory, or else what its file says. -/
def get (table : Table α) (t : FileTree) (p : Path) : α :=
  match table.value with
  | some a => a
  | none => (t.readJson? p).getD ∅

def load (table : Table α) (t : FileTree) (p : Path) : Table α :=
  { table with value := some (table.get t p) }

def update (table : Table α) (t : FileTree) (p : Path) (change : α → α) : Table α :=
  ⟨some (change (table.get t p)), true⟩

/-- Writes the table if it was changed, and says whether it did. -/
def save (table : Table α) (t : FileTree) (pretty : Bool) (p : Path) :
    Except StoreError Bool × FileTree × Table α :=
  match table.value, table.dirty with
  | some a, true =>
    match t.writeJson pretty p a with
    | (.ok (), t) => (.ok true, t, { table with dirty := false })
    | (.error e, t) => (.error e, t, table)
  | _, _ => (.ok false, t, table)

end Table

/-- Records by id, each in a file of its own. An id that was looked up is remembered, with `none`
for one without a record. -/
structure RecordTable where
  loaded : OrderedMap CacheId (Option CacheRecord) := .empty
  unsaved : OrderedMap CacheId CacheRecord := .empty
deriving DecidableEq

namespace RecordTable

def path (dir : Path) (id : CacheId) : Path := dir.joinString (id.text ++ ".json")

def get? (table : RecordTable) (t : FileTree) (dir : Path) (id : CacheId) : Option CacheRecord :=
  match table.loaded.get? id with
  | some record => record
  | none => t.readJson? (path dir id)

def load (table : RecordTable) (t : FileTree) (dir : Path) (id : CacheId) : RecordTable :=
  if table.loaded.contains id then table
  else { table with loaded := table.loaded.insert id (t.readJson? (path dir id)) }

def insert (table : RecordTable) (id : CacheId) (record : CacheRecord) : RecordTable :=
  ⟨table.loaded.insert id (some record), table.unsaved.insert id record⟩

def remove (table : RecordTable) (id : CacheId) : RecordTable :=
  ⟨table.loaded.insert id none, table.unsaved.erase id⟩

/-- Whether the table holds a record for an id, as far as it knows. -/
def holds (table : RecordTable) (id : CacheId) : Bool := (table.loaded.get? id).join.isSome

/-- Writes waiting records, counting them. From the first that fails on they go on waiting. -/
def writeAll (table : RecordTable) (t : FileTree) (pretty : Bool) (dir : Path) (count : Nat) :
    List (CacheId × CacheRecord) → Except StoreError Nat × FileTree × RecordTable
  | [] => (.ok count, t, table)
  | (id, record) :: rest =>
    if table.holds id then
      match t.writeJson pretty (path dir id) record with
      | (.ok (), t) => table.writeAll t pretty dir (count + 1) rest
      | (.error e, t) =>
        let waiting := ((id, record) :: rest).filter fun entry => table.holds entry.1
        (.error e, t, { table with unsaved := .ofList waiting })
    else table.writeAll t pretty dir count rest

/-- Writes the unsaved records and answers how many. -/
def save (table : RecordTable) (t : FileTree) (pretty : Bool) (dir : Path) :
    Except StoreError Nat × FileTree × RecordTable :=
  ({ table with unsaved := .empty }).writeAll t pretty dir 0 table.unsaved.entries

end RecordTable

end BuildCache
