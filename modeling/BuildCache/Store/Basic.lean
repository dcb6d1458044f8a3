import BuildCache.Store.Artifact
import BuildCache.Store.Layout
import BuildCache.Store.Table

/-!
# Stores

A store holds what is known of one cache directory: its tables and records as far as they were
needed, and what of them waits for a save. A directory that another version wrote is cleared when
the store is opened.
-/

namespace BuildCache

structure Store where
  layout : Layout
  version : String
  debug : Bool
  /-- Whether the marker has to be written. -/
  unmarked : Bool
  ids : Table IdTable := {}
  dependents : Table Dependents := {}
  records : RecordTable := {}
deriving DecidableEq

namespace Store

def artifacts (s : Store) : ArtifactStore := ⟨s.layout.files, s.debug⟩

/-- Whether anything waits for a save. -/
def isDirty (s : Store) : Bool :=
  s.unmarked || s.ids.dirty || s.dependents.dirty || !s.records.unsaved.isEmpty

/-- Opens the store of a directory. Only the marker is read. -/
def openAt (t : FileTree) (dir : Path) (version : String) (debug : Bool) :
    Except StoreError Store × FileTree :=
  let store (unmarked : Bool) : Store := { layout := ⟨dir⟩, version, debug, unmarked }
  match t.readText? (Layout.mk dir).marker with
  | none => (.ok (store true), t)
  | some text =>
    if trimBlanks text = version then (.ok (store false), t)
    else
      match (Layout.mk dir).clear t with
      | (.ok (), t) => (.ok (store true), t)
      | (.error e, t) => (.error e, t)

def writeMarker (s : Store) (t : FileTree) : Except StoreError Unit × FileTree :=
  match t.prepare s.layout.dir with
  | (.error e, t) => (.error e, t)
  | (.ok (), t) =>
    match t.write s.layout.marker (.ofString s.version) with
    | .ok t => (.ok (), t)
    | .error e => (.error (.io s.layout.marker e), t)

/-- Writes the marker if it is missing. -/
def saveMarker (s : Store) (t : FileTree) : Except StoreError Unit × FileTree × Store :=
  if s.unmarked then
    match s.writeMarker t with
    | (.ok (), t) => (.ok (), t, { s with unmarked := false })
    | (.error e, t) => (.error e, t, s)
  else (.ok (), t, s)

/-- Writes all that waits. Every part is tried even if another fails, and the first error is
answered. -/
def save (s : Store) (t : FileTree) : Except StoreError Unit × FileTree × Store :=
  let (marked, t, s) := s.saveMarker t
  let (idsSaved, t, ids) := s.ids.save t s.debug s.layout.ids
  let (dependentsSaved, t, dependents) := s.dependents.save t s.debug s.layout.dependents
  let (recordsSaved, t, records) := s.records.save t s.debug s.layout.files
  let result : Except StoreError Unit := do
    marked
    let _ ← idsSaved
    let _ ← dependentsSaved
    let _ ← recordsSaved
  (result, t, { s with ids, dependents, records })

end Store

end BuildCache
