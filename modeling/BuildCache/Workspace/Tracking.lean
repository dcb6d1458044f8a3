import BuildCache.Workspace.Basic

/-!
# Tracked files

A file is tracked while it has an id. Its record and the reverse index change together, so that
the index lists it under exactly the dependencies of its record.
-/

namespace BuildCache.Workspace

def idOf (file : Path) : StateM Workspace (Option CacheId) := return (← ids).get? file

def isTracked (file : Path) : StateM Workspace Bool := return (← ids).contains file

def tracked : StateM Workspace (List Path) := return (← ids).keys

/-- The ids in use, each once. -/
def liveIds : StateM Workspace (List CacheId) := do
  return (OrderedMap.ofList ((← ids).values.map fun id => (id, ()))).keys

def recordOf (file : Path) : StateM Workspace (Option CacheRecord) := do
  match ← idOf file with
  | some id => record? id
  | none => return none

/-- The id of a file, a new one if it has none. -/
def assignId (file : Path) : Action CacheId := do
  match ← idOf file with
  | some id => return id
  | none =>
    StoreError.ensureText [file]
    let id := CacheId.forPath file
    changeIds (·.insert file id)
    return id

/-- Takes a file out of the reverse index where its dependencies are not known. -/
def forgetFile (file : Path) : StateM Workspace Unit := do
  if (← dependents).mentions file then changeDependents (·.forget file)

/-- Moves a file in the reverse index, if its dependencies differ from the previous ones. -/
def moveFile (file : Path) (previous next : PathSet) : StateM Workspace Unit := do
  if !previous.sameKeys next then changeDependents (·.update file previous next)

/-- Puts a new record in the place of a file's old one. -/
def commitRecord (file : Path) (record : CacheRecord) : Action CacheId := do
  StoreError.ensureText record.dependencyPaths
  let id ← assignId file
  match ← record? id with
  | some previous => moveFile file previous.dependencySet record.dependencySet
  | none =>
    forgetFile file
    moveFile file .empty record.dependencySet
  putRecord id record
  return id

/-- Takes a file's id away and removes all that was kept under it. Answers whether the file was
tracked. -/
def evict (file : Path) : StateM Workspace Bool := do
  let id? ← idOf file
  changeIds (·.erase file)
  match id? with
  | none => return false
  | some id =>
    match ← removeRecord id with
    | some record => moveFile file record.dependencySet .empty
    | none => forgetFile file
    removeArtifact id
    return true

/-- Stamps a file's dependencies anew. -/
def setDependencies (file : Path) (dependencies : PathSet) : Action Unit := do
  StoreError.ensureText dependencies.toList
  let some id ← idOf file | throw (.notCached file)
  let snapshot := (← currentFiles).snapshot dependencies
  let some record ← record? id | throw (.notCached file)
  moveFile file record.dependencySet dependencies
  putRecord id (record.withDependencies snapshot)

def dependentsOf (dependency : Path) : StateM Workspace PathSet :=
  return (← dependents).filesOf dependency

def dependencies : StateM Workspace (List Path) := return (← dependents).keys

/-- Evicts files and answers which of them were tracked. -/
def evictAll : List Path → StateM Workspace (List Path)
  | [] => return []
  | file :: rest => do
    let evicted ← evict file
    let others ← evictAll rest
    return if evicted then file :: others else others

/-- Drops a dependency from the reverse index and evicts the files that import it. What imports
those in turn stays. -/
def evictDependents (dependency : Path) : StateM Workspace (List Path) := do
  let files ← dependentsOf dependency
  changeDependents (·.erase dependency)
  evictAll files.toList

end BuildCache.Workspace
