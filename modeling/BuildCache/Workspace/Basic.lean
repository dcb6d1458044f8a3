import BuildCache.Dependents
import BuildCache.Store.Basic

/-!
# Workspaces

A store together with the files it works on. Whoever asks for a table has it loaded, and what was
loaded is not read again.
-/

namespace BuildCache

structure Workspace where
  files : FileTree
  store : Store
deriving DecidableEq

/-- A step that may fail; what it did before stays done. -/
abbrev Action (α : Type) := ExceptT StoreError (StateM Workspace) α

namespace Workspace

def currentFiles : StateM Workspace FileTree := fun w => (w.files, w)

/-- Runs a change of files. -/
def onFiles {α : Type} (change : FileTree → Except StoreError α × FileTree) : Action α := fun w =>
  let (result, files) := change w.files
  (result, { w with files })

def ids : StateM Workspace IdTable := fun w =>
  let path := w.store.layout.ids
  (w.store.ids.get w.files path,
    { w with store.ids := w.store.ids.load w.files path })

def changeIds (change : IdTable → IdTable) : StateM Workspace Unit := fun w =>
  ((), { w with store.ids := w.store.ids.update w.files w.store.layout.ids change })

def dependents : StateM Workspace Dependents := fun w =>
  let path := w.store.layout.dependents
  (w.store.dependents.get w.files path,
    { w with store.dependents := w.store.dependents.load w.files path })

def changeDependents (change : Dependents → Dependents) : StateM Workspace Unit := fun w =>
  let path := w.store.layout.dependents
  ((), { w with store.dependents := w.store.dependents.update w.files path change })

def record? (id : CacheId) : StateM Workspace (Option CacheRecord) := fun w =>
  let dir := w.store.layout.files
  (w.store.records.get? w.files dir id,
    { w with store.records := w.store.records.load w.files dir id })

def putRecord (id : CacheId) (record : CacheRecord) : StateM Workspace Unit := fun w =>
  ((), { w with store.records := w.store.records.insert id record })

/-- Removes a record from memory and its file at once, and answers what it was. -/
def removeRecord (id : CacheId) : StateM Workspace (Option CacheRecord) := do
  let record ← record? id
  modify fun w =>
    { w with
      files := w.files.discard (RecordTable.path w.store.layout.files id)
      store.records := w.store.records.remove id }
  return record

def artifact? (id : CacheId) : StateM Workspace (Option Artifact) := fun w =>
  (w.store.artifacts.read? w.files id, w)

def writeArtifact (id : CacheId) (a : Artifact) : Action Unit := fun w =>
  onFiles (w.store.artifacts.write · id a) w

def removeArtifact (id : CacheId) : StateM Workspace Unit := fun w =>
  ((), { w with files := w.store.artifacts.remove w.files id })

def save : Action Unit := fun w =>
  let (result, files, store) := w.store.save w.files
  (result, { files, store })

def saveIds : Action Bool := fun w =>
  let (result, files, ids) := w.store.ids.save w.files w.store.debug w.store.layout.ids
  (result, { w with files, store.ids := ids })

def saveDependents : Action Bool := fun w =>
  let (result, files, dependents) :=
    w.store.dependents.save w.files w.store.debug w.store.layout.dependents
  (result, { w with files, store.dependents := dependents })

def saveRecords : Action Nat := fun w =>
  let (result, files, records) :=
    w.store.records.save w.files w.store.debug w.store.layout.files
  (result, { w with files, store.records := records })

end Workspace

end BuildCache
