import BuildCache.Resolve
import BuildCache.Workspace.Freshness
import BuildCache.Workspace.Sweep

/-!
# Sessions

A session is one run of a build: a project with its plugins, working on the project's cache. It
commits what was compiled, says what is stale, and serves artifacts.
-/

namespace BuildCache

structure Session where
  config : ProjectConfig
  fingerprint : Fingerprint
deriving DecidableEq

/-- What the imports of a file resolve to, in their order. -/
structure Imports where
  dependencies : List Path
  unresolved : List Unresolved
deriving DecidableEq

structure CommitOutcome where
  id : CacheId
  imports : Imports
deriving DecidableEq

/-- Resolves the specifiers of a file, each once. Specifiers that lead to one file give one
dependency. -/
def Resolver.imports (r : Resolver) (t : FileTree) (importer : Path) (specifiers : List String) :
    Imports :=
  let results := specifiers.eraseDups.map (r.resolve t importer)
  { dependencies := (results.filterMap Except.toOption).eraseDupsBy Path.same
    unresolved := results.filterMap fun
      | .error u => some u
      | .ok _ => none }

namespace Session

/-- The version that marks a cache unless another is asked for. -/
def defaultVersion : String := "0.1.0"

def ofPlugins (config : ProjectConfig) (plugins : List Plugin) : Session :=
  ⟨config, .ofPlugins plugins⟩

/-- Opens the project's cache. -/
def openStore (s : Session) (t : FileTree) (version : String) :
    Except StoreError Store × FileTree :=
  Store.openAt t s.config.cacheDir version s.config.cache.debug

def check (s : Session) (file : Path) : StateM Workspace Freshness :=
  Workspace.check s.fingerprint file

def staleFiles (s : Session) (files : List Path) : StateM Workspace (List Path) :=
  Workspace.staleFiles s.fingerprint files

/-- Keeps the artifact of a file that was just compiled, with a record of the file and of what it
imports. An import that does not resolve is no dependency and no failure. -/
def commit (s : Session) (file : Path) (specifiers : List String) (artifact : Artifact) :
    Action CommitOutcome := do
  let t ← Workspace.currentFiles
  let imports := s.config.resolver.imports t file specifiers
  StoreError.ensureText (file :: imports.dependencies)
  let stamp ← (t.stamp file).mapError (StoreError.io file)
  let snapshot := t.snapshot (.ofList imports.dependencies)
  let id ← Workspace.assignId file
  Workspace.writeArtifact id artifact
  let record : CacheRecord := { stamp, fingerprint := s.fingerprint }
  let _ ← Workspace.commitRecord file (record.withDependencies snapshot)
  return ⟨id, imports⟩

end Session

namespace Workspace

/-- The artifact of a file, stale or not. -/
def artifactOf (file : Path) : StateM Workspace (Option Artifact) := do
  match ← idOf file with
  | some id => artifact? id
  | none => return none

/-- Removes the files of ids that no file has any more, and answers how many. -/
def collectGarbage : Action Nat := do
  let live ← liveIds
  let artifacts := (← get).store.artifacts
  onFiles (artifacts.collect · live)

end Workspace

end BuildCache
