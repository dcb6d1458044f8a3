import BuildCache.Workspace.Tracking

/-!
# Freshness

An artifact is fresh while the plugins, the source and the dependencies are those of its record.
The source is compared by time and by content. A dependency whose time is unchanged passes, and so
does one with another time and the same content.
-/

namespace BuildCache

inductive StaleReason where
  | notCached
  | pluginsChanged
  | sourceUnreadable
  | sourceChanged
  | dependencyMissing (path : Path)
  | dependencyChanged (path : Path)
deriving DecidableEq

def StaleReason.message : StaleReason → String
  | .notCached => "not cached"
  | .pluginsChanged => "plugin set changed"
  | .sourceUnreadable => "source unreadable"
  | .sourceChanged => "source changed"
  | .dependencyMissing path => "dependency missing: " ++ path.display
  | .dependencyChanged path => "dependency changed: " ++ path.display

inductive Freshness where
  | fresh
  | stale (reason : StaleReason)
deriving DecidableEq

namespace Freshness

def isStale : Freshness → Bool
  | .fresh => false
  | .stale _ => true

def ofReason? : Option StaleReason → Freshness
  | none => .fresh
  | some reason => .stale reason

end Freshness

namespace FileTree

def sourceChange? (t : FileTree) (file : Path) (stamp : FileStamp) : Option StaleReason :=
  match t.timestamp file with
  | .error _ => some .sourceUnreadable
  | .ok modified =>
    if modified ≠ stamp.modified then some .sourceChanged
    else
      match t.contentHash file with
      | .error _ => some .sourceUnreadable
      | .ok hash => if hash ≠ stamp.hash then some .sourceChanged else none

def dependencyChange? (t : FileTree) (path : Path) (stamp : DependencyStamp) :
    Option StaleReason :=
  match t.timestamp path with
  | .error _ => some (.dependencyMissing path)
  | .ok modified =>
    if stamp.modified = some modified then none
    else
      match t.contentHash path with
      | .error _ => some (.dependencyMissing path)
      | .ok hash => if stamp.hash = some hash then none else some (.dependencyChanged path)

/-- The first reason why a record no longer stands for a file. -/
def staleReason? (t : FileTree) (fingerprint : Fingerprint) (file : Path) (record : CacheRecord) :
    Option StaleReason :=
  if record.fingerprint ≠ fingerprint then some .pluginsChanged
  else
    (t.sourceChange? file record.stamp).or
      (record.dependencyMap.entries.findSome? fun (path, stamp) => t.dependencyChange? path stamp)

end FileTree

namespace Workspace

def check (fingerprint : Fingerprint) (file : Path) : StateM Workspace Freshness := do
  match ← recordOf file with
  | none => return .stale .notCached
  | some record => return .ofReason? ((← currentFiles).staleReason? fingerprint file record)

/-- The stale ones among files, in their order. -/
def staleFiles (fingerprint : Fingerprint) : List Path → StateM Workspace (List Path)
  | [] => return []
  | file :: rest => do
    let freshness ← check fingerprint file
    let others ← staleFiles fingerprint rest
    return if freshness.isStale then file :: others else others

end Workspace

end BuildCache
