import BuildCache.Digest.ContentHash
import BuildCache.FileTree.Basic
import BuildCache.Fingerprint
import BuildCache.Path.Map

/-!
# Stamps and records

A stamp pairs a file's content hash with the time of its last change. A record is what the cache
knows about one compiled source: its stamp, the plugins it was compiled with, and the stamps of
its dependencies at that time.
-/

namespace BuildCache

/-- Milliseconds since the epoch. -/
abbrev Timestamp := UInt64

/-- A time in whole milliseconds, the epoch for times before it. -/
def Timestamp.ofNanoseconds (n : Int) : Timestamp :=
  if n < 0 then 0 else .ofNat (n.toNat / 1000000)

structure FileStamp where
  hash : ContentHash
  modified : Timestamp
deriving DecidableEq

/-- The stamp of a dependency; both parts are missing if it could not be read. -/
structure DependencyStamp where
  hash : Option ContentHash := none
  modified : Option Timestamp := none
deriving DecidableEq

structure CacheRecord where
  stamp : FileStamp
  fingerprint : Fingerprint
  dependencies : Option (PathMap DependencyStamp) := none
deriving DecidableEq

namespace CacheRecord

def dependencyMap (r : CacheRecord) : PathMap DependencyStamp := r.dependencies.getD .empty

def dependencySet (r : CacheRecord) : PathSet := r.dependencyMap.keySet

def dependencyPaths (r : CacheRecord) : List Path := r.dependencyMap.keys

/-- A record with these dependencies; one without any does not list them. -/
def withDependencies (r : CacheRecord) (deps : PathMap DependencyStamp) : CacheRecord :=
  { r with dependencies := if deps.isEmpty then none else some deps }

end CacheRecord

namespace FileTree

def timestamp (t : FileTree) (p : Path) : Except FileError Timestamp := do
  return .ofNanoseconds (← t.modified p)

def contentHash (t : FileTree) (p : Path) : Except FileError ContentHash := do
  return .ofBytes (← t.read p)

def stamp (t : FileTree) (p : Path) : Except FileError FileStamp := do
  let modified ← t.timestamp p
  return ⟨← t.contentHash p, modified⟩

def dependencyStamp (t : FileTree) (p : Path) : DependencyStamp :=
  match t.stamp p with
  | .ok s => ⟨some s.hash, some s.modified⟩
  | .error _ => {}

/-- The stamps of a set of files as they are now. -/
def snapshot (t : FileTree) (paths : PathSet) : PathMap DependencyStamp :=
  paths.map fun p _ => t.dependencyStamp p

end FileTree

end BuildCache
