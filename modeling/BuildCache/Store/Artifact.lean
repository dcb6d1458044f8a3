import BuildCache.CacheId
import BuildCache.Store.Replace

/-!
# Artifacts

An artifact is the compiled code of one source, perhaps with a source map, in files named for the
source's id.
-/

namespace BuildCache

structure Artifact where
  code : String
  sourceMap : Option String := none
deriving DecidableEq

/-- Where artifacts are kept. In debug mode the name of a code file ends in `.js`. -/
structure ArtifactStore where
  dir : Path
  debug : Bool
deriving DecidableEq

namespace ArtifactStore

def path (s : ArtifactStore) (id : CacheId) : Path :=
  s.dir.joinString (if s.debug then id.text ++ ".js" else id.text)

def sourceMapPath (s : ArtifactStore) (id : CacheId) : Path := (s.path id).withSuffix ".map"

/-- Writes the code and then the source map; without one, an old source map is dropped. -/
def write (s : ArtifactStore) (t : FileTree) (id : CacheId) (a : Artifact) :
    Except StoreError Unit × FileTree :=
  match t.replace (s.path id) (.ofString a.code) with
  | (.error e, t) => (.error e, t)
  | (.ok (), t) =>
    match a.sourceMap with
    | some sourceMap => t.replace (s.sourceMapPath id) (.ofString sourceMap)
    | none => (.ok (), t.discard (s.sourceMapPath id))

def read? (s : ArtifactStore) (t : FileTree) (id : CacheId) : Option Artifact :=
  (t.readText? (s.path id)).map fun code => ⟨code, t.readText? (s.sourceMapPath id)⟩

def remove (s : ArtifactStore) (t : FileTree) (id : CacheId) : FileTree :=
  (t.discard (s.path id)).discard (s.sourceMapPath id)

/-- Whether a file name belongs to a live id: the part before its first dot tells. -/
def isLiveName (live : List CacheId) (name : String) : Bool :=
  match CacheId.ofString? (.ofList (name.toList.takeWhile (· != '.'))) with
  | some id => live.contains id
  | none => false

/-- Removes the files among names that belong to no live id, counting them. -/
def collectNames (s : ArtifactStore) (live : List CacheId) (count : Nat) (t : FileTree) :
    List Name → Except StoreError Nat × FileTree
  | [] => (.ok count, t)
  | name :: rest =>
    let p := s.dir.join ⟨name⟩
    match Bytes.text? name with
    | none => s.collectNames live count t rest
    | some text =>
      if isLiveName live text || !t.isFile p then s.collectNames live count t rest
      else
        match t.removeFile p with
        | .ok t => s.collectNames live (count + 1) t rest
        | .error e => (.error (.io p e), t)

/-- Removes the files that belong to no live id, and answers how many. -/
def collect (s : ArtifactStore) (t : FileTree) (live : List CacheId) :
    Except StoreError Nat × FileTree :=
  match t.locate s.dir with
  | .error _ => (.ok 0, t)
  | .ok l =>
    if t.isDirectoryAt l then s.collectNames live 0 t (t.childrenAt l)
    else (.error (.io s.dir .notDirectory), t)

end ArtifactStore

end BuildCache
