import BuildCache.FileTree.Edit
import BuildCache.Store.Error

/-!
# Replacing a file whole

New content is written to a temporary file beside its place and moved there, so a reader sees the
old content or the new, never a part.
-/

namespace BuildCache.FileTree

/-- The directory that holds a path. -/
def holdingDir (p : Path) : Path :=
  match p.parent? with
  | some parent => if parent.bytes.isEmpty then ⟨Path.dot⟩ else parent
  | none => ⟨Path.dot⟩

/-- A temporary file of a path, told from others by a mark. -/
def temporary (p : Path) (mark : String) : Path :=
  (holdingDir p).join ⟨p.fileName?.getD p.bytes ++ Bytes.ofString (".tmp." ++ mark)⟩

/-- The mark of a temporary file: the number of the writer and that of the attempt. -/
def temporaryMark (attempt : Nat) : String := "1." ++ toString attempt

/-- The first temporary file of a path that is not taken. -/
def freshTemporary (t : FileTree) (p : Path) : Path :=
  let candidates := (List.range (t.entries.size + 1)).map (temporary p ∘ temporaryMark)
  (candidates.find? fun q => (t.stat q).toOption.isNone).getD (temporary p (temporaryMark 0))

/-- Makes a directory that files are to be written in. -/
def prepare (t : FileTree) (dir : Path) : Except StoreError Unit × FileTree :=
  match t.createDirectories dir with
  | (.ok (), t) => (.ok (), t)
  | (.error e, t) => (.error (.io dir e), t)

/-- Replaces a file, after making the directories it needs. An error of a temporary file is
reported with a star for its number. -/
def replace (t : FileTree) (p : Path) (content : Bytes) : Except StoreError Unit × FileTree :=
  match t.prepare (holdingDir p) with
  | (.error e, t) => (.error e, t)
  | (.ok (), t) =>
    let temp := t.freshTemporary p
    match t.createFile temp content with
    | .error e => (.error (.io (temporary p "*") e), t)
    | .ok t =>
      match t.rename temp p with
      | .ok t => (.ok (), t)
      | .error e =>
        match t.removeFile temp with
        | .ok t => (.error (.io p e), t)
        | .error _ => (.error (.io p e), t)

/-- Removes a file if it is there and can be removed. -/
def discard (t : FileTree) (p : Path) : FileTree :=
  match t.removeFile p with
  | .ok t => t
  | .error _ => t

end BuildCache.FileTree
