import BuildCache.FileTree.Basic

/-!
# Store errors
-/

namespace BuildCache

inductive StoreError where
  | io (path : Path) (cause : FileError)
  | corruptRecord (path : Path) (reason : String)
  | serialization (reason : String)
  | notCached (path : Path)
  | nonTextPath (path : Path)
deriving DecidableEq

namespace StoreError

def message : StoreError → String
  | .io path cause => "cache I/O error at " ++ path.display ++ ": " ++ cause.message
  | .corruptRecord path reason => "corrupt cache record " ++ path.display ++ ": " ++ reason
  | .serialization reason => "serialization error: " ++ reason
  | .notCached path => "no cache record for " ++ path.display
  | .nonTextPath path => "path is not valid UTF-8: " ++ path.display

/-- Why a table cannot be written: only text can be a key. -/
def nonTextKey : StoreError := .serialization "path contains invalid UTF-8 characters"

/-- Accepts paths that tables can hold, and names the first of the others. -/
def ensureText (paths : List Path) : Except StoreError Unit :=
  match paths.find? (·.text?.isNone) with
  | some p => .error (.nonTextPath p)
  | none => .ok ()

end StoreError

end BuildCache
