import BuildCache.Record.Json

/-!
# The reverse index

For each dependency the files that import it. A dependency whose last file goes, goes too.
-/

namespace BuildCache.Dependents

/-- The files that import a dependency. -/
def filesOf (d : Dependents) (dependency : Path) : PathSet := (d.get? dependency).getD .empty

def addEdge (d : Dependents) (file dependency : Path) : Dependents :=
  d.insert dependency ((d.filesOf dependency).add file)

def removeEdge (d : Dependents) (file dependency : Path) : Dependents :=
  match d.get? dependency with
  | none => d
  | some files =>
    let others := files.erase file
    if others.isEmpty then d.erase dependency else d.insert dependency others

/-- Moves a file from one set of dependencies to another. -/
def update (d : Dependents) (file : Path) (previous next : PathSet) : Dependents :=
  let removed := (previous.without next).toList.foldl (removeEdge · file) d
  (next.without previous).toList.foldl (addEdge · file) removed

/-- Whether some dependency lists a file. -/
def mentions (d : Dependents) (file : Path) : Bool := d.values.any (·.contains file)

/-- Takes a file out of every entry, and drops the entries without files. -/
def forget (d : Dependents) (file : Path) : Dependents :=
  (d.map fun _ files => files.erase file).filter fun _ files => !files.isEmpty

end BuildCache.Dependents
