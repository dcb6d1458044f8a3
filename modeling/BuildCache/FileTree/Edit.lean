import BuildCache.FileTree.Basic

/-!
# Changing a file tree

Each change succeeds with the new tree or fails with a cause and leaves the tree alone. Those that
can fail halfway answer with the tree they left. A directory is changed when a name in it appears,
goes, or stands for another entry.
-/

namespace BuildCache.FileTree

/-- Where a path would put its last name: the directory and the name, which a path that ends in
the root, `.` or `..` does not have. -/
def target (t : FileTree) (p : Path) : Except FileError (Option Name × Location) := do
  checkSpelling p
  let l ← t.walk [] p.segments.dropLast
  if !t.isDirectoryAt l then .error .notDirectory
  else
    match p.segments.getLast? with
    | none => .ok (none, l)
    | some s =>
      if s = Path.dot ∨ s = Path.dotDot then .ok (none, l)
      else if maxNameLength < s.length then .error .nameTooLong
      else .ok (some s, l)

/-- Gives a directory the present time. -/
def stampDirectory (t : FileTree) (l : Location) : FileTree := t.place l (.directory t.now)

/-- Puts a new entry into a directory. -/
def addEntry (t : FileTree) (n : Name) (l : Location) (e : Entry) : FileTree :=
  (t.place (n :: l) e).stampDirectory l

/-- Removes an entry of a directory and everything below it. -/
def dropEntry (t : FileTree) (n : Name) (l : Location) : FileTree :=
  (t.prune (n :: l)).stampDirectory l

/-- Creates a file or replaces its content. -/
def write (t : FileTree) (p : Path) (content : Bytes) : Except FileError FileTree := do
  match ← t.target p with
  | (none, _) => .error .isDirectory
  | (some n, l) =>
    if p.endsInSlash || t.isDirectoryAt (n :: l) then .error .isDirectory
    else if (t.entry? (n :: l)).isSome then .ok (t.place (n :: l) (.file content t.now))
    else .ok (t.addEntry n l (.file content t.now))

/-- Creates a file where nothing is. -/
def createFile (t : FileTree) (p : Path) (content : Bytes) : Except FileError FileTree := do
  match ← t.target p with
  | (none, _) => .error .isDirectory
  | (some n, l) =>
    if p.endsInSlash then .error .isDirectory
    else if (t.entry? (n :: l)).isSome then .error .alreadyExists
    else .ok (t.addEntry n l (.file content t.now))

def createDirectory (t : FileTree) (p : Path) : Except FileError FileTree := do
  match ← t.target p with
  | (none, _) => .error .alreadyExists
  | (some n, l) =>
    if (t.entry? (n :: l)).isSome then .error .alreadyExists
    else .ok (t.addEntry n l (.directory t.now))

/-- Creates the first of a path and its ancestors, after those of the others that are missing. -/
def createFirst (t : FileTree) : List Path → Except FileError Unit × FileTree
  | [] => (.ok (), t)
  | p :: above =>
    if p.bytes.isEmpty || above.isEmpty then (.ok (), t)
    else
      match t.createDirectory p with
      | .ok t => (.ok (), t)
      | .error .notFound =>
        match t.createFirst above with
        | (.error e, t) => (.error e, t)
        | (.ok (), t) =>
          match t.createDirectory p with
          | .ok t => (.ok (), t)
          | .error e => (if t.isDirectory p then .ok () else .error e, t)
      | .error e => (if e = .alreadyExists ∧ t.isDirectory p then .ok () else .error e, t)

/-- Creates a directory and its missing ancestors. The ones made before a failure stay. -/
def createDirectories (t : FileTree) (p : Path) : Except FileError Unit × FileTree :=
  t.createFirst p.ancestors

def removeFile (t : FileTree) (p : Path) : Except FileError FileTree := do
  match ← t.target p with
  | (none, _) => .error .isDirectory
  | (some n, l) =>
    match t.entry? (n :: l) with
    | none => .error .notFound
    | some (.directory _) => .error .isDirectory
    | some (.file _ _) => if p.endsInSlash then .error .notDirectory else .ok (t.dropEntry n l)

/-- Removes an empty directory, which must be called by its name. -/
def removeDirectory (t : FileTree) (p : Path) : Except FileError FileTree := do
  match ← t.target p with
  | (none, _) => .error .busy
  | (some n, l) =>
    match t.entry? (n :: l) with
    | none => .error .notFound
    | some (.file _ _) => .error .notDirectory
    | some (.directory _) =>
      if (t.childrenAt (n :: l)).isEmpty then .ok (t.dropEntry n l) else .error .notEmpty

/-- Removes what a directory holds. -/
def emptyDirectory (t : FileTree) (l : Location) : FileTree :=
  (t.childrenAt l).foldl (fun t n => t.dropEntry n l) t

/-- Removes a directory with all it holds. The directory is emptied first and then looked up again:
a path that led through what it held finds nothing any more, and the empty directory stays. -/
def removeTree (t : FileTree) (p : Path) : Except FileError Unit × FileTree :=
  match t.locate p with
  | .error e => (.error e, t)
  | .ok l =>
    if !t.isDirectoryAt l then (.error .notDirectory, t)
    else
      let emptied := t.emptyDirectory l
      match emptied.removeDirectory p with
      | .ok t => (.ok (), t)
      | .error .notFound => (.ok (), emptied)
      | .error e => (.error e, emptied)

/-- Moves an entry and everything below it to another location, the shallow ones first. -/
def relocate (t : FileTree) (l m : Location) : FileTree :=
  let moved := (t.entries.entries.filter fun e => l.isSuffixOf e.1).map fun e =>
    (e.1.take (e.1.length - l.length) ++ m, e.2)
  let moved := moved.mergeSort fun a b => a.1.length ≤ b.1.length
  let cleared := (t.prune l).prune m
  let placed := moved.foldl (fun t e => t.place e.1 e.2) cleared
  (placed.stampDirectory l.tail).stampDirectory m.tail

/-- Moves a file or directory. A file replaces a file, a directory an empty directory. -/
def rename (t : FileTree) (source target : Path) : Except FileError FileTree := do
  match ← t.target source, ← t.target target with
  | (some n, l), (some m, k) =>
    match t.entry? (n :: l), t.entry? (m :: k) with
    | none, _ => .error .notFound
    | some (.file _ _), there =>
      if source.endsInSlash || target.endsInSlash then .error .notDirectory
      else if n :: l = m :: k then .ok t
      else if there.any Entry.isDirectory then .error .isDirectory
      else .ok (t.relocate (n :: l) (m :: k))
    | some (.directory _), there =>
      if n :: l = m :: k then .ok t
      else if (n :: l).isSuffixOf (m :: k) then .error .invalidMove
      else if there.any (!·.isDirectory) then .error .notDirectory
      else if !(t.childrenAt (m :: k)).isEmpty then .error .notEmpty
      else .ok (t.relocate (n :: l) (m :: k))
  | _, _ => .error .busy

/-- Sets the time of the last change. -/
def touch (t : FileTree) (p : Path) (modified : Int) : Except FileError FileTree := do
  let l ← t.locate p
  match t.entry? l with
  | some e => .ok (t.place l (e.withModified modified))
  | none => .error .notFound

end BuildCache.FileTree
