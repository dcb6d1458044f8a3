import BuildCache.OrderedMap
import BuildCache.Path.Basic

/-!
# File trees

A file tree maps locations to files and directories. Every location that holds something lies in a
directory, and this is part of the type. Lookups walk a path name by name from the root, whether
the path is absolute or not.
-/

namespace BuildCache

inductive FileError where
  | notFound
  | alreadyExists
  | notDirectory
  | isDirectory
  | nameTooLong
  | nulByte
  | busy
  | invalidMove
  | notEmpty
  | other (text : String)
deriving DecidableEq

def FileError.message : FileError → String
  | .notFound => "No such file or directory (os error 2)"
  | .alreadyExists => "File exists (os error 17)"
  | .notDirectory => "Not a directory (os error 20)"
  | .isDirectory => "Is a directory (os error 21)"
  | .nameTooLong => "File name too long (os error 36)"
  | .nulByte => "file name contained an unexpected NUL byte"
  | .busy => "Device or resource busy (os error 16)"
  | .invalidMove => "Invalid argument (os error 22)"
  | .notEmpty => "Directory not empty (os error 39)"
  | .other text => text

/-- What a location holds. Times are nanoseconds since the epoch. -/
inductive Entry where
  | file (content : Bytes) (modified : Int)
  | directory (modified : Int)
deriving DecidableEq

namespace Entry

def isDirectory : Entry → Bool
  | .directory _ => true
  | .file _ _ => false

def content? : Entry → Option Bytes
  | .file content _ => some content
  | .directory _ => none

def modified : Entry → Int
  | .file _ modified => modified
  | .directory modified => modified

def withModified (modified : Int) : Entry → Entry
  | .file content _ => .file content modified
  | .directory _ => .directory modified

end Entry

/-- The names that lead to a place, the innermost first. The root is the empty list. -/
abbrev Location := List Name

def hasDirectory (entries : OrderedMap Location Entry) : Location → Bool
  | [] => true
  | l => (entries.get? l).any Entry.isDirectory

structure FileTree where
  entries : OrderedMap Location Entry
  /-- When the root was last changed. -/
  rootModified : Int
  /-- The time given to whatever is changed next. -/
  now : Int
  closed : ∀ n l, entries.contains (n :: l) = true → hasDirectory entries l = true
deriving DecidableEq

namespace FileTree

def empty (now : Int) : FileTree :=
  ⟨.empty, now, now, by simp [OrderedMap.contains, OrderedMap.get?_empty]⟩

/-- Lets time pass. -/
def wait (t : FileTree) (nanoseconds : Int) : FileTree := { t with now := t.now + nanoseconds }

def isDirectoryAt (t : FileTree) (l : Location) : Bool := hasDirectory t.entries l

def entry? (t : FileTree) : Location → Option Entry
  | [] => some (.directory t.rootModified)
  | l => t.entries.get? l

theorem closed_insert {t : FileTree} {n : Name} {l : Location} {e : Entry}
    (hdir : hasDirectory t.entries l = true)
    (hkind : e.isDirectory = true ∨ hasDirectory t.entries (n :: l) = false) (n' : Name)
    (l' : Location) (h : (t.entries.insert (n :: l) e).contains (n' :: l') = true) :
    hasDirectory (t.entries.insert (n :: l) e) l' = true := by
  have hl' : hasDirectory t.entries l' = true := by
    rw [OrderedMap.contains, OrderedMap.get?_insert] at h
    split at h
    · next heq =>
      obtain ⟨-, rfl⟩ := List.cons.inj (Std.LawfulEqCmp.compare_eq_iff_eq.mp heq)
      exact hdir
    · exact t.closed n' l' h
  cases l' with
  | nil => rfl
  | cons m l' =>
    simp only [hasDirectory, OrderedMap.get?_insert]
    split
    · next heq =>
      rw [Std.LawfulEqCmp.compare_eq_iff_eq] at heq
      rw [heq] at hl'
      rcases hkind with hkind | hkind
      · simp [hkind]
      · simp [hkind] at hl'
    · exact hl'

/-- Puts an entry at a location inside a directory. A file does not replace a directory, and of the
root only the time changes; where the entry has no place, nothing changes. -/
def place (t : FileTree) : Location → Entry → FileTree
  | [], e => { t with rootModified := e.modified }
  | n :: l, e =>
    if h : hasDirectory t.entries l = true ∧
        (e.isDirectory = true ∨ hasDirectory t.entries (n :: l) = false) then
      { t with entries := t.entries.insert (n :: l) e, closed := closed_insert h.1 h.2 }
    else t

theorem closed_filter {t : FileTree} {l : Location} (n' : Name) (l' : Location)
    (h : (t.entries.filter fun k _ => !l.isSuffixOf k).contains (n' :: l') = true) :
    hasDirectory (t.entries.filter fun k _ => !l.isSuffixOf k) l' = true := by
  have hget (k : Location) : (t.entries.filter fun k _ => !l.isSuffixOf k).get? k =
      if l.isSuffixOf k then none else t.entries.get? k := by
    rw [OrderedMap.get?_filter]
    cases hk : l.isSuffixOf k <;> cases t.entries.get? k <;> simp [Option.filter]
  rw [OrderedMap.contains, hget] at h
  split at h
  · contradiction
  · next hk =>
    have hl' := t.closed n' l' h
    cases l' with
    | nil => rfl
    | cons m l' =>
      have hm : l.isSuffixOf (m :: l') = false := by
        rw [Bool.eq_false_iff]
        intro hm
        rw [List.isSuffixOf_iff_suffix] at hm hk
        exact hk (hm.trans (List.suffix_cons _ _))
      rw [hasDirectory, hget, hm]
      · exact hl'
      · simp

/-- Removes a location and everything below it. The root itself stays. -/
def prune (t : FileTree) (l : Location) : FileTree :=
  { t with entries := t.entries.filter fun k _ => !l.isSuffixOf k, closed := closed_filter }

def maxNameLength : Nat := 255

def maxPathLength : Nat := 4095

/-- Follows names from a location. Each step needs a directory to start from. -/
def walk (t : FileTree) : Location → List Name → Except FileError Location
  | l, [] => .ok l
  | l, s :: rest =>
    if !t.isDirectoryAt l then .error .notDirectory
    else if s = Path.dot then t.walk l rest
    else if s = Path.dotDot then t.walk l.tail rest
    else if maxNameLength < s.length then .error .nameTooLong
    else if (t.entry? (s :: l)).isNone then .error .notFound
    else t.walk (s :: l) rest

/-- What is wrong with a path whatever the tree holds. -/
def checkSpelling (p : Path) : Except FileError Unit :=
  if p.bytes.contains 0 then .error .nulByte
  else if maxPathLength < p.bytes.length then .error .nameTooLong
  else if p.bytes.isEmpty then .error .notFound
  else .ok ()

/-- Finds what a path leads to. A path that ends in a slash leads to a directory only. -/
def locate (t : FileTree) (p : Path) : Except FileError Location := do
  checkSpelling p
  let l ← t.walk [] p.segments
  if p.endsInSlash && !t.isDirectoryAt l then .error .notDirectory else .ok l

def stat (t : FileTree) (p : Path) : Except FileError Entry := do
  match t.entry? (← t.locate p) with
  | some e => .ok e
  | none => .error .notFound

def isFile (t : FileTree) (p : Path) : Bool :=
  match t.stat p with
  | .ok e => !e.isDirectory
  | .error _ => false

def isDirectory (t : FileTree) (p : Path) : Bool :=
  match t.stat p with
  | .ok e => e.isDirectory
  | .error _ => false

/-- Whether something is there; a lookup that fails for another reason leaves that open. -/
def exists? (t : FileTree) (p : Path) : Except FileError Bool :=
  match t.stat p with
  | .ok _ => .ok true
  | .error .notFound => .ok false
  | .error e => .error e

def read (t : FileTree) (p : Path) : Except FileError Bytes := do
  match ← t.stat p with
  | .file content _ => .ok content
  | .directory _ => .error .isDirectory

/-- A file's content, where it can be read and is text. -/
def readText? (t : FileTree) (p : Path) : Option String :=
  match t.read p with
  | .ok content => content.text?
  | .error _ => none

def modified (t : FileTree) (p : Path) : Except FileError Int := do
  .ok (← t.stat p).modified

/-- The names in the directory at a location. -/
def childrenAt (t : FileTree) (l : Location) : List Name :=
  t.entries.keys.filterMap fun
    | n :: parent => if parent = l then some n else none
    | [] => none

/-- Everything below a path, sorted by spelling; directories have no content. -/
def listing (t : FileTree) (p : Path) : List (Path × Option Bytes) :=
  match t.locate p with
  | .error _ => []
  | .ok l =>
    let below := t.entries.entries.filterMap fun (k, e) =>
      if l.isSuffixOf k && k != l then
        let names := (k.take (k.length - l.length)).reverse
        some (p.join ⟨Path.joinSlash names⟩, e.content?)
      else none
    below.mergeSort fun a b => (compare a.1.bytes b.1.bytes).isLE

end FileTree

end BuildCache
