import BuildCache.Config.Basic
import BuildCache.FileTree.Basic
import BuildCache.Json.General
import BuildCache.Path.Normal

/-!
# Import resolution

Relative and absolute specifiers name a path. A bare one is rewritten by the alias that matches
most of its leading segments, or else looked for in the package directories from the importer
upward. A path stands for a file of that name, with or without an extension, or for a directory's
entry file. The first candidate that is a file wins.
-/

namespace BuildCache

/-- An import that leads to no file. -/
structure Unresolved where
  specifier : String
  importer : Path
deriving DecidableEq

def Unresolved.message (u : Unresolved) : String :=
  "unable to resolve '" ++ u.specifier ++ "' imported from " ++ u.importer.display

namespace Path

/-- Whether a path starts with `.` or `..`, and so is meant from where it stands. -/
def isDotted (p : Path) : Bool :=
  (splitSlash p.bytes).head? == some dot || (splitSlash p.bytes).head? == some dotDot

/-- A path with more segments behind it, one slash before each. -/
def joinSegments (p : Path) (segments : List Name) : Path :=
  segments.foldl (fun p s => p.join ⟨s⟩) p

/-- The directory an importer stands in; the root for a path without a parent. -/
def importDir (importer : Path) : Path := importer.parent?.getD ⟨[slash]⟩

end Path

def trimSlashes (b : Bytes) : Bytes := (b.reverse.dropWhile (· == Path.slash)).reverse

structure Resolver where
  root : Path
  rules : ResolveRules

namespace Resolver

/-- How many leading segments an alias key matches. -/
def matchLength? (key : String) (segments : List Name) : Option Nat :=
  let keySegments := (Path.ofString key).segments
  if !keySegments.isEmpty && keySegments.isPrefixOf segments then some keySegments.length else none

/-- The longest match among alias entries, the last of equally long ones. -/
def bestAlias? (segments : List Name) (entries : List (String × String)) : Option (Nat × String) :=
  entries.foldl
    (fun best (key, value) =>
      match matchLength? key segments, best with
      | none, best => best
      | some n, none => some (n, value)
      | some n, some (m, other) => some (if m ≤ n then (n, value) else (m, other)))
    none

/-- The target of an alias with the segments it did not match behind it. -/
def aliasTarget (value : String) : List Name → Path
  | [] => .ofString value
  | rest => ⟨trimSlashes (.ofString value) ++ Path.slash :: Path.joinSlash rest⟩

/-- The specifier that the aliases put in the place of a bare one. -/
def rewrite? (r : Resolver) (specifier : Path) : Option Path :=
  (bestAlias? specifier.segments r.rules.aliases.entries).map fun (n, value) =>
    aliasTarget value (specifier.segments.drop n)

/-- The spellings that a path without its extension may stand for, the path itself first. -/
def fileCandidates (r : Resolver) (p : Path) : List Path :=
  p :: r.rules.extensions.map p.withSuffix

def resolveFile? (r : Resolver) (t : FileTree) (p : Path) : Option Path :=
  (r.fileCandidates p).find? t.isFile

def resolveMainFile? (r : Resolver) (t : FileTree) (dir : Path) : Option Path :=
  r.rules.mainFiles.findSome? fun name => r.resolveFile? t (dir.joinString name)

def manifestName : String := "package.json"

/-- The manifest of a package directory, if it is a JSON document. -/
def manifest? (t : FileTree) (dir : Path) : Option Json :=
  let file := dir.joinString manifestName
  if t.isFile file then (t.readText? file).bind Json.parseGeneral? else none

/-- The paths that a manifest's entry fields name, in the order of the fields. -/
def entryPaths (r : Resolver) (dir : Path) (manifest : Json) : List Path :=
  r.rules.mainFields.filterMap fun field =>
    match (manifest.field? field).bind Json.string? with
    | some entry => if entry.isEmpty then none else some (dir.joinString entry).normalize
    | none => none

def resolveEntry? (r : Resolver) (t : FileTree) (entry : Path) : Option Path :=
  (r.resolveFile? t entry).or (if t.isDirectory entry then r.resolveMainFile? t entry else none)

def resolveManifest? (r : Resolver) (t : FileTree) (dir : Path) : Option Path :=
  (manifest? t dir).bind fun manifest => (r.entryPaths dir manifest).findSome? (r.resolveEntry? t)

def resolveDirectory? (r : Resolver) (t : FileTree) (dir : Path) : Option Path :=
  (r.resolveManifest? t dir).or (r.resolveMainFile? t dir)

def resolvePath? (r : Resolver) (t : FileTree) (p : Path) : Option Path :=
  (r.resolveFile? t p).or (if t.isDirectory p then r.resolveDirectory? t p else none)

/-- The directories that may hold packages for an importer, the first choice first. -/
def packageDirs (r : Resolver) (importer : Path) : List Path :=
  r.rules.modules.flatMap fun dir =>
    if ResolveRules.isAbsoluteModule dir then [.ofString dir]
    else importer.importDir.ancestors.map (·.joinString dir)

def resolveModule? (r : Resolver) (t : FileTree) (importer specifier : Path) : Option Path :=
  if specifier.segments.isEmpty then none
  else
    ((r.packageDirs importer).filter t.isDirectory).findSome? fun dir =>
      r.resolvePath? t (dir.joinSegments specifier.segments).normalize

/-- Resolves what an alias put in the place of a specifier. A target with dots is meant from the
project root; a bare one is not rewritten again. -/
def resolveTarget? (r : Resolver) (t : FileTree) (importer target : Path) : Option Path :=
  if target.isAbsolute then r.resolvePath? t target.normalize
  else if target.isDotted then r.resolvePath? t (r.root.join target).normalize
  else r.resolveModule? t importer target

def resolve? (r : Resolver) (t : FileTree) (importer specifier : Path) : Option Path :=
  if specifier.isDotted then r.resolvePath? t (importer.importDir.join specifier).normalize
  else if specifier.isAbsolute then r.resolvePath? t specifier.normalize
  else
    match r.rewrite? specifier with
    | some target => r.resolveTarget? t importer target
    | none => r.resolveModule? t importer specifier

/-- The file that a specifier in an importer stands for. -/
def resolve (r : Resolver) (t : FileTree) (importer : Path) (specifier : String) :
    Except Unresolved Path :=
  match r.resolve? t importer (.ofString specifier) with
  | some p => .ok p
  | none => .error ⟨specifier, importer⟩

end Resolver

def ProjectConfig.resolver (c : ProjectConfig) : Resolver := ⟨c.root, c.resolve⟩

end BuildCache
