import BuildCache.Config.Basic
import BuildCache.Path.Normal

/-!
# Valid configurations

A configuration that is read from a file must have usable names everywhere, and its cache
directory must not hold the project: what lies in the cache layout is deleted when the version
changes.
-/

namespace BuildCache

inductive Violation where
  | extension (ext : String)
  | aliasKey (key : String)
  | moduleName
  | mainFileName
  | emptyCacheDir
  | cacheDirHoldsProject (dir : Path)
deriving DecidableEq

def Violation.message : Violation → String
  | .extension ext => "extension '" ++ ext ++ "' must start with '.'"
  | .aliasKey key => "alias key '" ++ key ++ "' must not be empty"
  | .moduleName => "module directory names must not be empty"
  | .mainFileName => "main file names must not be empty"
  | .emptyCacheDir => "cache.dir must not be empty"
  | .cacheDirHoldsProject dir =>
    "cache.dir '" ++ dir.display ++ "' must not be the project root or one of its parents"

namespace ProjectConfig

/-- A dot with something behind it. -/
def isExtension (ext : String) : Bool :=
  match ext.toList with
  | '.' :: _ :: _ => true
  | _ => false

/-- The first rule that a configuration breaks. -/
def violation? (c : ProjectConfig) : Option Violation :=
  match c.resolve.extensions.find? (!isExtension ·) with
  | some ext => some (.extension ext)
  | none =>
    match c.resolve.aliases.keys.find? (·.isEmpty) with
    | some key => some (.aliasKey key)
    | none =>
      if c.resolve.modules.any (·.isEmpty) then some .moduleName
      else if c.resolve.mainFiles.any (·.isEmpty) then some .mainFileName
      else if c.cache.dir.bytes.isEmpty then some .emptyCacheDir
      else if c.root.normalizeWithin.startsWith c.cacheDir.normalizeWithin then
        some (.cacheDirHoldsProject c.cache.dir)
      else none

end ProjectConfig

end BuildCache
