import BuildCache.OrderedMap
import BuildCache.Path.Basic

/-!
# Project configuration

Where the cache lives and how imports are resolved. Every setting has a default.
-/

namespace BuildCache

structure CacheSettings where
  dir : Path := .ofString ".kiln_cache"
  /-- Tables are written one entry a line, and artifacts get a suffix that editors know. -/
  debug : Bool := false
deriving DecidableEq

structure ResolveRules where
  /-- Suffixes tried where a path is not a file, in order. -/
  extensions : List String :=
    [".tsx", ".ts", ".jsx", ".mjs", ".js", ".es6", ".es", ".json"]
  /-- What stands in for the leading segments of a specifier. -/
  aliases : OrderedMap String String := .empty
  /-- Directories that hold packages: names looked for upward, or absolute paths. -/
  modules : List String := ["node_modules"]
  /-- Files that stand for their directory, without extension. -/
  mainFiles : List String := ["index"]
  /-- Manifest fields that name a package's entry file. -/
  mainFields : List String := ["module", "main"]
deriving DecidableEq

namespace ResolveRules

def isAbsoluteModule (dir : String) : Bool := (Path.ofString dir).isAbsolute

end ResolveRules

structure ProjectConfig where
  root : Path
  cache : CacheSettings := {}
  resolve : ResolveRules := {}
deriving DecidableEq

namespace ProjectConfig

/-- The cache directory, taken from the project root unless it is absolute. -/
def cacheDir (c : ProjectConfig) : Path := c.root.join c.cache.dir

end ProjectConfig

end BuildCache
