import BuildCache.Store.Replace

/-!
# The layout of a cache directory

A marker with the version that wrote the cache, two tables, and a directory for records and
artifacts. Other files in the cache directory are left alone.
-/

namespace BuildCache

/-- Where the parts of a cache lie. -/
structure Layout where
  dir : Path
deriving DecidableEq

namespace Layout

def marker (layout : Layout) : Path := layout.dir.joinString "version"

def ids (layout : Layout) : Path := layout.dir.joinString "cache_id_map.json"

def dependents (layout : Layout) : Path := layout.dir.joinString "dependents_data.json"

def files (layout : Layout) : Path := layout.dir.joinString "files"

/-- Removes files in order, as far as they are there. -/
def clearFiles (t : FileTree) : List Path → Except StoreError Unit × FileTree
  | [] => (.ok (), t)
  | p :: rest =>
    match t.removeFile p with
    | .ok t => clearFiles t rest
    | .error .notFound => clearFiles t rest
    | .error e => (.error (.io p e), t)

/-- Removes all parts, the marker first. -/
def clear (layout : Layout) (t : FileTree) : Except StoreError Unit × FileTree :=
  match clearFiles t [layout.marker, layout.ids, layout.dependents] with
  | (.error e, t) => (.error e, t)
  | (.ok (), t) =>
    match t.removeTree layout.files with
    | (.ok (), t) => (.ok (), t)
    | (.error .notFound, t) => (.ok (), t)
    | (.error e, t) => (.error (.io layout.files e), t)

end Layout

end BuildCache
