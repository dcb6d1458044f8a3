import BuildCache.OrderedMap
import BuildCache.Path.Basic

/-!
# Maps and sets of paths

Keys are paths, so spellings with equal components share an entry.
-/

namespace BuildCache

abbrev PathMap (α : Type) := OrderedMap Path α

abbrev PathSet := OrderedMap Path Unit

namespace PathSet

def toList (s : PathSet) : List Path := s.keys

def add (s : PathSet) (p : Path) : PathSet := s.insert p ()

def ofList (ps : List Path) : PathSet := ps.foldl add .empty

/-- Members that another set lacks. -/
def without (s t : PathSet) : PathSet := s.filter fun p _ => !t.contains p

end PathSet

def PathMap.keySet {α : Type} (m : PathMap α) : PathSet := m.map fun _ _ => ()

end BuildCache
