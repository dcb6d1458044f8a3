import BuildCache.Path.Basic

/-!
# Lexical normal forms

Both normal forms drop `.` and let `..` take back the name before it, without looking at any
directory. They differ on a relative path that climbs above its start.
-/

namespace BuildCache

namespace Component

def text : Component → Bytes
  | .root => []
  | .here => Path.dot
  | .up => Path.dotDot
  | .name n => n

end Component

namespace Path

/-- The plainest spelling of a list of components. -/
def ofComponents : List Component → Path
  | .root :: rest => ⟨slash :: joinSlash (rest.map Component.text)⟩
  | components => ⟨joinSlash (components.map Component.text)⟩

/-- Adds a component to a stack, top first: `..` takes back a name, stays at the root, and is
kept where there is nothing to take back. -/
def settle : List Component → Component → List Component
  | stack, .here => stack
  | .name _ :: stack, .up => stack
  | .root :: stack, .up => .root :: stack
  | stack, c => c :: stack

def normalComponents (p : Path) : List Component := (p.components.foldl settle []).reverse

def normalize (p : Path) : Path := ofComponents p.normalComponents

/-- As `settle`, but `..` with nothing to take back vanishes. -/
def settleWithin : List Component → Component → List Component
  | stack, .here => stack
  | [], .up => []
  | .root :: stack, .up => .root :: stack
  | _ :: stack, .up => stack
  | stack, c => c :: stack

/-- The normal form that never climbs above the start of a relative path. -/
def normalizeWithin (p : Path) : Path :=
  ofComponents (p.components.foldl settleWithin []).reverse

end Path

end BuildCache
