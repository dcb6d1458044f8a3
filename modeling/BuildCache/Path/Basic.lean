import BuildCache.Text

/-!
# Paths

A path is bytes cut into names by slashes. Its components forget repeated and trailing slashes and
every `.` but a leading one; two paths are equal as paths, and ordered, by their components, while
the spelling stays in the bytes.
-/

namespace BuildCache

/-- One entry of a directory. -/
abbrev Name := Bytes

structure Path where
  bytes : Bytes
deriving DecidableEq, Inhabited

inductive Component where
  | root
  | here
  | up
  | name (n : Name)
deriving DecidableEq

namespace Path

def slash : UInt8 := 0x2F

def dot : Name := [0x2E]

def dotDot : Name := [0x2E, 0x2E]

def ofString (s : String) : Path := ⟨Bytes.ofString s⟩

def text? (p : Path) : Option String := p.bytes.text?

def display (p : Path) : String := p.bytes.display

/-- The pieces between slashes, empty ones too. -/
def splitSlash : Bytes → List Bytes
  | [] => [[]]
  | b :: rest =>
    if b = slash then [] :: splitSlash rest
    else (b :: (splitSlash rest).headD []) :: (splitSlash rest).tail

def joinSlash (pieces : List Bytes) : Bytes := List.intercalate [slash] pieces

theorem splitSlash_ne_nil (b : Bytes) : splitSlash b ≠ [] := by
  cases b with
  | nil => simp [splitSlash]
  | cons b rest => rw [splitSlash]; split <;> simp

theorem joinSlash_splitSlash (b : Bytes) : joinSlash (splitSlash b) = b := by
  induction b with
  | nil => rfl
  | cons b rest ih =>
    rw [splitSlash]
    match h : splitSlash rest with
    | [] => exact absurd h (splitSlash_ne_nil rest)
    | piece :: pieces =>
      rw [h] at ih
      split
      · next hb => simpa [joinSlash, List.intercalate, hb] using ih
      · cases pieces <;> simpa [joinSlash, List.intercalate] using ih

def isAbsolute (p : Path) : Bool := p.bytes.head? == some slash

def endsInSlash (p : Path) : Bool := p.bytes.getLast? == some slash

/-- The names and dots between slashes, as a lookup walks them. -/
def segments (p : Path) : List Name := (splitSlash p.bytes).filter (!·.isEmpty)

def startsHere (p : Path) : Bool := (splitSlash p.bytes).head? == some dot

def innerComponents (segments : List Name) : List Component :=
  segments.filterMap fun s =>
    if s = dot then none else if s = dotDot then some .up else some (.name s)

def components (p : Path) : List Component :=
  let start := if p.isAbsolute then [.root] else if p.startsHere then [.here] else []
  start ++ innerComponents p.segments

end Path

/-- The root comes first, then `.`, then `..`, then names by their bytes. -/
def Component.orderKey : Component → Bytes
  | .root => []
  | .here => [0]
  | .up => [1]
  | .name n => 2 :: n

theorem Component.orderKey_injective {c d : Component} (h : c.orderKey = d.orderKey) : c = d := by
  cases c <;> cases d <;> simp_all [orderKey]

namespace Path

def orderKey (p : Path) : List Bytes := p.components.map Component.orderKey

instance : Ord Path := ⟨compareOn orderKey⟩

instance : Std.TransOrd Path := inferInstanceAs (Std.TransCmp (compareOn orderKey))

theorem compare_eq_iff {p q : Path} : compare p q = .eq ↔ p.components = q.components := by
  have h : compare p q = compare p.orderKey q.orderKey := rfl
  rw [h, Std.LawfulEqCmp.compare_eq_iff_eq]
  exact List.map_inj_right fun _ _ => Component.orderKey_injective

/-- Whether two spellings are one path. -/
def same (p q : Path) : Bool := p.components == q.components

def startsWith (p q : Path) : Bool := q.components.isPrefixOf p.components

/-- An absolute path replaces the base; another is put behind it with one slash between. -/
def join (base p : Path) : Path :=
  if p.isAbsolute then p
  else if base.bytes.isEmpty || base.endsInSlash then ⟨base.bytes ++ p.bytes⟩
  else ⟨base.bytes ++ slash :: p.bytes⟩

def joinString (base : Path) (s : String) : Path := base.join (ofString s)

def withSuffix (p : Path) (suffix : String) : Path := ⟨p.bytes ++ Bytes.ofString suffix⟩

def fileName? (p : Path) : Option Name :=
  match p.components.getLast? with
  | some (.name n) => some n
  | _ => none

/-- Pieces without those at the end that name nothing. -/
def trimPieces (pieces : List Bytes) : List Bytes :=
  (pieces.reverse.dropWhile fun s => s.isEmpty || s == dot).reverse

/-- The spelling up to the last component. The root and the empty path have no parent. -/
def parent? (p : Path) : Option Path :=
  let start := if p.isAbsolute || p.startsHere then 1 else 0
  match trimPieces (splitSlash (p.bytes.drop start)) with
  | [] => if !p.isAbsolute && p.startsHere then some ⟨[]⟩ else none
  | pieces => some ⟨p.bytes.take start ++ joinSlash (trimPieces pieces.dropLast)⟩

/-- The path and its parents, `n` of them at most. -/
def ancestorsUpTo : Nat → Path → List Path
  | 0, p => [p]
  | n + 1, p =>
    match p.parent? with
    | none => [p]
    | some q => p :: ancestorsUpTo n q

/-- The path, its parent, and so on up. -/
def ancestors (p : Path) : List Path := ancestorsUpTo p.bytes.length p

end Path

end BuildCache
