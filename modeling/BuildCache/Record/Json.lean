import BuildCache.CacheId
import BuildCache.Json.Reader
import BuildCache.Json.Writer
import BuildCache.Record.Basic

/-!
# Tables and records as JSON

What is kept on disk is JSON. Writing fails only on a path that is not text.
-/

namespace BuildCache

/-- The ids of the tracked source paths. -/
abbrev IdTable := PathMap CacheId

/-- For each dependency the files that import it. -/
abbrev Dependents := PathMap PathSet

/-- Values with a JSON form. -/
class JsonForm (α : Type) where
  ofJson? : Json → Option α
  toJson? : α → Option Json

namespace JsonForm

variable {α : Type} [JsonForm α]

def parse? (text : String) : Option α := (Json.parse? text).bind ofJson?

def render? (pretty : Bool) (a : α) : Option String := (toJson? a).map (Json.render pretty)

instance : JsonForm ContentHash where
  ofJson? v := v.string?.bind ContentHash.ofString?
  toJson? h := some (.ofString h.text)

instance : JsonForm CacheId where
  ofJson? v := v.string?.bind CacheId.ofString?
  toJson? id := some (.ofString id.text)

instance : JsonForm Timestamp where
  ofJson? v := v.word?.map .ofNat
  toJson? n := some (.ofNat n.toNat)

instance : JsonForm Path where
  ofJson? v := v.string?.map .ofString
  toJson? p := p.text?.map .ofString

/-- An object whose keys are paths. -/
instance : JsonForm (PathMap α) where
  ofJson? v := do
    let entries ← (← v.entries?).mapM fun (key, v) => (ofJson? v).map (Path.ofString key, ·)
    return .ofList entries
  toJson? m := do
    let fields ← m.entries.mapM fun (p, a) => do return (some (← p.text?), ← toJson? a)
    return .object fields

/-- An array of paths. -/
instance : JsonForm PathSet where
  ofJson? v := do return PathSet.ofList (← (← v.items?).mapM ofJson?)
  toJson? s := (s.toList.mapM toJson?).map .array

/-- The fields of a record that are present. -/
def present (fields : List (String × Option Json)) : Json :=
  .object (fields.filterMap fun (name, v) => v.map (some name, ·))

def required? (v : Option Json) : Option α := v.bind ofJson?

/-- The form of a value that may be missing. -/
def optional? : Option α → Option (Option Json)
  | none => some none
  | some a => (toJson? a).map some

instance : JsonForm FileStamp where
  ofJson? v := do
    match ← v.fields? ["hash", "mtime"] with
    | [hash, modified] => return ⟨← required? hash, ← required? modified⟩
    | _ => none
  toJson? s := do
    return present [("hash", some (← toJson? s.hash)), ("mtime", some (← toJson? s.modified))]

instance : JsonForm DependencyStamp where
  ofJson? v := do
    match ← v.fields? ["hash", "mtime"] with
    | [hash, modified] => return ⟨← Json.optional? ofJson? hash, ← Json.optional? ofJson? modified⟩
    | _ => none
  toJson? s := do
    return present [("hash", ← optional? s.hash), ("mtime", ← optional? s.modified)]

instance : JsonForm CacheRecord where
  ofJson? v := do
    match ← v.fields? ["content_hash", "mtime", "plugin_fingerprint", "dependencies"] with
    | [hash, modified, fingerprint, dependencies] =>
      return {
        stamp := ⟨← required? hash, ← required? modified⟩
        fingerprint := ← fingerprint.bind Json.string?
        dependencies := ← Json.optional? ofJson? dependencies }
    | _ => none
  toJson? r := do
    return present [
      ("content_hash", some (← toJson? r.stamp.hash)),
      ("mtime", some (← toJson? r.stamp.modified)),
      ("plugin_fingerprint", some (.ofString r.fingerprint)),
      ("dependencies", ← optional? r.dependencies)]

end JsonForm

end BuildCache
