import BuildCache.Digest.ContentHash

/-!
# Plugin fingerprints

The fingerprint of an ordered list of plugins. Artifacts made with another fingerprint are stale.
-/

namespace BuildCache

/-- A transform plugin. Its key, if it gives one, changes whenever its output may change. -/
structure Plugin where
  name : String
  key : Option String

abbrev Fingerprint := String

namespace Plugin

def maxInlineKeyLength : Nat := 6

def keyDigestLength : Nat := 8

/-- A key as it is written: itself if it is short, otherwise a digest. -/
def keyText (key : String) : String :=
  if key.utf8ByteSize ≤ maxInlineKeyLength then key
  else (ContentHash.ofBytes (Bytes.ofString key)).short keyDigestLength

def text (p : Plugin) : String :=
  match p.key with
  | some key => p.name ++ "@" ++ keyText key
  | none => p.name

end Plugin

/-- The texts of the plugins that have a name, in order. -/
def Fingerprint.ofPlugins (plugins : List Plugin) : Fingerprint :=
  " && ".intercalate ((plugins.filter (!·.name.isEmpty)).map Plugin.text)

end BuildCache
