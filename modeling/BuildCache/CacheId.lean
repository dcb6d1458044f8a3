import BuildCache.Digest.ContentHash
import BuildCache.Path.Basic

/-!
# Cache ids

A cache id names what is stored for one source path. It is a non-empty run of ASCII letters and
digits, so it is a plain file name without a dot.
-/

namespace BuildCache

structure CacheId where
  text : String
  valid : (!text.toList.isEmpty && text.toList.all Char.isAlphanum) = true
deriving DecidableEq

namespace CacheId

instance : Ord CacheId := ⟨compareOn text⟩

instance : Std.TransOrd CacheId := inferInstanceAs (Std.TransCmp (compareOn text))

def ofString? (s : String) : Option CacheId :=
  if h : (!s.toList.isEmpty && s.toList.all Char.isAlphanum) = true then some ⟨s, h⟩ else none

/-- The hash of the path's spelling. -/
def forPath (p : Path) : CacheId :=
  let h := ContentHash.ofBytes p.bytes
  ⟨h.text, by
    have hlen := h.length_digits
    simp only [ContentHash.text, String.toList_ofList, Bool.and_eq_true, Bool.not_eq_true',
      List.isEmpty_eq_false_iff, List.all_eq_true]
    exact ⟨fun he => by simp [he] at hlen, fun c hc => Hex.isAlphanum_of_mem_write hc⟩⟩

def parseErrorMessage (s : String) : String := "invalid cache id '" ++ s ++ "'"

theorem ofString?_text (id : CacheId) : ofString? id.text = some id := by
  simp only [ofString?, id.valid, dite_true]

end CacheId

end BuildCache
