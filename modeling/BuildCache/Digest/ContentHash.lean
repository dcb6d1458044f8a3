import BuildCache.Digest.Hex
import BuildCache.Digest.Xxh3

/-!
# Content hashes

A content hash stands for the bytes of a file. It is written as 32 hexadecimal digits and ordered
by its bytes.
-/

namespace BuildCache

structure ContentHash where
  bytes : Bytes
  length_eq : bytes.length = 16
deriving DecidableEq

namespace ContentHash

instance : Ord ContentHash := ⟨compareOn bytes⟩

def ofBytes (content : Bytes) : ContentHash :=
  let d := Xxh3.digest content
  ⟨Xxh3.bytes64 d.low ++ Xxh3.bytes64 d.high, by simp [Xxh3.bytes64]⟩

def digits (h : ContentHash) : List Char := Hex.write h.bytes

def text (h : ContentHash) : String := String.ofList h.digits

/-- The first digits, for names where a short digest is enough. -/
def short (h : ContentHash) (count : Nat) : String := String.ofList (h.digits.take count)

/-- The abridged form shown in diagnostics. -/
def summary (h : ContentHash) : String := "ContentHash(" ++ h.short 4 ++ "..)"

def ofString? (s : String) : Option ContentHash :=
  match Hex.read? s.toList with
  | some bytes => if h : bytes.length = 16 then some ⟨bytes, h⟩ else none
  | none => none

def parseErrorMessage (s : String) : String :=
  "invalid content hash '" ++ s ++ "': expected 32 hex digits"

theorem ofString?_text (h : ContentHash) : ofString? h.text = some h := by
  simp [ofString?, text, digits, Hex.read?_write, h.length_eq]

theorem length_digits (h : ContentHash) : h.digits.length = 32 := by
  simp [digits, Hex.length_write, h.length_eq]

end ContentHash

end BuildCache
