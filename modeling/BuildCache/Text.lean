/-!
# Bytes and text

Files and paths are bytes; text is what bytes say when they are UTF-8. `text?_eq_some_iff` says
that reading text and writing it are inverse.
-/

namespace BuildCache

abbrev Bytes := List UInt8

namespace Bytes

def ofString (s : String) : Bytes := s.toUTF8.data.toList

/-- The text that the bytes spell, unless they are not UTF-8. -/
def text? (b : Bytes) : Option String := String.fromUTF8? ⟨b.toArray⟩

theorem text?_ofString (s : String) : text? (ofString s) = some s := by
  have h : s.toByteArray.IsValidUTF8 := s.isValidUTF8
  simp only [text?, ofString, String.fromUTF8?, String.toUTF8, Array.toArray_toList]
  exact dif_pos h

theorem text?_eq_some_iff {b : Bytes} {s : String} : text? b = some s ↔ b = ofString s := by
  refine ⟨fun h => ?_, fun h => h ▸ text?_ofString s⟩
  simp only [text?, String.fromUTF8?] at h
  split at h
  · cases h
    simp [ofString, String.toUTF8, String.fromUTF8]
  · contradiction

/-- A character whose first bytes were read: how many bytes it lacks, the bounds of the next one,
and the bits so far. -/
structure OpenChar where
  missing : Nat
  low : UInt8
  high : UInt8
  bits : Nat

inductive Lead where
  | whole (c : Char)
  | opens (c : OpenChar)
  | illFormed

/-- What a byte means at the start of a character. The bounds rule out overlong forms, surrogates
and values past the last character. -/
def lead (b : UInt8) : Lead :=
  if b < 0x80 then .whole (Char.ofNat b.toNat)
  else if b < 0xC2 then .illFormed
  else if b < 0xE0 then .opens ⟨1, 0x80, 0xBF, b.toNat % 32⟩
  else if b < 0xF0 then
    .opens ⟨2, if b = 0xE0 then 0xA0 else 0x80, if b = 0xED then 0x9F else 0xBF, b.toNat % 16⟩
  else if b < 0xF5 then
    .opens ⟨3, if b = 0xF0 then 0x90 else 0x80, if b = 0xF4 then 0x8F else 0xBF, b.toNat % 8⟩
  else .illFormed

def replacement : Char := Char.ofNat 0xFFFD

/-- Decodes bytes, each longest ill-formed part read as one replacement character. -/
def lossyChars : Option OpenChar → Bytes → List Char
  | none, [] => []
  | some _, [] => [replacement]
  | none, b :: rest =>
    match lead b with
    | .whole c => c :: lossyChars none rest
    | .opens o => lossyChars (some o) rest
    | .illFormed => replacement :: lossyChars none rest
  | some o, b :: rest =>
    if o.low ≤ b ∧ b ≤ o.high then
      let bits := o.bits * 64 + b.toNat % 64
      if o.missing ≤ 1 then Char.ofNat bits :: lossyChars none rest
      else lossyChars (some ⟨o.missing - 1, 0x80, 0xBF, bits⟩) rest
    else
      match lead b with
      | .whole c => replacement :: c :: lossyChars none rest
      | .opens o => replacement :: lossyChars (some o) rest
      | .illFormed => replacement :: replacement :: lossyChars none rest

/-- Text for display, whatever the bytes. -/
def display (b : Bytes) : String :=
  match text? b with
  | some s => s
  | none => String.ofList (lossyChars none b)

end Bytes

/-- The characters with the Unicode property White_Space. -/
def isBlank (c : Char) : Bool :=
  let n := c.toNat
  (0x09 ≤ n && n ≤ 0x0D) || n == 0x20 || n == 0x85 || n == 0xA0 || n == 0x1680 ||
    (0x2000 ≤ n && n ≤ 0x200A) || n == 0x2028 || n == 0x2029 || n == 0x202F || n == 0x205F ||
    n == 0x3000

/-- Text without the blanks around it. -/
def trimBlanks (s : String) : String :=
  String.ofList ((s.toList.dropWhile isBlank).reverse.dropWhile isBlank).reverse

end BuildCache
