import BuildCache.Json.Basic

/-!
# Writing JSON

A value is written on one line without blanks, or with one item a line and two spaces a level.
Empty arrays and objects are closed at once in both layouts.
-/

namespace BuildCache.Json

/-- The characters that end a line and indent the next one, in the layout that has lines. -/
def lineBreak (pretty : Bool) (depth : Nat) : List Char :=
  if pretty then '\n' :: List.replicate (2 * depth) ' ' else []

def escape (c : Char) : List Char :=
  match c with
  | '"' => ['\\', '"']
  | '\\' => ['\\', '\\']
  | '\n' => ['\\', 'n']
  | '\r' => ['\\', 'r']
  | '\t' => ['\\', 't']
  | '\x08' => ['\\', 'b']
  | '\x0c' => ['\\', 'f']
  | c =>
    if c.toNat < 0x20 then
      ['\\', 'u', '0', '0', (c.toNat / 16).digitChar, (c.toNat % 16).digitChar]
    else [c]

/-- A quoted string. One that spells no text is written as a lone surrogate. -/
def quote : Option String → List Char
  | some s => '"' :: (s.toList.flatMap escape ++ ['"'])
  | none => "\"\\ud800\"".toList

def colon (pretty : Bool) : List Char := if pretty then [':', ' '] else [':']

mutual

def write (pretty : Bool) (depth : Nat) : Json → List Char
  | .null => "null".toList
  | .bool true => "true".toList
  | .bool false => "false".toList
  | .number literal => literal.toList
  | .string text => quote text
  | .array [] => ['[', ']']
  | .array (v :: vs) =>
    '[' :: (lineBreak pretty (depth + 1) ++ write pretty (depth + 1) v ++
      writeItems pretty (depth + 1) vs ++ lineBreak pretty depth ++ [']'])
  | .object [] => ['{', '}']
  | .object ((key, v) :: fs) =>
    '{' :: (lineBreak pretty (depth + 1) ++ quote key ++ colon pretty ++
      write pretty (depth + 1) v ++ writeFields pretty (depth + 1) fs ++
      lineBreak pretty depth ++ ['}'])

def writeItems (pretty : Bool) (depth : Nat) : List Json → List Char
  | [] => []
  | v :: vs =>
    ',' :: (lineBreak pretty depth ++ write pretty depth v ++ writeItems pretty depth vs)

def writeFields (pretty : Bool) (depth : Nat) : List (Option String × Json) → List Char
  | [] => []
  | (key, v) :: fs =>
    ',' :: (lineBreak pretty depth ++ quote key ++ colon pretty ++ write pretty depth v ++
      writeFields pretty depth fs)

end

/-- The text of a document. -/
def render (pretty : Bool) (v : Json) : String := String.ofList (write pretty 0 v)

end BuildCache.Json
