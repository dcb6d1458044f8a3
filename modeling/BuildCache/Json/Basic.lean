/-!
# JSON values

Numbers keep their literal, and objects their fields in order with repetitions, so nothing that a
document says is lost before someone asks for it.
-/

namespace BuildCache

/-- A string or key is `none` where a surrogate escape has no partner: it spells no text. -/
inductive Json where
  | null
  | bool (b : Bool)
  | number (literal : String)
  | string (text : Option String)
  | array (items : List Json)
  | object (fields : List (Option String × Json))

namespace Json

def ofString (s : String) : Json := .string (some s)

def ofNat (n : Nat) : Json := .number (toString n)

def maxWord : Nat := UInt64.size - 1

def digitValue (c : Char) : Nat := c.toNat - '0'.toNat

def decimal (digits : List Char) : Nat := digits.foldl (fun n c => 10 * n + digitValue c) 0

/-- The text of a string. -/
def string? : Json → Option String
  | .string text => text
  | _ => none

/-- A number written as a natural number of at most 64 bits. -/
def word? : Json → Option Nat
  | .number literal =>
    let digits := literal.toList
    if digits.all Char.isDigit && decimal digits ≤ maxWord then some (decimal digits) else none
  | _ => none

/-- Reads a value that may be missing or null. -/
def optional? {α : Type} (read? : Json → Option α) : Option Json → Option (Option α)
  | none | some .null => some none
  | some v => (read? v).map some

/-- The values of the named fields of a record. An object names them in any order, each once at
most, and may have others; an array gives them in order and has no others. -/
def fields? (names : List String) : Json → Option (List (Option Json))
  | .object fields =>
    if fields.any (·.1.isNone) then none
    else
      names.mapM fun name =>
        match fields.filter (·.1 == some name) with
        | [] => some none
        | [(_, v)] => some (some v)
        | _ => none
  | .array items =>
    if items.length ≤ names.length then
      some (items.map some ++ List.replicate (names.length - items.length) none)
    else none
  | _ => none

/-- The entries of an object whose keys are all text. -/
def entries? : Json → Option (List (String × Json))
  | .object fields => fields.mapM fun (key, v) => key.map (·, v)
  | _ => none

def items? : Json → Option (List Json)
  | .array items => some items
  | _ => none

end Json

end BuildCache
