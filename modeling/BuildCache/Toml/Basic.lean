/-!
# TOML values

A table remembers how the document defined it, because that decides what may still be added to it.
-/

namespace BuildCache

/-- `header` tables have a line of their own, `implied` ones lie on the way to such a table,
`dotted` ones come from a dotted key, and `inline` ones are closed by their brace. -/
inductive TableOrigin where
  | header
  | implied
  | dotted
  | inline
deriving DecidableEq

/-- The value of a float is not kept, as no setting is one. -/
inductive Toml where
  | string (text : String)
  | integer (value : Int)
  | float
  | boolean (b : Bool)
  | dateTime (text : String)
  | array (items : List Toml)
  | table (origin : TableOrigin) (fields : List (String × Toml))
  | tables (items : List (List (String × Toml)))

namespace Toml

abbrev Fields := List (String × Toml)

def lookup (key : String) (fields : Fields) : Option Toml :=
  (fields.find? (·.1 == key)).map (·.2)

/-- Gives a key its value, whether or not it had one. -/
def assign (key : String) (v : Toml) (fields : Fields) : Fields :=
  fields.filter (·.1 != key) ++ [(key, v)]

/-- Changes the table that a path of keys leads to, making the tables that are missing on the way.
A path of headers goes through any table but an inline one and, in an array of tables, to the last;
a dotted key does not go through a table that has a header. -/
def update (dotted : Bool) (change : TableOrigin → Fields → Option Fields) :
    List String → TableOrigin → Fields → Option Fields
  | [], origin, fields => change origin fields
  | key :: path, _, fields =>
    match lookup key fields with
    | none =>
      let fresh := if dotted then .dotted else .implied
      (update dotted change path fresh []).map fun inner =>
        assign key (.table fresh inner) fields
    | some (.table origin inner) =>
      if origin = .inline ∨ (dotted ∧ origin = .header) then none
      else
        (update dotted change path origin inner).map fun inner =>
          assign key (.table origin inner) fields
    | some (.tables items) =>
      match items.getLast? with
      | some last =>
        (update dotted change path .header last).map fun last =>
          assign key (.tables (items.dropLast ++ [last])) fields
      | none => none
    | some _ => none

/-- A dotted key with its value. -/
structure Pair where
  path : List String
  key : String
  value : Toml

/-- Adds a new key. A dotted one ends in a table that dotted keys made. -/
def addPair (fields : Fields) (pair : Pair) : Option Fields :=
  update true
    (fun origin fields =>
      if !pair.path.isEmpty && origin != .dotted then none
      else if (lookup pair.key fields).isSome then none
      else some (fields ++ [(pair.key, pair.value)]))
    pair.path .header fields

/-- A header with the pairs below it. An `element` header starts a new table of an array. -/
structure Section where
  element : Bool
  path : List String
  key : String
  pairs : List Pair

/-- Adds a section. Its table must be new, or so far only implied. -/
def addSection (fields : Fields) (s : Section) : Option Fields :=
  update false
    (fun _ fields =>
      if s.element then
        match lookup s.key fields with
        | none =>
          (s.pairs.foldlM addPair []).map fun t => assign s.key (.tables [t]) fields
        | some (.tables items) =>
          (s.pairs.foldlM addPair []).map fun t => assign s.key (.tables (items ++ [t])) fields
        | some _ => none
      else
        match lookup s.key fields with
        | none => (s.pairs.foldlM addPair []).map fun t => assign s.key (.table .header t) fields
        | some (.table .implied t) =>
          (s.pairs.foldlM addPair t).map fun t => assign s.key (.table .header t) fields
        | some _ => none)
    s.path .header fields

end Toml

end BuildCache
