import BuildCache.Json.Basic

/-!
# Reading JSON

A document is one value with blanks around it. The readers take what they read off the front of
the characters and return the rest; the depth of nesting has no limit.
-/

namespace BuildCache.Json

def isGap (c : Char) : Bool := c == ' ' || c == '\n' || c == '\t' || c == '\r'

def skipGap (cs : List Char) : List Char := cs.dropWhile isGap

def hexDigit? (c : Char) : Option Nat :=
  if c.isDigit then some (c.toNat - 48)
  else if 'a' ≤ c ∧ c ≤ 'f' then some (c.toNat - 87)
  else if 'A' ≤ c ∧ c ≤ 'F' then some (c.toNat - 55)
  else none

/-- The code unit of four hexadecimal digits. -/
def unit? (a b c d : Char) : Option Nat := do
  return 4096 * (← hexDigit? a) + 256 * (← hexDigit? b) + 16 * (← hexDigit? c) + (← hexDigit? d)

def isHighSurrogate (u : Nat) : Bool := 0xD800 ≤ u && u < 0xDC00

def isLowSurrogate (u : Nat) : Bool := 0xDC00 ≤ u && u < 0xE000

def joinSurrogates (high low : Nat) : Char :=
  .ofNat (0x10000 + 0x400 * (high - 0xD800) + (low - 0xDC00))

def simpleEscape? : Char → Option Char
  | '"' => some '"'
  | '\\' => some '\\'
  | '/' => some '/'
  | 'b' => some '\x08'
  | 'f' => some '\x0c'
  | 'n' => some '\n'
  | 'r' => some '\r'
  | 't' => some '\t'
  | _ => none

/-- A character of a string, or half of one that was written as two escapes. -/
inductive Piece where
  | char (c : Char)
  | surrogate (unit : Nat)

def Piece.ofUnit (u : Nat) : Piece :=
  if isHighSurrogate u || isLowSurrogate u then .surrogate u else .char (.ofNat u)

/-- Reads a string after its opening quote. -/
def readPieces : List Char → Option (List Piece × List Char)
  | [] => none
  | '"' :: rest => some ([], rest)
  | '\\' :: 'u' :: a :: b :: c :: d :: rest =>
    match unit? a b c d, readPieces rest with
    | some u, some (pieces, rest) => some (.ofUnit u :: pieces, rest)
    | _, _ => none
  | '\\' :: c :: rest =>
    match simpleEscape? c, readPieces rest with
    | some e, some (pieces, rest) => some (.char e :: pieces, rest)
    | _, _ => none
  | c :: rest =>
    if c.toNat < 0x20 then none
    else (readPieces rest).map fun (pieces, rest) => (.char c :: pieces, rest)

/-- The characters of a string, each surrogate joined to its partner. -/
def joinPieces : List Piece → Option (List Char)
  | [] => some []
  | .char c :: rest => (joinPieces rest).map (c :: ·)
  | .surrogate high :: .surrogate low :: rest =>
    if isHighSurrogate high && isLowSurrogate low then
      (joinPieces rest).map (joinSurrogates high low :: ·)
    else none
  | .surrogate _ :: _ => none

def readString (cs : List Char) : Option (Option String × List Char) :=
  (readPieces cs).map fun (pieces, rest) => ((joinPieces pieces).map String.ofList, rest)

def digits (cs : List Char) : List Char × List Char := cs.span Char.isDigit

/-- One digit or more. -/
def someDigits (cs : List Char) : Option (List Char × List Char) :=
  if (digits cs).1.isEmpty then none else some (digits cs)

/-- The digits before the point; only a lone zero starts with zero. -/
def readWhole : List Char → Option (List Char × List Char)
  | '0' :: rest => if (digits rest).1.isEmpty then some (['0'], rest) else none
  | cs => someDigits cs

def readFraction : List Char → Option (List Char × List Char)
  | '.' :: rest => (someDigits rest).map fun (ds, rest) => ('.' :: ds, rest)
  | cs => some ([], cs)

def readSign : List Char → List Char × List Char
  | '+' :: rest => (['+'], rest)
  | '-' :: rest => (['-'], rest)
  | cs => ([], cs)

def readExponent : List Char → Option (List Char × List Char)
  | c :: rest =>
    if c = 'e' ∨ c = 'E' then
      let (sign, rest) := readSign rest
      (someDigits rest).map fun (ds, rest) => (c :: (sign ++ ds), rest)
    else some ([], c :: rest)
  | [] => some ([], [])

/-- Reads a number's literal. -/
def readNumber (cs : List Char) : Option (List Char × List Char) := do
  let (sign, rest) := match cs with
    | '-' :: rest => (['-'], rest)
    | cs => ([], cs)
  let (whole, rest) ← readWhole rest
  let (fraction, rest) ← readFraction rest
  let (exponent, rest) ← readExponent rest
  return (sign ++ whole ++ fraction ++ exponent, rest)

mutual

/-- Reads a value, with blanks before it. Every call uses up one unit of `fuel`. -/
def readValue : Nat → List Char → Option (Json × List Char)
  | 0, _ => none
  | fuel + 1, cs =>
    match skipGap cs with
    | 'n' :: 'u' :: 'l' :: 'l' :: rest => some (.null, rest)
    | 't' :: 'r' :: 'u' :: 'e' :: rest => some (.bool true, rest)
    | 'f' :: 'a' :: 'l' :: 's' :: 'e' :: rest => some (.bool false, rest)
    | '"' :: rest => (readString rest).map fun (text, rest) => (.string text, rest)
    | '[' :: rest =>
      match skipGap rest with
      | ']' :: rest => some (.array [], rest)
      | _ => (readItems fuel rest).map fun (items, rest) => (.array items, rest)
    | '{' :: rest =>
      match skipGap rest with
      | '}' :: rest => some (.object [], rest)
      | _ => (readFields fuel rest).map fun (fields, rest) => (.object fields, rest)
    | cs => (readNumber cs).map fun (literal, rest) => (.number (.ofList literal), rest)

/-- Reads the items of a non-empty array and the bracket that closes it. -/
def readItems : Nat → List Char → Option (List Json × List Char)
  | 0, _ => none
  | fuel + 1, cs =>
    match readValue fuel cs with
    | none => none
    | some (item, rest) =>
      match skipGap rest with
      | ']' :: rest => some ([item], rest)
      | ',' :: rest => (readItems fuel rest).map fun (items, rest) => (item :: items, rest)
      | _ => none

/-- Reads the fields of a non-empty object and the brace that closes it. -/
def readFields : Nat → List Char → Option (List (Option String × Json) × List Char)
  | 0, _ => none
  | fuel + 1, cs =>
    match readField fuel cs with
    | none => none
    | some (field, rest) =>
      match skipGap rest with
      | '}' :: rest => some ([field], rest)
      | ',' :: rest => (readFields fuel rest).map fun (fields, rest) => (field :: fields, rest)
      | _ => none

/-- Reads a key, a colon and a value. -/
def readField : Nat → List Char → Option ((Option String × Json) × List Char)
  | 0, _ => none
  | fuel + 1, cs =>
    match skipGap cs with
    | '"' :: rest =>
      match readString rest with
      | none => none
      | some (key, rest) =>
        match skipGap rest with
        | ':' :: rest => (readValue fuel rest).map fun (v, rest) => ((key, v), rest)
        | _ => none
    | _ => none

end

/-- Reads a whole document. -/
def parse? (text : String) : Option Json :=
  let cs := text.toList
  match readValue (3 * cs.length + 3) cs with
  | some (v, rest) => if (skipGap rest).isEmpty then some v else none
  | none => none

end BuildCache.Json
