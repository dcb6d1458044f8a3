import BuildCache.Toml.Number

/-!
# Reading TOML

A document is pairs, then sections of pairs under headers, one to a line.
-/

namespace BuildCache.Toml

mutual

/-- Reads a value with `room` levels of nesting left. Every call uses up one unit of `fuel`. -/
def readValue : Nat → Nat → Reader Toml
  | 0, _ => failure
  | fuel + 1, room => fun
    | 't' :: 'r' :: 'u' :: 'e' :: rest => some (.boolean true, rest)
    | 'f' :: 'a' :: 'l' :: 's' :: 'e' :: rest => some (.boolean false, rest)
    | '[' :: rest =>
      if room = 0 then none
      else (readItems fuel (room - 1) rest).map fun (items, rest) => (.array items, rest)
    | '{' :: rest =>
      if room = 0 then none
      else do
        let (pairs, rest) ← readPairs fuel (room - 1) true rest
        return (.table .inline (← pairs.foldlM addPair []), rest)
    | c :: rest =>
      if c = '"' ∨ c = '\'' then
        (readString (c :: rest)).map fun (cs, rest) => (.string (.ofList cs), rest)
      else (readDateTime (c :: rest)).orElse fun _ => readNumber (c :: rest)
    | [] => none

/-- Reads the items of an array up to its closing bracket; a comma may stand before it. -/
def readItems : Nat → Nat → Reader (List Toml)
  | 0, _ => failure
  | fuel + 1, room => do
    skipLines false
    if ← optionalChar ']' then return []
    else
      let item ← readValue fuel room
      skipLines false
      if ← optionalChar ',' then return item :: (← readItems fuel room)
      else
        char ']'
        return [item]

/-- Reads the pairs of an inline table up to its closing brace; only the first may be missing. -/
def readPairs : Nat → Nat → Bool → Reader (List Pair)
  | 0, _, _ => failure
  | fuel + 1, room, first => do
    skipGap
    if (← peek?) = some '}' ∧ first then
      char '}'
      return []
    else
      let pair ← readPair fuel room
      skipGap
      if ← optionalChar ',' then return pair :: (← readPairs fuel room false)
      else
        char '}'
        return [pair]

/-- Reads a key and its value. -/
def readPair : Nat → Nat → Reader Pair
  | 0, _ => failure
  | fuel + 1, room => do
    let (path, key) ← readKey (nestingLimit - 1)
    char '='
    skipGap
    return ⟨path, key, ← readValue fuel room⟩

end

/-- Reads a header after its first bracket. -/
def readHeader : Reader Section := do
  let element ← optionalChar '['
  let (path, key) ← readKey (nestingLimit - 1)
  char ']'
  if element then char ']'
  endOfLine
  return ⟨element, path, key, []⟩

/-- Reads the pairs up to the next header or the end, and then the sections that follow. Every
line uses up one unit of `fuel`. -/
def readSections : Nat → Reader (List Pair × List Section)
  | 0 => failure
  | fuel + 1 => do
    skipGap
    match ← peek? with
    | none => return ([], [])
    | some '[' =>
      char '['
      let header ← readHeader
      let (pairs, sections) ← readSections fuel
      return ([], { header with pairs := pairs } :: sections)
    | some c =>
      if c = '#' ∨ c = '\n' ∨ c = '\r' then
        endOfLine
        readSections fuel
      else
        let pair ← readPair ((← get).length + 1) (nestingLimit - 1)
        endOfLine
        let (pairs, sections) ← readSections fuel
        return (pair :: pairs, sections)

def byteOrderMark : Char := .ofNat 0xFEFF

/-- The fields of a document's root table. -/
def parse? (text : String) : Option Fields := do
  let cs := text.toList
  let cs := if cs.head? = some byteOrderMark then cs.tail else cs
  let ((pairs, sections), _) ← readSections (cs.length + 1) cs
  sections.foldlM addSection (← pairs.foldlM addPair [])

end BuildCache.Toml
