import BuildCache.Toml.Basic

/-!
# The small parts of TOML

Blanks, comments, line ends, strings and keys. A reader takes what it reads off the front of the
characters, and fails where the text cannot go on.
-/

namespace BuildCache.Toml

abbrev Reader := StateT (List Char) Option

/-- Runs a reader on characters. -/
def Reader.on {α : Type} (r : Reader α) (cs : List Char) : Option (α × List Char) := r.run cs

def isGap (c : Char) : Bool := c == ' ' || c == '\t'

/-- A character that may stand in a comment: no control character but the tab. -/
def isPlain (c : Char) : Bool := c == '\t' || (0x20 ≤ c.toNat && c.toNat != 0x7F)

def takeWhile (p : Char → Bool) : Reader (List Char) := fun cs =>
  some (cs.takeWhile p, cs.dropWhile p)

def skipGap : Reader Unit := fun cs => some ((), cs.dropWhile isGap)

def peek? : Reader (Option Char) := fun cs => some (cs.head?, cs)

def char (c : Char) : Reader Unit := fun
  | d :: rest => if d = c then some ((), rest) else none
  | [] => none

/-- Takes the character if it comes next. -/
def optionalChar (c : Char) : Reader Bool := fun
  | d :: rest => if d = c then some (true, rest) else some (false, d :: rest)
  | [] => some (false, [])

def lineFeed : Reader Unit := fun
  | '\n' :: rest => some ((), rest)
  | '\r' :: '\n' :: rest => some ((), rest)
  | _ => none

/-- A blank rest of a line, which may hold a comment, and the line's end. -/
def endOfLine : Reader Unit := do
  skipGap
  if (← peek?) = some '#' then
    let _ ← takeWhile isPlain
  if (← peek?).isSome then lineFeed

/-- Blanks, line ends and comments inside an array. -/
def skipLines (comment : Bool) : List Char → Option (Unit × List Char)
  | '\n' :: rest => skipLines false rest
  | '\r' :: '\n' :: rest => skipLines false rest
  | c :: rest =>
    if comment then if isPlain c then skipLines true rest else none
    else if isGap c then skipLines false rest
    else if c = '#' then skipLines true rest
    else some ((), c :: rest)
  | [] => if comment then none else some ((), [])

def hexDigit? (c : Char) : Option Nat :=
  if c.isDigit then some (c.toNat - 48)
  else if 'a' ≤ c ∧ c ≤ 'f' then some (c.toNat - 87)
  else if 'A' ≤ c ∧ c ≤ 'F' then some (c.toNat - 55)
  else none

/-- The character with a hexadecimal code; surrogates and codes past the last one have none. -/
def charOfHex? (digits : List Char) : Option Char := do
  let n ← digits.foldlM (fun n c => (hexDigit? c).map (16 * n + ·)) 0
  if n < 0xD800 ∨ (0xE000 ≤ n ∧ n < 0x110000) then some (.ofNat n) else none

def simpleEscape? : Char → Option Char
  | 'b' => some '\x08'
  | 't' => some '\t'
  | 'n' => some '\n'
  | 'f' => some '\x0c'
  | 'r' => some '\r'
  | '"' => some '"'
  | '\\' => some '\\'
  | _ => none

def prepend (c : Char) (r : List Char × List Char) : List Char × List Char := (c :: r.1, r.2)

/-- A quoted string after its opening quote. -/
def basicBody : List Char → Option (List Char × List Char)
  | [] => none
  | '"' :: rest => some ([], rest)
  | '\\' :: 'u' :: a :: b :: c :: d :: rest => do
    return prepend (← charOfHex? [a, b, c, d]) (← basicBody rest)
  | '\\' :: 'U' :: a :: b :: c :: d :: e :: f :: g :: h :: rest => do
    return prepend (← charOfHex? [a, b, c, d, e, f, g, h]) (← basicBody rest)
  | '\\' :: c :: rest => do return prepend (← simpleEscape? c) (← basicBody rest)
  | c :: rest => if isPlain c then (basicBody rest).map (prepend c) else none

/-- A string in apostrophes after the first. -/
def literalBody : List Char → Option (List Char × List Char)
  | [] => none
  | '\'' :: rest => some ([], rest)
  | c :: rest => if isPlain c then (literalBody rest).map (prepend c) else none

/-- The quotes that end a string of several lines: up to two more than three belong to it. -/
def closing (quote : Char) (rest : List Char) : List Char × List Char :=
  let extra := (rest.take 2).takeWhile (· == quote)
  (extra, rest.drop extra.length)

/-- Whether a line ends here, blanks aside. -/
def endsLine (cs : List Char) : Bool := (lineFeed.on (cs.dropWhile isGap)).isSome

/-- A string of several lines after its opening quotes. A backslash that ends a line takes the
blanks and line ends after it away; `trim` holds while they pass. -/
def multilineBasicBody (trim : Bool) : List Char → Option (List Char × List Char)
  | [] => none
  | '"' :: '"' :: '"' :: rest => some (closing '"' rest)
  | '\n' :: rest => (multilineBasicBody trim rest).map fun r => if trim then r else prepend '\n' r
  | '\r' :: '\n' :: rest =>
    (multilineBasicBody trim rest).map fun r => if trim then r else prepend '\n' r
  | '\\' :: 'u' :: a :: b :: c :: d :: rest => do
    return prepend (← charOfHex? [a, b, c, d]) (← multilineBasicBody false rest)
  | '\\' :: 'U' :: a :: b :: c :: d :: e :: f :: g :: h :: rest => do
    return prepend (← charOfHex? [a, b, c, d, e, f, g, h]) (← multilineBasicBody false rest)
  | '\\' :: c :: rest =>
    if endsLine (c :: rest) then multilineBasicBody true (c :: rest)
    else do return prepend (← simpleEscape? c) (← multilineBasicBody false rest)
  | c :: rest =>
    if trim && isGap c then multilineBasicBody true rest
    else if isPlain c then (multilineBasicBody false rest).map (prepend c)
    else none

def multilineLiteralBody : List Char → Option (List Char × List Char)
  | [] => none
  | '\'' :: '\'' :: '\'' :: rest => some (closing '\'' rest)
  | '\n' :: rest => (multilineLiteralBody rest).map (prepend '\n')
  | '\r' :: '\n' :: rest => (multilineLiteralBody rest).map (prepend '\n')
  | c :: rest => if isPlain c then (multilineLiteralBody rest).map (prepend c) else none

/-- A line end right after the opening quotes does not count. -/
def dropFirstLineFeed (cs : List Char) : List Char :=
  match lineFeed.on cs with
  | some (_, rest) => rest
  | none => cs

/-- A string in any of the four forms. -/
def readString : List Char → Option (List Char × List Char)
  | '"' :: '"' :: '"' :: rest => multilineBasicBody false (dropFirstLineFeed rest)
  | '"' :: rest => basicBody rest
  | '\'' :: '\'' :: '\'' :: rest => multilineLiteralBody (dropFirstLineFeed rest)
  | '\'' :: rest => literalBody rest
  | _ => none

def isBareKey (c : Char) : Bool := c.isAlphanum || c == '-' || c == '_'

/-- One part of a key: bare, or a string on one line. -/
def readKeyPart : Reader String := fun
  | '"' :: rest => (basicBody rest).map fun (cs, rest) => (.ofList cs, rest)
  | '\'' :: rest => (literalBody rest).map fun (cs, rest) => (.ofList cs, rest)
  | cs =>
    if (cs.takeWhile isBareKey).isEmpty then none
    else some (.ofList (cs.takeWhile isBareKey), cs.dropWhile isBareKey)

/-- Nesting, of values and of dotted keys, stays below this. -/
def nestingLimit : Nat := 80

/-- A dotted key of at most `room` parts, cut into its path and its last part. -/
def readKey : Nat → Reader (List String × String)
  | 0 => failure
  | room + 1 => do
    skipGap
    let part ← readKeyPart
    skipGap
    if ← optionalChar '.' then
      let (path, key) ← readKey room
      return (part :: path, key)
    else return ([], part)

end BuildCache.Toml
