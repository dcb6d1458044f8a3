import BuildCache.Toml.Lexical

/-!
# Numbers and date-times in TOML

Integers fit in 64 bits with a sign, a positive float stays below the end of the binary64 range,
and a date-time names a day and a time that exist.
-/

namespace BuildCache.Toml

/-- Digits, with single underscores between them. -/
def moreDigits (isDigit : Char → Bool) : List Char → Option (List Char × List Char)
  | '_' :: c :: rest => if isDigit c then (moreDigits isDigit rest).map (prepend c) else none
  | ['_'] => none
  | c :: rest =>
    if isDigit c then (moreDigits isDigit rest).map (prepend c) else some ([], c :: rest)
  | [] => some ([], [])

/-- One digit or more, with single underscores between them. -/
def someDigits (isDigit : Char → Bool) : Reader (List Char) := fun
  | c :: rest => if isDigit c then (moreDigits isDigit rest).map (prepend c) else none
  | [] => none

/-- The digits of a whole number: zero, or digits that do not start with zero. -/
def wholeDigits : Reader (List Char) := fun
  | '0' :: rest => some (['0'], rest)
  | cs => someDigits Char.isDigit cs

def valueIn (base : Nat) (digits : List Char) : Nat :=
  digits.foldl (fun n c => base * n + (hexDigit? c).getD 0) 0

def sign : Reader (Option Char) := do
  if ← optionalChar '+' then return some '+'
  else if ← optionalChar '-' then return some '-'
  else return none

def signed (s : Option Char) (n : Nat) : Int := if s = some '-' then -(n : Int) else n

def integerOf (value : Int) : Reader Toml :=
  if Int64.minValue.toInt ≤ value ∧ value ≤ Int64.maxValue.toInt then pure (.integer value) else failure

/-- A hexadecimal, octal or binary integer after its two marks. -/
def radixInteger (base : Nat) : Reader Toml := do
  let digits ← someDigits fun c => (hexDigit? c).any (· < base)
  integerOf (valueIn base digits)

def fractionDigits : Reader (List Char) := do
  if ← optionalChar '.' then someDigits Char.isDigit else return []

/-- The exponent of a float, if it has one. -/
def exponent? : Reader (Option Int) := do
  let marked ← if ← optionalChar 'e' then pure true else optionalChar 'E'
  if marked then
    let s ← sign
    return some (signed s (valueIn 10 (← someDigits Char.isDigit)))
  else return none

/-- Whether `n · 10 ^ e` rounds to a binary64 number. Powers that settle the answer by their size
alone are not computed. -/
def inFloatRange (n : Nat) (e : Int) : Bool :=
  let bound := 1 <<< 1024 - 1 <<< 970
  if n = 0 then true
  else
    match e with
    | .ofNat e => e ≤ 400 && decide (n * Nat.pow 10 e < bound)
    | .negSucc e => (n.log2 ≤ 3 * e) || decide (n < bound * Nat.pow 10 (e + 1))

/-- A decimal integer or a float, after its sign. -/
def decimalNumber (s : Option Char) : Reader Toml := do
  let whole ← wholeDigits
  let fraction ← fractionDigits
  match fraction, ← exponent? with
  | [], none => integerOf (signed s (valueIn 10 whole))
  | fraction, e =>
    if s = some '-' || inFloatRange (valueIn 10 (whole ++ fraction)) (e.getD 0 - fraction.length)
    then return .float
    else failure

/-- A number, whose first characters also tell the special floats and the other radices. -/
def readNumber : Reader Toml := fun
  | '0' :: 'x' :: rest => radixInteger 16 rest
  | '0' :: 'o' :: rest => radixInteger 8 rest
  | '0' :: 'b' :: rest => radixInteger 2 rest
  | cs => do
    let (s, rest) ← sign cs
    match rest with
    | 'i' :: 'n' :: 'f' :: rest => some (.float, rest)
    | 'n' :: 'a' :: 'n' :: rest => some (.float, rest)
    | rest => decimalNumber s rest

/-- Exactly `count` digits whose number lies between two bounds. -/
def field (count low high : Nat) : Reader (List Char) := fun cs =>
  let digits := cs.take count
  let value := valueIn 10 digits
  if digits.length = count && digits.all Char.isDigit && low ≤ value && value ≤ high then
    some (digits, cs.drop count)
  else none

def daysIn (year month : Nat) : Nat :=
  if month = 2 then
    if year % 4 = 0 ∧ (year % 100 ≠ 0 ∨ year % 400 = 0) then 29 else 28
  else if month = 4 ∨ month = 6 ∨ month = 9 ∨ month = 11 then 30
  else 31

def readDate : Reader (List Char) := do
  let year ← field 4 0 9999
  char '-'
  let month ← field 2 1 12
  char '-'
  let day ← field 2 1 (daysIn (valueIn 10 year) (valueIn 10 month))
  return year ++ '-' :: month ++ '-' :: day

/-- The fraction of a second, to nine places and without zeros at its end. -/
def readSecondFraction : Reader (List Char) := fun cs =>
  match cs with
  | '.' :: rest =>
    let digits := rest.takeWhile Char.isDigit
    if digits.isEmpty then some ([], cs)
    else
      let kept := ((digits.take 9).reverse.dropWhile (· == '0')).reverse
      some (if kept.isEmpty then [] else '.' :: kept, rest.dropWhile Char.isDigit)
  | _ => some ([], cs)

def readTime : Reader (List Char) := do
  let hour ← field 2 0 23
  char ':'
  let minute ← field 2 0 59
  char ':'
  let second ← field 2 0 60
  let fraction ← readSecondFraction
  return hour ++ ':' :: minute ++ ':' :: second ++ fraction

/-- The distance from universal time, if one is given. -/
def readOffset : Reader (List Char) := do
  if ← optionalChar 'Z' then return ['Z']
  else if ← optionalChar 'z' then return ['Z']
  else
    match ← sign with
    | none => return []
    | some s =>
      let hour ← field 2 0 23
      char ':'
      let minute ← field 2 0 59
      let isZero := hour == ['0', '0'] && minute == ['0', '0']
      return (if isZero then '+' else s) :: hour ++ ':' :: minute

/-- The time that may follow a date after a `T` or a blank. -/
def readTimeAfterDate : Reader (List Char) := do
  let marked ← if ← optionalChar 'T' then pure true
    else if ← optionalChar 't' then pure true
    else optionalChar ' '
  if marked then return 'T' :: (← readTime) ++ (← readOffset) else failure

def readDateTime : Reader Toml := fun cs =>
  match readDate cs with
  | some (date, rest) =>
    match readTimeAfterDate rest with
    | some (time, rest) => some (.dateTime (.ofList (date ++ time)), rest)
    | none => some (.dateTime (.ofList date), rest)
  | none => (readTime cs).map fun (time, rest) => (.dateTime (.ofList time), rest)

end BuildCache.Toml
