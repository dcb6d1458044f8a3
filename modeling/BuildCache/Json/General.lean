import BuildCache.Json.Reader

/-!
# JSON documents of any shape

A document read without knowing its shape is held to more: nesting stays below a limit, strings
and keys spell text, and numbers fit in a 64-bit binary float.
-/

namespace BuildCache.Json

/-- The nearest number with 53 significant bits, ties going to the even one. -/
def roundTo53 (n : Nat) : Nat :=
  let unit := 1 <<< (n.log2 + 1 - 53)
  let q := n / unit
  let r := n % unit
  if unit < 2 * r || (2 * r == unit && q % 2 == 1) then (q + 1) * unit else q * unit

/-- Digits as a 64-bit word and how many more there were than fit. -/
def significand (start : Nat) (digits : List Char) : Nat × Nat :=
  digits.foldl
    (fun (n, dropped) c =>
      let next := 10 * n + digitValue c
      if dropped = 0 ∧ next ≤ maxWord then (next, 0) else (n, dropped + 1))
    (start, 0)

def exponentValue : List Char → Int
  | '-' :: ds => -(decimal ds : Int)
  | '+' :: ds => decimal ds
  | ds => decimal ds

/-- The significand and the power of ten of a number's literal. -/
def scaled (literal : List Char) : Nat × Int :=
  let cs := literal.dropWhile (· == '-')
  let (whole, rest) := digits cs
  let fraction := match rest with
    | '.' :: rest => (digits rest).1
    | _ => []
  let exponent := exponentValue ((rest.dropWhile fun c => c != 'e' && c != 'E').drop 1)
  let (n, dropped) := significand 0 whole
  let (m, ignored) := significand n fraction
  (m, (dropped : Int) - ((fraction.length - ignored : Nat) : Int) + exponent)

/-- Whether a number stays below the end of the range: the significand and the power of ten are
rounded, multiplied and rounded again. -/
def isFinite (literal : String) : Bool :=
  match scaled literal.toList with
  | (0, _) => true
  | (n, .ofNat e) =>
    e ≤ 308 && decide (roundTo53 (roundTo53 n * roundTo53 (Nat.pow 10 e)) < 1 <<< 1024)
  | (_, .negSucc _) => true

def maxNesting : Nat := 127

mutual

/-- Whether a value is admitted with `room` levels of nesting left. -/
def isAdmitted (room : Nat) : Json → Bool
  | .null | .bool _ => true
  | .number literal => isFinite literal
  | .string text => text.isSome
  | .array items => 0 < room && areAdmitted (room - 1) items
  | .object fields => 0 < room && fieldsAdmitted (room - 1) fields

def areAdmitted (room : Nat) : List Json → Bool
  | [] => true
  | v :: vs => isAdmitted room v && areAdmitted room vs

def fieldsAdmitted (room : Nat) : List (Option String × Json) → Bool
  | [] => true
  | (key, v) :: fs => key.isSome && isAdmitted room v && fieldsAdmitted room fs

end

def parseGeneral? (text : String) : Option Json :=
  match parse? text with
  | some v => if isAdmitted maxNesting v then some v else none
  | none => none

/-- The field of an object, the last one of that name. -/
def field? (name : String) : Json → Option Json
  | .object fields => (fields.reverse.find? (·.1 == some name)).map (·.2)
  | _ => none

end BuildCache.Json
