import BuildCache.Text

/-!
# Hexadecimal text

Bytes are written as two lowercase digits each. Reading takes digits of either case, and takes a
plus sign and one digit for a byte below sixteen. `read?_write` says that what is written reads
back.
-/

namespace BuildCache.Hex

def pair (b : UInt8) : List Char := [(b.toNat / 16).digitChar, (b.toNat % 16).digitChar]

def write (b : Bytes) : List Char := b.flatMap pair

def digit? (c : Char) : Option Nat :=
  if '0' ≤ c ∧ c ≤ '9' then some (c.toNat - 48)
  else if 'a' ≤ c ∧ c ≤ 'f' then some (c.toNat - 87)
  else if 'A' ≤ c ∧ c ≤ 'F' then some (c.toNat - 55)
  else none

def byte? (high low : Char) : Option UInt8 :=
  if high = '+' then (digit? low).map UInt8.ofNat
  else
    match digit? high, digit? low with
    | some h, some l => some (.ofNat (16 * h + l))
    | _, _ => none

def read? : List Char → Option Bytes
  | [] => some []
  | [_] => none
  | high :: low :: rest =>
    match byte? high low, read? rest with
    | some b, some bs => some (b :: bs)
    | _, _ => none

theorem digit?_digitChar {n : Nat} (h : n < 16) : digit? n.digitChar = some n := by
  revert n; decide

theorem digitChar_ne_plus {n : Nat} (h : n < 16) : n.digitChar ≠ '+' := by
  revert n; decide

theorem isAlphanum_digitChar {n : Nat} (h : n < 16) : n.digitChar.isAlphanum = true := by
  revert n; decide

theorem byte?_pair (b : UInt8) :
    byte? (b.toNat / 16).digitChar (b.toNat % 16).digitChar = some b := by
  have hb := b.toNat_lt
  have hhigh : b.toNat / 16 < 16 := by omega
  have hlow : b.toNat % 16 < 16 := by omega
  simp only [byte?, digitChar_ne_plus hhigh, if_false, digit?_digitChar hhigh, digit?_digitChar hlow]
  rw [Nat.div_add_mod, UInt8.ofNat_toNat]

theorem read?_write (b : Bytes) : read? (write b) = some b := by
  induction b with
  | nil => rfl
  | cons b rest ih =>
    simp only [write] at ih
    simp [write, pair, read?, byte?_pair, ih]

theorem length_write (b : Bytes) : (write b).length = 2 * b.length := by
  induction b with
  | nil => rfl
  | cons b rest ih => simp only [write] at ih; simp [write, pair, ih]; omega

theorem isAlphanum_of_mem_write {b : Bytes} {c : Char} (h : c ∈ write b) : c.isAlphanum = true := by
  obtain ⟨x, -, hc⟩ := List.mem_flatMap.mp h
  have hx := x.toNat_lt
  simp only [pair, List.mem_cons, List.not_mem_nil, or_false] at hc
  rcases hc with rfl | rfl <;> exact isAlphanum_digitChar (by omega)

end BuildCache.Hex
