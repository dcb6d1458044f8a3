import BuildCache.Text

/-!
# The 128-bit XXH3 digest

The unseeded digest with the standard secret. Inputs fall into length classes: up to 16 bytes, up
to 128, up to 240, and longer ones, which are read in 64-byte stripes.
-/

namespace BuildCache.Xxh3

structure Word128 where
  low : UInt64
  high : UInt64
deriving DecidableEq

def secret : Bytes := [
  0xB8, 0xFE, 0x6C, 0x39, 0x23, 0xA4, 0x4B, 0xBE, 0x7C, 0x01, 0x81, 0x2C, 0xF7, 0x21, 0xAD, 0x1C,
  0xDE, 0xD4, 0x6D, 0xE9, 0x83, 0x90, 0x97, 0xDB, 0x72, 0x40, 0xA4, 0xA4, 0xB7, 0xB3, 0x67, 0x1F,
  0xCB, 0x79, 0xE6, 0x4E, 0xCC, 0xC0, 0xE5, 0x78, 0x82, 0x5A, 0xD0, 0x7D, 0xCC, 0xFF, 0x72, 0x21,
  0xB8, 0x08, 0x46, 0x74, 0xF7, 0x43, 0x24, 0x8E, 0xE0, 0x35, 0x90, 0xE6, 0x81, 0x3A, 0x26, 0x4C,
  0x3C, 0x28, 0x52, 0xBB, 0x91, 0xC3, 0x00, 0xCB, 0x88, 0xD0, 0x65, 0x8B, 0x1B, 0x53, 0x2E, 0xA3,
  0x71, 0x64, 0x48, 0x97, 0xA2, 0x0D, 0xF9, 0x4E, 0x38, 0x19, 0xEF, 0x46, 0xA9, 0xDE, 0xAC, 0xD8,
  0xA8, 0xFA, 0x76, 0x3F, 0xE3, 0x9C, 0x34, 0x3F, 0xF9, 0xDC, 0xBB, 0xC7, 0xC7, 0x0B, 0x4F, 0x1D,
  0x8A, 0x51, 0xE0, 0x4B, 0xCD, 0xB4, 0x59, 0x31, 0xC8, 0x9F, 0x7E, 0xC9, 0xD9, 0x78, 0x73, 0x64,
  0xEA, 0xC5, 0xAC, 0x83, 0x34, 0xD3, 0xEB, 0xC3, 0xC5, 0x81, 0xA0, 0xFF, 0xFA, 0x13, 0x63, 0xEB,
  0x17, 0x0D, 0xDD, 0x51, 0xB7, 0xF0, 0xDA, 0x49, 0xD3, 0x16, 0x55, 0x26, 0x29, 0xD4, 0x68, 0x9E,
  0x2B, 0x16, 0xBE, 0x58, 0x7D, 0x47, 0xA1, 0xFC, 0x8F, 0xF8, 0xB8, 0xD1, 0x7A, 0xD0, 0x31, 0xCE,
  0x45, 0xCB, 0x3A, 0x8F, 0x95, 0x16, 0x04, 0x28, 0xAF, 0xD7, 0xFB, 0xCA, 0xBB, 0x4B, 0x40, 0x7E]

def prime32a : UInt64 := 0x9E3779B1
def prime32b : UInt64 := 0x85EBCA77
def prime32c : UInt64 := 0xC2B2AE3D
def prime64a : UInt64 := 0x9E3779B185EBCA87
def prime64b : UInt64 := 0xC2B2AE3D27D4EB4F
def prime64c : UInt64 := 0x165667B19E3779F9
def prime64d : UInt64 := 0x85EBCA77C2B2AE63
def prime64e : UInt64 := 0x27D4EB2F165667C5
def mixer1 : UInt64 := 0x165667919E3779F9
def mixer2 : UInt64 := 0x9FB21C651E98DF25

def littleEndian (b : Bytes) : Nat := b.foldr (fun x n => x.toNat + 256 * n) 0

/-- The eight bytes from position `i` as a word. -/
def word64 (b : Bytes) (i : Nat) : UInt64 := .ofNat (littleEndian ((b.drop i).take 8))

/-- The four bytes from position `i` as a word. -/
def word32 (b : Bytes) (i : Nat) : UInt64 := .ofNat (littleEndian ((b.drop i).take 4))

def lowHalf (w : UInt64) : UInt64 := w &&& 0xFFFFFFFF

def bytes64 (w : UInt64) : Bytes := (List.range 8).map fun i => (w >>> (8 * i.toUInt64)).toUInt8

def swap64 (w : UInt64) : UInt64 := word64 (bytes64 w).reverse 0

/-- The low half of a word with its four bytes reversed. -/
def swap32 (w : UInt64) : UInt64 := swap64 w >>> 32

/-- The whole product of two words. -/
def product (a b : UInt64) : Word128 :=
  let n := a.toNat * b.toNat
  ⟨.ofNat n, .ofNat (n / UInt64.size)⟩

def foldedProduct (a b : UInt64) : UInt64 :=
  let p := product a b
  p.low ^^^ p.high

def shiftMix (w k : UInt64) : UInt64 := w ^^^ (w >>> k)

/-- The final mixing of the shortest inputs. -/
def scatter (w : UInt64) : UInt64 :=
  shiftMix (shiftMix (shiftMix w 33 * prime64b) 29 * prime64c) 32

def avalanche (w : UInt64) : UInt64 := shiftMix (shiftMix w 37 * mixer1) 32

def digestEmpty : Word128 :=
  ⟨scatter (word64 secret 64 ^^^ word64 secret 72), scatter (word64 secret 80 ^^^ word64 secret 88)⟩

def digestUpTo3 (b : Bytes) : Word128 :=
  let byte (i : Nat) : UInt64 := (b.getD i 0).toUInt64
  let n := b.length
  let low := byte 0 <<< 16 ||| byte (n / 2) <<< 24 ||| byte (n - 1) ||| n.toUInt64 <<< 8
  let swapped := swap32 low
  let high := lowHalf (swapped <<< 13 ||| swapped >>> 19)
  ⟨scatter (low ^^^ (word32 secret 0 ^^^ word32 secret 4)),
    scatter (high ^^^ (word32 secret 8 ^^^ word32 secret 12))⟩

def digestUpTo8 (b : Bytes) : Word128 :=
  let n := b.length
  let input := word32 b 0 + word32 b (n - 4) <<< 32
  let keyed := input ^^^ (word64 secret 16 ^^^ word64 secret 24)
  let p := product keyed (prime64a + n.toUInt64 <<< 2)
  let high := p.high + p.low <<< 1
  let low := p.low ^^^ (high >>> 3)
  ⟨shiftMix (shiftMix low 35 * mixer2) 28, avalanche high⟩

def digestUpTo16 (b : Bytes) : Word128 :=
  let n := b.length
  let first := word64 b 0
  let last := word64 b (n - 8)
  let flipLow := word64 secret 32 ^^^ word64 secret 40
  let flipHigh := word64 secret 48 ^^^ word64 secret 56
  let p := product (first ^^^ last ^^^ flipLow) prime64a
  let low := p.low + (n - 1).toUInt64 <<< 54
  let last := last ^^^ flipHigh
  let high := p.high + (last + lowHalf last * (prime32b - 1))
  let q := product (low ^^^ swap64 high) prime64b
  ⟨avalanche q.low, avalanche (q.high + high * prime64b)⟩

/-- Mixes sixteen bytes of input with the secret from position `k`. -/
def mix16 (b : Bytes) (i k : Nat) : UInt64 :=
  foldedProduct (word64 b i ^^^ word64 secret k) (word64 b (i + 8) ^^^ word64 secret (k + 8))

def wordSum (b : Bytes) (i : Nat) : UInt64 := word64 b i + word64 b (i + 8)

/-- Mixes two runs of sixteen bytes into both halves of the state. -/
def mix32 (b : Bytes) (state : Word128) (i j k : Nat) : Word128 :=
  ⟨(state.low + mix16 b i k) ^^^ wordSum b j, (state.high + mix16 b j (k + 16)) ^^^ wordSum b i⟩

def finish (n : UInt64) (state : Word128) : Word128 :=
  ⟨avalanche (state.low + state.high),
    0 - avalanche (state.low * prime64a + state.high * prime64d + n * prime64b)⟩

/-- Takes pairs of runs from both ends, the inner ones first. -/
def digestUpTo128 (b : Bytes) : Word128 :=
  let n := b.length
  let rounds := (List.range ((n - 1) / 32 + 1)).reverse
  finish n.toUInt64 <|
    rounds.foldl (fun s r => mix32 b s (16 * r) (n - 16 * (r + 1)) (32 * r))
      ⟨n.toUInt64 * prime64a, 0⟩

def digestUpTo240 (b : Bytes) : Word128 :=
  let n := b.length
  let early := (List.range 4).foldl (fun s r => mix32 b s (32 * r) (32 * r + 16) (32 * r))
    ⟨n.toUInt64 * prime64a, 0⟩
  let later := (List.range (n / 32 - 4)).foldl
    (fun s r => mix32 b s (32 * (r + 4)) (32 * (r + 4) + 16) (32 * r + 3))
    ⟨avalanche early.low, avalanche early.high⟩
  finish n.toUInt64 (mix32 b later (n - 16) (n - 32) 103)

/-- Eight lanes of one word each. -/
abbrev Lanes := List UInt64

def startLanes : Lanes :=
  [prime32c, prime64a, prime64b, prime64c, prime64d, prime32b, prime64e, prime32a]

def words : Bytes → Lanes
  | a :: b :: c :: d :: e :: f :: g :: h :: rest => word64 [a, b, c, d, e, f, g, h] 0 :: words rest
  | _ => []

def swapPairs : Lanes → Lanes
  | a :: b :: rest => b :: a :: swapPairs rest
  | rest => rest

def halvesProduct (w : UInt64) : UInt64 := lowHalf w * (w >>> 32)

/-- Adds a stripe to the lanes: each lane gains its neighbour's input word and the product of the
halves of its own, keyed by the secret from position `k`. -/
def accumulate (lanes : Lanes) (stripe : Bytes) (k : Nat) : Lanes :=
  let input := words stripe
  let keyed : Lanes := List.zipWith (· ^^^ ·) input (words ((secret.drop k).take 64))
  List.zipWith (· + ·) (List.zipWith (· + ·) lanes (swapPairs input)) (keyed.map halvesProduct)

def scramble (lanes : Lanes) : Lanes :=
  List.zipWith (fun w key => (shiftMix w 47 ^^^ key) * prime32a) lanes (words (secret.drop 128))

/-- Reads `count` stripes, scrambling after every sixteenth. -/
def absorb : Nat → Nat → Lanes → Bytes → Lanes
  | 0, _, lanes, _ => lanes
  | count + 1, i, lanes, b =>
    let lanes := accumulate lanes (b.take 64) (8 * (i % 16))
    absorb count (i + 1) (if i % 16 = 15 then scramble lanes else lanes) (b.drop 64)

def mergePairs (start : UInt64) : Lanes → Lanes → UInt64
  | a :: b :: lanes, k :: l :: keys =>
    mergePairs (start + foldedProduct (a ^^^ k) (b ^^^ l)) lanes keys
  | _, _ => start

def mergeLanes (lanes : Lanes) (k : Nat) (start : UInt64) : UInt64 :=
  avalanche (mergePairs start lanes (words (secret.drop k)))

def digestLong (b : Bytes) : Word128 :=
  let n := b.length
  let lanes := absorb ((n - 1) / 64) 0 startLanes b
  let lanes := accumulate lanes (b.drop (n - 64)) 121
  ⟨mergeLanes lanes 11 (n.toUInt64 * prime64a),
    mergeLanes lanes 117 (~~~(n.toUInt64 * prime64b))⟩

def digest (b : Bytes) : Word128 :=
  let n := b.length
  if n = 0 then digestEmpty
  else if n ≤ 3 then digestUpTo3 b
  else if n ≤ 8 then digestUpTo8 b
  else if n ≤ 16 then digestUpTo16 b
  else if n ≤ 128 then digestUpTo128 b
  else if n ≤ 240 then digestUpTo240 b
  else digestLong b

end BuildCache.Xxh3
