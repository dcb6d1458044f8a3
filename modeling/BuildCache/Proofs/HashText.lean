import BuildCache.Digest.ContentHash
import Mathlib.Data.List.Induction

/-!
# The text of a content hash

Which texts are read as a content hash, and as which. Digits of either case are, two a byte. So is a
plus sign before a digit, which stands for the digit alone and is written back as a zero.
-/

namespace BuildCache

namespace Hex

/-- One of the hexadecimal digits, of either case. -/
def IsDigit (c : Char) : Prop :=
  ('0' ≤ c ∧ c ≤ '9') ∨ ('a' ≤ c ∧ c ≤ 'f') ∨ ('A' ≤ c ∧ c ≤ 'F')

instance (c : Char) : Decidable (IsDigit c) := inferInstanceAs (Decidable (_ ∨ _ ∨ _))

/-- What is written for a character that was read. -/
def plain (c : Char) : Char := if c = '+' then '0' else c.toLower

variable {c high low : Char} {cs : List Char} {b : UInt8} {bs : Bytes}

theorem digit?_eq_none_iff : digit? c = none ↔ ¬IsDigit c := by
  simp only [digit?, IsDigit, not_or]
  split
  · simp_all
  · split
    · simp_all
    · split <;> simp_all

theorem isDigit_iff_exists : IsDigit c ↔ ∃ d, digit? c = some d := by
  rw [← Option.isSome_iff_exists, ← Option.ne_none_iff_isSome, Ne, digit?_eq_none_iff,
    Classical.not_not]

theorem toNat_of_isDigit (h : IsDigit c) : c.toNat < 103 := by
  have hle {last : Char} (hlast : c ≤ last) : c.toNat ≤ last.toNat := hlast
  rcases h with h | h | h <;> exact Nat.lt_of_le_of_lt (hle h.2) (by decide)

/-- A digit is read as a number below sixteen, which is written as the digit in lower case. -/
theorem digitChar_of_digit? {d : Nat} (h : digit? c = some d) :
    d < 16 ∧ d.digitChar = c.toLower := by
  have hall : ∀ n < 103, ∀ d ∈ digit? (Char.ofNat n),
      d < 16 ∧ d.digitChar = (Char.ofNat n).toLower := by decide
  have hc := hall c.toNat (toNat_of_isDigit (isDigit_iff_exists.mpr ⟨d, h⟩)) d
  rw [Char.ofNat_toNat] at hc
  exact hc h

theorem IsDigit.ne_plus (h : IsDigit c) : c ≠ '+' := by
  rintro rfl
  revert h
  decide

theorem byte?_isSome_iff :
    (byte? high low).isSome = true ↔ (IsDigit high ∨ high = '+') ∧ IsDigit low := by
  rw [byte?, isDigit_iff_exists, isDigit_iff_exists]
  by_cases hplus : high = '+'
  · simp [hplus, Option.isSome_iff_exists]
  · rw [if_neg hplus]
    cases digit? high <;> cases digit? low <;> simp [hplus]

private theorem pair_ofNat {h l : Nat} (hh : h < 16) (hl : l < 16) :
    pair (.ofNat (16 * h + l)) = [h.digitChar, l.digitChar] := by
  have htoNat : (UInt8.ofNat (16 * h + l)).toNat = 16 * h + l := by
    rw [UInt8.toNat_ofNat']
    omega
  rw [pair, htoNat, show (16 * h + l) / 16 = h by omega, show (16 * h + l) % 16 = l by omega]

theorem plain_of_isDigit (h : IsDigit c) : plain c = c.toLower := if_neg h.ne_plus

theorem pair_of_byte? (h : byte? high low = some b) : pair b = [plain high, plain low] := by
  obtain ⟨-, hlow⟩ := byte?_isSome_iff.mp (Option.isSome_of_mem h)
  rw [plain_of_isDigit hlow]
  rw [byte?] at h
  split at h
  · next hplus =>
    obtain ⟨l, hl, rfl⟩ := Option.map_eq_some_iff.mp h
    obtain ⟨hless, hchar⟩ := digitChar_of_digit? hl
    have hpair := pair_ofNat (h := 0) (by decide) hless
    rw [Nat.mul_zero, Nat.zero_add] at hpair
    rw [hpair, hchar, plain, if_pos hplus]
    rfl
  · split at h
    · next x l hx hl =>
      cases h
      obtain ⟨hxless, hxchar⟩ := digitChar_of_digit? hx
      obtain ⟨hless, hchar⟩ := digitChar_of_digit? hl
      rw [pair_ofNat hxless hless, hxchar, hchar,
        plain_of_isDigit (isDigit_iff_exists.mpr ⟨x, hx⟩)]
    · cases h

/-- What is read is written back the same, but for the case of digits and for signs. -/
theorem write_of_read? (h : read? cs = some bs) : write bs = cs.map plain := by
  fun_induction read? cs generalizing bs with
  | case1 =>
    cases h
    rfl
  | case2 => cases h
  | case3 high low rest b bytes hbytes hb ih =>
    cases h
    have hrest : write bytes = rest.map plain := ih hbytes
    rw [write] at hrest
    rw [write, List.flatMap_cons, pair_of_byte? hb, hrest]
    rfl
  | case4 => cases h

theorem length_of_read? (h : read? cs = some bs) :
    cs.length = 2 * bs.length := by
  have hlength := congrArg List.length (write_of_read? h)
  rw [length_write, List.length_map] at hlength
  exact hlength.symm

/-- What may stand at a place of a text that is read. -/
def Fits (i : Nat) (c : Char) : Prop := IsDigit c ∨ i % 2 = 0 ∧ c = '+'

/-- Digits are read, and plus signs in front of one. -/
theorem read?_isSome_iff :
    (read? cs).isSome = true ↔ cs.length % 2 = 0 ∧ ∀ i c, cs[i]? = some c → Fits i c := by
  induction cs using List.twoStepInduction with
  | nil => simp [read?]
  | singleton c => simp [read?]
  | cons_cons high low rest ih =>
    have hstep : (read? (high :: low :: rest)).isSome =
        ((byte? high low).isSome && (read? rest).isSome) := by
      rw [read?]
      cases byte? high low <;> cases read? rest <;> rfl
    have hhigh : Fits 0 high ↔ IsDigit high ∨ high = '+' := by simp [Fits]
    have hlow : Fits 1 low ↔ IsDigit low := by simp [Fits]
    have hrest (i : Nat) (c : Char) : Fits (i + 2) c ↔ Fits i c := by simp [Fits]
    rw [hstep, Bool.and_eq_true, byte?_isSome_iff, ih, ← hhigh, ← hlow]
    simp only [List.length_cons, Nat.add_assoc, Nat.add_mod_right]
    constructor
    · rintro ⟨⟨h0, h1⟩, heven, h⟩
      refine ⟨heven, fun i c hc => ?_⟩
      rcases i with _ | _ | i
      · exact Option.some.inj hc ▸ h0
      · exact Option.some.inj hc ▸ h1
      · exact (hrest i c).mpr (h i c hc)
    · rintro ⟨heven, h⟩
      exact ⟨⟨h 0 high rfl, h 1 low rfl⟩, heven,
        fun i c hc => (hrest i c).mp (h (i + 2) c hc)⟩

end Hex

namespace ContentHash

variable {s : String} {h : ContentHash}

theorem ofString?_eq_some_iff : ofString? s = some h ↔ Hex.read? s.toList = some h.bytes := by
  rw [ofString?]
  cases hread : Hex.read? s.toList with
  | none => simp
  | some bytes =>
    obtain ⟨b, hb⟩ := h
    simp only [Option.some.injEq, Option.dite_none_right_eq_some, ContentHash.mk.injEq]
    constructor
    · rintro ⟨-, h⟩
      exact h
    · exact fun h => ⟨h ▸ hb, h⟩

theorem ofString?_isSome_iff :
    (ofString? s).isSome = true ↔
      s.length = 32 ∧ ∀ i c, s.toList[i]? = some c → Hex.Fits i c := by
  have hread : (ofString? s).isSome = true ↔
      s.toList.length = 32 ∧ (Hex.read? s.toList).isSome = true := by
    rw [ofString?]
    cases h : Hex.read? s.toList with
    | none => simp
    | some bytes =>
      have hlength := Hex.length_of_read? h
      simp only [Option.isSome_dite]
      simp
      omega
  rw [hread, Hex.read?_isSome_iff, String.length_toList]
  constructor
  · rintro ⟨hlength, -, h⟩
    exact ⟨hlength, h⟩
  · rintro ⟨hlength, h⟩
    exact ⟨hlength, by omega, h⟩

theorem text_of_ofString? (hs : ofString? s = some h) : h.text = s.map Hex.plain := by
  rw [text, digits, Hex.write_of_read? (ofString?_eq_some_iff.mp hs), ← String.toList_map,
    String.ofList_toList]

/-- A text is read as a hash just if it is 32 digits, where a plus sign may stand for the first of two.
The hash is written as the text in lower case, with zeros for the signs, and what is written is
read. -/
theorem ofString?_exact (s : String) :
    ((ofString? s).isSome = true ↔
      s.length = 32 ∧ ∀ i c, s.toList[i]? = some c → Hex.IsDigit c ∨ i % 2 = 0 ∧ c = '+') ∧
    (∀ h, ofString? s = some h → h.text = s.map fun c => if c = '+' then '0' else c.toLower) ∧
    ('+' ∉ s.toList →
      ((ofString? s).isSome = true ↔ s.length = 32 ∧ ∀ c ∈ s.toList, Hex.IsDigit c) ∧
      ∀ h, ofString? s = some h → h.text = s.toLower) ∧
    ∀ h, ofString? (text h) = some h := by
  refine ⟨ofString?_isSome_iff, fun h hs => text_of_ofString? hs, fun hplus => ⟨?_, fun h hs => ?_⟩,
    ofString?_text⟩
  · rw [ofString?_isSome_iff]
    refine and_congr_right fun _ => ?_
    have hfits (i : Nat) (c : Char) (hc : s.toList[i]? = some c) :
        Hex.Fits i c ↔ Hex.IsDigit c := by
      have hne : c ≠ '+' := fun heq => hplus (heq ▸ List.mem_of_getElem? hc)
      simp [Hex.Fits, hne]
    constructor
    · intro h c hc
      obtain ⟨i, hi⟩ := List.mem_iff_getElem?.mp hc
      exact (hfits i c hi).mp (h i c hi)
    · exact fun h i c hc => (hfits i c hc).mpr (h c (List.mem_of_getElem? hc))
  · have hmap : s.toList.map Hex.plain = s.toList.map Char.toLower :=
      List.map_congr_left fun c hc => if_neg fun heq : c = '+' => hplus (heq ▸ hc)
    have hlower : s.toLower = s.map Char.toLower := rfl
    rw [text_of_ofString? hs, hlower, ← String.toList_inj, String.toList_map, String.toList_map, hmap]

theorem ofString?_exact_of_mixedCase :
    ∃ h, ofString? "00112233445566778899aAbBcCdDeEfF" = some h ∧
      h.text.toList = "00112233445566778899aabbccddeeff".toList := by
  obtain ⟨-, -, hplain, -⟩ := ofString?_exact "00112233445566778899aAbBcCdDeEfF"
  have hdigits := hplain (by decide +kernel)
  have hall : "00112233445566778899aAbBcCdDeEfF".toList.all (decide <| Hex.IsDigit ·) = true := by
    decide +kernel
  obtain ⟨h, hs⟩ := Option.isSome_iff_exists.mp (hdigits.1.mpr ⟨by decide +kernel,
    fun c hc => of_decide_eq_true (List.all_eq_true.mp hall c hc)⟩)
  refine ⟨h, hs, ?_⟩
  rw [hdigits.2 h hs]
  exact (String.toList_map ..).trans (by decide +kernel)

/-- A text with signs is read, though a sign is no digit. -/
theorem ofString?_of_signs :
    (ofString? "+0+0+0+0+0+0+0+0+0+0+0+0+0+0+0+0").isSome = true ∧
      ¬∀ c ∈ "+0+0+0+0+0+0+0+0+0+0+0+0+0+0+0+0".toList, Hex.IsDigit c := by
  refine ⟨by decide +kernel, fun hdigits => ?_⟩
  have hsign : Hex.IsDigit '+' := hdigits '+' (by decide +kernel)
  exact hsign.ne_plus rfl

end ContentHash

end BuildCache
