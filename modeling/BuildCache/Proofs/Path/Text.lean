import BuildCache.Path.Normal

/-!
# Paths that are text

A slash is a byte of no character but itself, so bytes are text if and only if the pieces between
slashes are. Whether a path is text is therefore a matter of its components, and not of how it is
spelled.
-/

namespace BuildCache

namespace Bytes

theorem ofString_injective {s s' : String} (h : ofString s = ofString s') : s = s' := by
  have htext := congrArg text? h
  rwa [text?_ofString, text?_ofString, Option.some.injEq] at htext

theorem ofString_eq_flatMap (s : String) :
    ofString s = s.toList.flatMap String.utf8EncodeChar := by
  rw [ofString, String.toUTF8, ← String.utf8Encode_toList, List.utf8Encode, List.data_toByteArray]

theorem slash_mem_encodeChar {c : Char} (h : Path.slash ∈ String.utf8EncodeChar c) : c = '/' := by
  suffices hval : c.val.toNat = 47 from Char.ext (UInt32.toNat_inj.mp hval)
  have hbyte (n : Nat) : Path.slash = UInt8.ofNat n ↔ n % 256 = 47 := by
    rw [← UInt8.toNat_inj, UInt8.toNat_ofNat']
    exact eq_comm
  simp only [String.utf8EncodeChar] at h
  split at h
  · simp only [List.mem_singleton, hbyte] at h
    omega
  · split at h
    · simp only [List.mem_cons, List.not_mem_nil, or_false, hbyte] at h
      omega
    · split at h <;>
      · simp only [List.mem_cons, List.not_mem_nil, or_false, hbyte] at h
        omega

theorem slash_mem_ofString {s : String} (h : Path.slash ∈ ofString s) : '/' ∈ s.toList := by
  rw [ofString_eq_flatMap, List.mem_flatMap] at h
  obtain ⟨c, hc, hslash⟩ := h
  exact slash_mem_encodeChar hslash ▸ hc

def IsText (b : Bytes) : Prop := ∃ s, b = ofString s

variable {a b : Bytes}

theorem isText_iff_text? : b.IsText ↔ b.text?.isSome = true := by
  rw [Option.isSome_iff_exists]
  exact exists_congr fun _ => text?_eq_some_iff.symm

theorem isText_iff_exists_chars :
    b.IsText ↔ ∃ cs : List Char, b = cs.flatMap String.utf8EncodeChar := by
  constructor
  · rintro ⟨s, rfl⟩
    exact ⟨s.toList, ofString_eq_flatMap s⟩
  · rintro ⟨cs, rfl⟩
    exact ⟨.ofList cs, by rw [ofString_eq_flatMap, String.toList_ofList]⟩

theorem IsText.append (ha : a.IsText) (hb : b.IsText) : IsText (a ++ b) := by
  obtain ⟨cs, rfl⟩ := isText_iff_exists_chars.mp ha
  obtain ⟨ds, rfl⟩ := isText_iff_exists_chars.mp hb
  exact isText_iff_exists_chars.mpr ⟨cs ++ ds, List.flatMap_append.symm⟩

theorem isText_nil : IsText [] := ⟨"", by decide⟩

/-- Text comes apart at a slash. -/
theorem isText_append_slash : IsText (a ++ Path.slash :: b) ↔ a.IsText ∧ b.IsText := by
  constructor
  · intro h
    obtain ⟨cs, hcs⟩ := isText_iff_exists_chars.mp h
    clear h
    induction cs generalizing a with
    | nil => simp at hcs
    | cons c cs ih =>
      rw [List.flatMap_cons, List.append_eq_append_iff] at hcs
      rcases hcs with ⟨a', hchar, hrest⟩ | ⟨a', rfl, hrest⟩
      · -- the slash is a byte of this character, and so all of it
        cases a' with
        | nil =>
          obtain rfl : String.utf8EncodeChar c = a := by simpa using hchar
          obtain ⟨-, hb⟩ := ih (a := []) hrest
          exact ⟨isText_iff_exists_chars.mpr ⟨[c], by simp⟩, hb⟩
        | cons x a' =>
          obtain ⟨rfl, rfl⟩ := List.cons.inj hrest
          obtain rfl := slash_mem_encodeChar (hchar ▸ List.mem_append_right a List.mem_cons_self)
          have hslash : a ++ Path.slash :: a' = [Path.slash] := hchar.symm
          obtain ⟨rfl, rfl⟩ : a = [] ∧ a' = [] := by
            cases a <;> simp_all
          exact ⟨isText_nil, isText_iff_exists_chars.mpr ⟨cs, by simp⟩⟩
      · obtain ⟨ha', hb⟩ := ih hrest.symm
        exact ⟨(isText_iff_exists_chars.mpr ⟨[c], by simp⟩ : IsText _).append ha', hb⟩
  · rintro ⟨ha, hb⟩
    have hslash : IsText [Path.slash] := ⟨"/", by decide⟩
    exact ha.append (hslash.append hb)

end Bytes

namespace Path

def IsText (p : Path) : Prop := p.bytes.IsText

variable {p q : Path}

theorem isText_iff_text? : p.IsText ↔ p.text?.isSome = true := Bytes.isText_iff_text?

theorem isText_ofString (s : String) : (ofString s).IsText := ⟨s, rfl⟩

theorem isText_joinSlash {pieces : List Bytes} :
    (joinSlash pieces).IsText ↔ ∀ piece ∈ pieces, piece.IsText := by
  induction pieces with
  | nil => simpa [joinSlash] using Bytes.isText_nil
  | cons piece pieces ih =>
    cases pieces with
    | nil => simp [joinSlash]
    | cons next pieces =>
      have hjoin : joinSlash (piece :: next :: pieces) =
          piece ++ slash :: joinSlash (next :: pieces) := by simp [joinSlash]
      simp only [hjoin, Bytes.isText_append_slash, ih, List.forall_mem_cons]

theorem isText_dot : dot.IsText := ⟨".", by decide⟩

theorem isText_dotDot : dotDot.IsText := ⟨"..", by decide⟩

theorem isText_iff_segments : p.IsText ↔ ∀ s ∈ p.segments, s.IsText := by
  rw [IsText, ← joinSlash_splitSlash p.bytes, isText_joinSlash]
  constructor
  · intro h s hs
    exact h s (List.mem_filter.mp hs).1
  · intro h piece hpiece
    by_cases hnil : piece = []
    · exact hnil ▸ Bytes.isText_nil
    · exact h piece (List.mem_filter.mpr ⟨hpiece, by simpa using hnil⟩)

/-- Of the segments those that are no component are dots, and of the components those that are no
segment are too. -/
theorem isText_iff_components : p.IsText ↔ ∀ c ∈ p.components, c.text.IsText := by
  rw [isText_iff_segments]
  constructor
  · intro h c hc
    rcases List.mem_append.mp hc with hstart | hinner
    · split at hstart
      · rw [List.mem_singleton.mp hstart]
        exact Bytes.isText_nil
      · split at hstart
        · rw [List.mem_singleton.mp hstart]
          exact isText_dot
        · simp at hstart
    · obtain ⟨s, hs, hc⟩ := List.mem_filterMap.mp hinner
      split at hc
      · cases hc
      · split at hc <;> cases hc
        · exact isText_dotDot
        · exact h s hs
  · intro h s hs
    by_cases hdot : s = dot
    · exact hdot ▸ isText_dot
    · by_cases hdots : s = dotDot
      · exact hdots ▸ isText_dotDot
      · have hname : Component.name s ∈ p.components :=
          List.mem_append_right _ (List.mem_filterMap.mpr ⟨s, hs, by simp [hdot, hdots]⟩)
        exact h _ hname

theorem isText_congr (h : compare p q = .eq) : p.IsText ↔ q.IsText := by
  rw [isText_iff_components, isText_iff_components, compare_eq_iff.mp h]

end Path

end BuildCache
