import BuildCache.Fingerprint
import BuildCache.Proofs.Path.Text
import Mathlib.Algebra.BigOperators.Group.List.Basic
import Mathlib.Data.List.Infix

/-!
# Telling plugin lists apart

A fingerprint joins the texts of plugins, a text joins a name and a key, and nothing is escaped.
Both joins come apart where the separator is first met, as long as no part has one of its own.
-/

namespace BuildCache

section Joins

variable {sep a b x y : List Char}

/-- The separator behind a part is the first one met. -/
def EndsAt (sep a : List Char) : Prop := ∀ u v, a ++ sep = u ++ sep ++ v → v = []

private theorem eq_nil_of_append_sep (hb : EndsAt sep b) {c : List Char} (hc : b = a ++ c)
    (h : sep ++ x = c ++ (sep ++ y)) : c = [] := by
  have hshort : sep <+: c ++ (sep ++ y) := ⟨x, h⟩
  have hlong : c ++ sep <+: c ++ (sep ++ y) := ⟨y, by simp⟩
  obtain ⟨v, hv⟩ := List.prefix_of_prefix_length_le hshort hlong (by simp)
  obtain rfl : v = [] := hb a v (by rw [hc, List.append_assoc, ← hv, List.append_assoc])
  simpa using hv

theorem eq_of_append_sep (ha : EndsAt sep a) (hb : EndsAt sep b)
    (h : a ++ sep ++ x = b ++ sep ++ y) : a = b ∧ x = y := by
  rw [List.append_assoc, List.append_assoc] at h
  rcases List.append_eq_append_iff.mp h with ⟨c, hc, hrest⟩ | ⟨c, hc, hrest⟩
  · obtain rfl := eq_nil_of_append_sep hb hc hrest
    simp_all
  · obtain rfl := eq_nil_of_append_sep ha hc hrest
    simp_all

theorem EndsAt.ne_append (hb : EndsAt sep b) (hne : sep ≠ []) : b ≠ a ++ sep ++ x := by
  rintro rfl
  have hempty : x ++ sep = [] := hb a (x ++ sep) (by simp)
  exact hne (List.append_eq_nil_iff.mp hempty).2

/-- Parts can be read back from where they are joined. -/
theorem eq_of_intercalate {as bs : List (List Char)} (hsep : sep ≠ [])
    (has : ∀ a ∈ as, a ≠ [] ∧ EndsAt sep a) (hbs : ∀ b ∈ bs, b ≠ [] ∧ EndsAt sep b)
    (h : sep.intercalate as = sep.intercalate bs) : as = bs := by
  have hnil {a : List Char} {as : List (List Char)} (ha : a ≠ []) :
      sep.intercalate (a :: as) ≠ [] := by
    cases as <;> simp [List.intercalate_cons_cons, ha]
  induction as generalizing bs with
  | nil =>
    cases bs with
    | nil => rfl
    | cons b bs => exact absurd h.symm (hnil (hbs b List.mem_cons_self).1)
  | cons a as ih =>
    obtain ⟨⟨ha, haEnds⟩, has'⟩ := List.forall_mem_cons.mp has
    cases bs with
    | nil => exact absurd h (hnil ha)
    | cons b bs =>
      obtain ⟨⟨hb, hbEnds⟩, hbs'⟩ := List.forall_mem_cons.mp hbs
      rcases as with _ | ⟨a', as⟩ <;> rcases bs with _ | ⟨b', bs⟩
      · simpa using h
      · rw [List.intercalate_singleton, List.intercalate_cons_cons] at h
        exact absurd h (haEnds.ne_append hsep)
      · rw [List.intercalate_singleton, List.intercalate_cons_cons] at h
        exact absurd h.symm (hbEnds.ne_append hsep)
      · rw [List.intercalate_cons_cons, List.intercalate_cons_cons] at h
        obtain ⟨rfl, hrest⟩ := eq_of_append_sep haEnds hbEnds h
        rw [ih has' hbs' hrest]

theorem endsAt_singleton {c : Char} (h : c ∉ a) : EndsAt [c] a := by
  intro u v huv
  rcases List.eq_nil_or_concat v with rfl | ⟨front, last, rfl⟩
  · rfl
  · rw [List.concat_eq_append, ← List.append_assoc] at huv
    obtain ⟨rfl, -⟩ := List.append_inj' huv rfl
    simp at h

end Joins

namespace Plugin

def separator : List Char := [' ', '&', '&', ' ']

/-- A plugin whose text can be read back: no `@` is in its name but at the start, and no separator
is in its text or ends with the blank behind it. -/
structure Legible (p : Plugin) : Prop where
  name : '@' ∉ p.name.toList.tail
  text : ¬separator <:+: p.text.toList ++ [' ']

instance (p : Plugin) : Decidable p.Legible :=
  decidable_of_iff ('@' ∉ p.name.toList.tail ∧ ¬separator <:+: p.text.toList ++ [' '])
    ⟨fun h => ⟨h.1, h.2⟩, fun h => ⟨h.name, h.text⟩⟩

/-- The plugins that count. -/
def named (plugins : List Plugin) : List Plugin := plugins.filter (!·.name.isEmpty)

/-- Long keys of two lists are told apart by their digests. -/
def KeysApart (ps qs : List Plugin) : Prop :=
  ∀ p ∈ ps, ∀ q ∈ qs, ∀ k ∈ p.key, ∀ k' ∈ q.key, maxInlineKeyLength < k.utf8ByteSize →
    maxInlineKeyLength < k'.utf8ByteSize → keyText k = keyText k' → k = k'

variable {p q : Plugin} {ps qs : List Plugin}

/-- A separator met earlier would end in the text or with the first blank behind it. -/
theorem Legible.endsAt (h : p.Legible) : EndsAt separator p.text.toList := by
  intro u v huv
  have hreverse : ' ' :: '&' :: '&' :: ' ' :: p.text.toList.reverse =
      v.reverse ++ ' ' :: '&' :: '&' :: ' ' :: u.reverse := by
    simpa [separator] using congrArg List.reverse huv
  rcases hv : v.reverse with _ | ⟨x, _ | ⟨y, _ | ⟨z, w⟩⟩⟩
  · exact List.reverse_eq_nil_iff.mp hv
  · simp [hv] at hreverse
  · simp [hv] at hreverse
  · have hrest : ' ' :: p.text.toList.reverse = w ++ ' ' :: '&' :: '&' :: ' ' :: u.reverse := by
      simp_all
    refine absurd ⟨u, w.reverse, ?_⟩ h.text
    simpa [separator] using (congrArg List.reverse hrest).symm

theorem length_le_utf8ByteSize (s : String) : s.toList.length ≤ s.utf8ByteSize := by
  have hsize : s.utf8ByteSize = (s.toList.flatMap String.utf8EncodeChar).length := by
    rw [← Bytes.ofString_eq_flatMap]
    rfl
  have hsum := List.length_le_sum_of_one_le
    (s.toList.map fun c => (String.utf8EncodeChar c).length) fun n hn => by
      obtain ⟨c, -, rfl⟩ := List.mem_map.mp hn
      rw [String.length_utf8EncodeChar]
      exact c.utf8Size_pos
  rwa [List.length_map, ← List.length_flatMap, ← hsize] at hsum

theorem keyText_of_le {k : String} (h : k.utf8ByteSize ≤ maxInlineKeyLength) : keyText k = k :=
  if_pos h

theorem lt_utf8ByteSize_keyText {k : String} (h : maxInlineKeyLength < k.utf8ByteSize) :
    maxInlineKeyLength < (keyText k).utf8ByteSize := by
  refine Nat.lt_of_lt_of_le ?_ (length_le_utf8ByteSize _)
  rw [keyText, if_neg (Nat.not_le.mpr h), ContentHash.short, String.toList_ofList, List.length_take,
    ContentHash.length_digits]
  decide

theorem eq_of_keyText {k k' : String}
    (hlong : maxInlineKeyLength < k.utf8ByteSize → maxInlineKeyLength < k'.utf8ByteSize →
      keyText k = keyText k' → k = k') (h : keyText k = keyText k') : k = k' := by
  by_cases hk : k.utf8ByteSize ≤ maxInlineKeyLength
  · by_cases hk' : k'.utf8ByteSize ≤ maxInlineKeyLength
    · rwa [keyText_of_le hk, keyText_of_le hk'] at h
    · -- a digest is no short key
      have hdigest := lt_utf8ByteSize_keyText (Nat.lt_of_not_le hk')
      rw [← h, keyText_of_le hk] at hdigest
      exact absurd hk (Nat.not_le.mpr hdigest)
  · by_cases hk' : k'.utf8ByteSize ≤ maxInlineKeyLength
    · have hdigest := lt_utf8ByteSize_keyText (Nat.lt_of_not_le hk)
      rw [h, keyText_of_le hk'] at hdigest
      exact absurd hk' (Nat.not_le.mpr hdigest)
    · exact hlong (Nat.lt_of_not_le hk) (Nat.lt_of_not_le hk') h

theorem toList_text (p : Plugin) : p.text.toList =
    p.name.toList ++ p.key.toList.flatMap fun k => '@' :: (keyText k).toList := by
  rw [text]
  cases p.key <;> simp

theorem name_ne_of_mem_named (h : p ∈ named ps) : p.name ≠ "" := by
  simpa using (List.mem_filter.mp h).2

/-- A text is read as a name and a key in one way. -/
theorem parts_of_text (hp : p.Legible) (hq : q.Legible) (hpName : p.name ≠ "")
    (hqName : q.name ≠ "") (h : p.text = q.text) :
    p.name = q.name ∧ p.key.map keyText = q.key.map keyText := by
  have hchars {s : String} (hs : s ≠ "") : ∃ c cs, s.toList = c :: cs :=
    List.exists_cons_of_ne_nil fun hnil => hs (String.toList_eq_nil_iff.mp hnil)
  obtain ⟨c, name, hname⟩ := hchars hpName
  obtain ⟨c', name', hname'⟩ := hchars hqName
  have hat : '@' ∉ name := by simpa [hname] using hp.name
  have hat' : '@' ∉ name' := by simpa [hname'] using hq.name
  have htext := congrArg String.toList h
  rw [toList_text, toList_text, hname, hname', List.cons_append, List.cons_append] at htext
  obtain ⟨rfl, htext⟩ := List.cons.inj htext
  suffices hparts : name = name' ∧ p.key.map keyText = q.key.map keyText by
    refine ⟨?_, hparts.2⟩
    rw [← String.toList_inj, hname, hname', hparts.1]
  cases hk : p.key with
  | none =>
    cases hk' : q.key with
    | none => simpa [hk, hk'] using htext
    | some k' =>
      have heq : name = name' ++ '@' :: (keyText k').toList := by simpa [hk, hk'] using htext
      simp [heq] at hat
  | some k =>
    cases hk' : q.key with
    | none =>
      have heq : name ++ '@' :: (keyText k).toList = name' := by simpa [hk, hk'] using htext
      simp [← heq] at hat'
    | some k' =>
      have heq : name ++ ['@'] ++ (keyText k).toList = name' ++ ['@'] ++ (keyText k').toList := by
        simpa [hk, hk'] using htext
      obtain ⟨hnames, hkeys⟩ := eq_of_append_sep (endsAt_singleton hat) (endsAt_singleton hat') heq
      exact ⟨hnames, congrArg some (String.toList_inj.mp hkeys)⟩

theorem eq_of_text (hp : p.Legible) (hq : q.Legible) (hpName : p.name ≠ "") (hqName : q.name ≠ "")
    (hkeys : KeysApart [p] [q]) (h : p.text = q.text) : p = q := by
  obtain ⟨hname, hkey⟩ := parts_of_text hp hq hpName hqName h
  suffices heq : p.key = q.key by
    cases p
    cases q
    simp_all
  cases hk : p.key with
  | none => cases hk' : q.key <;> simp_all
  | some k =>
    cases hk' : q.key with
    | none => simp_all
    | some k' =>
      rw [hk, hk', Option.map_some, Option.map_some, Option.some.injEq] at hkey
      rw [eq_of_keyText (hkeys p (by simp) q (by simp) k hk k' hk') hkey]

theorem eq_of_texts (hps : ∀ p ∈ ps, p.Legible ∧ p.name ≠ "")
    (hqs : ∀ q ∈ qs, q.Legible ∧ q.name ≠ "") (hkeys : KeysApart ps qs)
    (h : ps.map text = qs.map text) : ps = qs := by
  induction ps generalizing qs with
  | nil => simpa using h.symm
  | cons p ps ih =>
    cases qs with
    | nil => simp at h
    | cons q qs =>
      obtain ⟨htext, hrest⟩ := List.cons.inj h
      obtain ⟨⟨hp, hpName⟩, hps⟩ := List.forall_mem_cons.mp hps
      obtain ⟨⟨hq, hqName⟩, hqs⟩ := List.forall_mem_cons.mp hqs
      have hpq : KeysApart [p] [q] := by simpa [KeysApart] using hkeys p (by simp) q (by simp)
      have hapart : KeysApart ps qs := fun p hp q hq =>
        hkeys p (List.mem_cons_of_mem _ hp) q (List.mem_cons_of_mem _ hq)
      rw [eq_of_text hp hq hpName hqName hpq htext, ih hps hqs hapart hrest]

theorem text_ne_nil (h : p.name ≠ "") : p.text.toList ≠ [] := by
  rw [toList_text]
  simp [h]

end Plugin

open Plugin

/-- Lists of legible plugins have one fingerprint only if their named plugins are the same, in the
same order and with the same keys. -/
theorem fingerprint_eq_iff {ps qs : List Plugin} (hps : ∀ p ∈ named ps, p.Legible)
    (hqs : ∀ q ∈ named qs, q.Legible) (hkeys : KeysApart (named ps) (named qs)) :
    Fingerprint.ofPlugins ps = Fingerprint.ofPlugins qs ↔ named ps = named qs := by
  have hparts {plugins : List Plugin} (hlegible : ∀ p ∈ named plugins, p.Legible) :
      ∀ part ∈ ((named plugins).map text).map String.toList, part ≠ [] ∧ EndsAt separator part := by
    intro part hpart
    obtain ⟨_, htext, rfl⟩ := List.mem_map.mp hpart
    obtain ⟨p, hp, rfl⟩ := List.mem_map.mp htext
    exact ⟨text_ne_nil (name_ne_of_mem_named hp), (hlegible p hp).endsAt⟩
  constructor
  · intro h
    have hjoined := congrArg String.toList h
    rw [Fingerprint.ofPlugins, Fingerprint.ofPlugins, String.toList_intercalate,
      String.toList_intercalate] at hjoined
    have htexts := eq_of_intercalate (by decide) (hparts hps) (hparts hqs) hjoined
    refine eq_of_texts (fun p hp => ⟨hps p hp, name_ne_of_mem_named hp⟩)
      (fun q hq => ⟨hqs q hq, name_ne_of_mem_named hq⟩) hkeys ?_
    exact List.map_injective_iff.mpr (fun s s' => String.toList_inj.mp) htexts
  · intro h
    exact congrArg (fun plugins => " && ".intercalate (plugins.map text)) h

namespace Sample

def withOptions (options : String) : List Plugin :=
  [⟨"", some "unnamed"⟩, ⟨"@scope/postcss", some options⟩, ⟨"css", none⟩]

end Sample

open Sample in
theorem fingerprint_ne_of_otherOptions :
    Fingerprint.ofPlugins (withOptions "nesting: true") ≠
      Fingerprint.ofPlugins (withOptions "nesting: false") := by
  intro h
  have hlegible : ∀ options ∈ ["nesting: true", "nesting: false"],
      ∀ p ∈ named (withOptions options), p.Legible := by decide +kernel
  have hdigests : keyText "nesting: true" ≠ keyText "nesting: false" := by decide +kernel
  have hkeys : KeysApart (named (withOptions "nesting: true"))
      (named (withOptions "nesting: false")) := by
    simp [KeysApart, named, withOptions, hdigests]
  have hlists := (fingerprint_eq_iff (hlegible _ (by simp)) (hlegible _ (by simp)) hkeys).mp h
  simp [named, withOptions] at hlists

/-- One plugin can have the fingerprint of two, and a name that of a name and a key. -/
theorem fingerprint_eq_of_separator_in_name :
    Fingerprint.ofPlugins [⟨"a && b", none⟩] = Fingerprint.ofPlugins [⟨"a", none⟩, ⟨"b", none⟩] ∧
      named [⟨"a && b", none⟩] ≠ named [⟨"a", none⟩, ⟨"b", none⟩] ∧
      Fingerprint.ofPlugins [⟨"a@1", none⟩] = Fingerprint.ofPlugins [⟨"a", some "1"⟩] ∧
      named [⟨"a@1", none⟩] ≠ named [⟨"a", some "1"⟩] := by
  refine ⟨by decide, ?_, by decide, ?_⟩ <;> simp [named]

end BuildCache
