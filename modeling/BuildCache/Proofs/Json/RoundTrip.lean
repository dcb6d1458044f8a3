import BuildCache.Json.Reader
import BuildCache.Json.Writer
import Mathlib.Data.List.TakeDrop

/-!
# Reading back what was written

A value whose numbers are natural numbers is read back from either layout. The induction on the
value carries what follows it, which must not go on with a number.
-/

namespace BuildCache.Json

/-- Values with natural numbers only. -/
inductive Natural : Json → Prop where
  | null : Natural .null
  | bool (b : Bool) : Natural (.bool b)
  | number (n : Nat) : Natural (.ofNat n)
  | string (text : Option String) : Natural (.string text)
  | array (items : List Json) (h : ∀ v ∈ items, Natural v) : Natural (.array items)
  | object (fields : List (Option String × Json)) (h : ∀ f ∈ fields, Natural f.2) :
      Natural (.object fields)

private theorem skipGap_of_not_gap {c : Char} {cs : List Char} (h : isGap c = false) :
    skipGap (c :: cs) = c :: cs := by
  simp [skipGap, h]

private theorem skipGap_lineBreak (pretty : Bool) (depth : Nat) (cs : List Char) :
    skipGap (lineBreak pretty depth ++ cs) = skipGap cs := by
  have hspaces (n : Nat) : (List.replicate n ' ' ++ cs).dropWhile isGap = cs.dropWhile isGap := by
    induction n with
    | zero => rfl
    | succ n ih =>
      rw [List.replicate_succ, List.cons_append, List.dropWhile_cons_of_pos (by decide), ih]
  cases pretty
  · rfl
  · rw [lineBreak, if_pos rfl, skipGap, List.cons_append, List.dropWhile_cons_of_pos (by decide),
      hspaces, skipGap]

/-- What follows does not go on with a number. -/
def Ends (cs : List Char) : Prop :=
  ∀ c, cs.head? = some c → c.isDigit = false ∧ c ≠ '.' ∧ c ≠ 'e' ∧ c ≠ 'E'

private theorem ends_cons {c : Char} {cs : List Char} (h : c.isDigit = false) (hpoint : c ≠ '.')
    (he : c ≠ 'e') (hE : c ≠ 'E') : Ends (c :: cs) := by
  intro c' hc'
  obtain rfl : c = c' := by simpa using hc'
  exact ⟨h, hpoint, he, hE⟩

private theorem ends_lineBreak {pretty : Bool} {depth : Nat} {cs : List Char} (h : Ends cs) :
    Ends (lineBreak pretty depth ++ cs) := by
  cases pretty
  · exact h
  · exact ends_cons (by decide) (by decide) (by decide) (by decide)

private theorem digits_append {ds cs : List Char} (hds : ∀ c ∈ ds, c.isDigit = true)
    (hcs : Ends cs) : digits (ds ++ cs) = (ds, cs) := by
  rw [digits, List.span_eq_takeWhile_dropWhile, List.takeWhile_append_of_pos hds,
    List.dropWhile_append_of_pos hds]
  cases cs with
  | nil => simp
  | cons c cs => simp [(hcs c rfl).1]

private theorem head?_toDigits_ne_zero {n : Nat} (h : n ≠ 0) :
    (Nat.toDigits 10 n).head? ≠ some '0' := by
  induction n using Nat.strongRecOn with
  | ind n ih =>
    by_cases hlt : n < 10
    · have hdigit : ∀ d < 10, d ≠ 0 → d.digitChar ≠ '0' := by decide
      rw [Nat.toDigits_of_lt_base hlt]
      simpa using hdigit n hlt h
    · have hdiv : n / 10 ≠ 0 := by omega
      rw [Nat.toDigits_of_base_le (by decide) (Nat.le_of_not_lt hlt)]
      have hhead := ih (n / 10) (by omega) hdiv
      cases hds : Nat.toDigits 10 (n / 10) with
      | nil => exact absurd hds Nat.toDigits_ne_nil
      | cons d ds => simpa [hds] using hhead

private theorem isDigit_of_mem_toDigits {n : Nat} : ∀ c ∈ Nat.toDigits 10 n, c.isDigit = true :=
  fun _ hc => Nat.isDigit_of_mem_toDigits (by decide) (by decide) hc

private theorem readWhole_toDigits (n : Nat) {cs : List Char} (hcs : Ends cs) :
    readWhole (Nat.toDigits 10 n ++ cs) = some (Nat.toDigits 10 n, cs) := by
  have hspan := digits_append (isDigit_of_mem_toDigits (n := n)) hcs
  have hne : Nat.toDigits 10 n ≠ [] := Nat.toDigits_ne_nil
  by_cases hzero : n = 0
  · have hnone : ∀ c ∈ ([] : List Char), c.isDigit = true := by simp
    have hcs' := digits_append hnone hcs
    rw [List.nil_append] at hcs'
    simp [hzero, Nat.toDigits_zero, readWhole, hcs']
  · rw [readWhole.eq_2, someDigits, hspan]
    · simp [hne]
    · intro rest hrest
      apply head?_toDigits_ne_zero hzero
      cases hds : Nat.toDigits 10 n with
      | nil => exact absurd hds hne
      | cons d ds => simp_all

private theorem readNumber_toDigits (n : Nat) {cs : List Char} (hcs : Ends cs) :
    readNumber (Nat.toDigits 10 n ++ cs) = some (Nat.toDigits 10 n, cs) := by
  have hsign : ∀ rest, Nat.toDigits 10 n ++ cs = '-' :: rest → False := by
    intro rest h
    cases hds : Nat.toDigits 10 n with
    | nil => exact absurd hds Nat.toDigits_ne_nil
    | cons d ds =>
      have hd : d.isDigit = true := isDigit_of_mem_toDigits d (hds ▸ List.mem_cons_self)
      rw [hds, List.cons_append] at h
      obtain rfl := (List.cons.inj h).1
      exact absurd hd (by decide)
  have hfraction : readFraction cs = some ([], cs) := by
    cases cs with
    | nil => rfl
    | cons c cs => exact readFraction.eq_2 _ fun rest h => (hcs c rfl).2.1 (List.cons.inj h).1
  have hexponent : readExponent cs = some ([], cs) := by
    cases cs with
    | nil => rfl
    | cons c cs => rw [readExponent, if_neg (by simpa using (hcs c rfl).2.2)]
  rw [readNumber.eq_2 _ hsign]
  simp [readWhole_toDigits n hcs, hfraction, hexponent]

private theorem hexDigit?_digitChar : ∀ d < 16, hexDigit? d.digitChar = some d := by decide

private theorem ofUnit_toNat (c : Char) : Piece.ofUnit c.toNat = .char c := by
  have hvalid := c.valid
  have hlow : ¬(isHighSurrogate c.toNat || isLowSurrogate c.toNat) = true := by
    simp only [isHighSurrogate, isLowSurrogate, Bool.or_eq_true, Bool.and_eq_true,
      decide_eq_true_eq]
    simp only [UInt32.isValidChar, Nat.isValidChar] at hvalid
    have hnat : c.toNat = c.val.toNat := rfl
    omega
  rw [Piece.ofUnit, if_neg hlow, Char.ofNat_toNat]

private theorem readPieces_simpleEscape {c e : Char} (hc : c ≠ 'u') (he : simpleEscape? c = some e)
    (cs : List Char) :
    readPieces ('\\' :: c :: cs) =
      (readPieces cs).map fun (pieces, rest) => (.char e :: pieces, rest) := by
  rw [readPieces, he]
  · cases readPieces cs <;> rfl
  · rintro _ _ _ _ _ rfl
    contradiction

private theorem readPieces_escape (c : Char) (cs : List Char) :
    readPieces (escape c ++ cs) =
      (readPieces cs).map fun (pieces, rest) => (.char c :: pieces, rest) := by
  fun_cases escape c with
  | case8 =>
    have hhigh := hexDigit?_digitChar (c.toNat / 16) (by omega)
    have hlow := hexDigit?_digitChar (c.toNat % 16) (by omega)
    have hunit : unit? '0' '0' (c.toNat / 16).digitChar (c.toNat % 16).digitChar = some c.toNat := by
      have hzero : hexDigit? '0' = some 0 := by decide
      have hvalue : 16 * (c.toNat / 16) + c.toNat % 16 = c.toNat := Nat.div_add_mod c.toNat 16
      simp [unit?, hzero, hhigh, hlow, hvalue]
    simp only [List.cons_append, List.nil_append, readPieces, hunit]
    cases readPieces cs <;> simp [ofUnit_toNat]
  | case9 _ hquote hback _ _ _ _ _ hcontrol =>
    rw [List.singleton_append, readPieces, if_neg hcontrol]
    · exact hquote
    · exact fun _ _ _ _ _ h _ => hback h
    · exact fun _ _ h _ => hback h
  | _ => exact readPieces_simpleEscape (by decide) (by decide) cs

private theorem readPieces_quoted (cs rest : List Char) :
    readPieces (cs.flatMap escape ++ '"' :: rest) = some (cs.map .char, rest) := by
  induction cs with
  | nil => simp [readPieces]
  | cons c cs ih => simp [List.flatMap_cons, readPieces_escape, ih]

private theorem joinPieces_map_char (cs : List Char) : joinPieces (cs.map .char) = some cs := by
  induction cs with
  | nil => rfl
  | cons c cs ih => simp [joinPieces, ih]

/-- A quoted string reads as the string, whatever follows it. -/
private theorem readString_quote (text : Option String) (rest : List Char) :
    ∃ body, quote text ++ rest = '"' :: body ∧ readString body = some (text, rest) := by
  cases text with
  | some s =>
    have hquote : quote (some s) = '"' :: (s.toList.flatMap escape ++ ['"']) := rfl
    have happend : quote (some s) ++ rest = '"' :: (s.toList.flatMap escape ++ '"' :: rest) := by
      rw [hquote, List.cons_append, List.append_assoc, List.singleton_append]
    have hread : readString (s.toList.flatMap escape ++ '"' :: rest) = some (some s, rest) := by
      simp [readString, readPieces_quoted, joinPieces_map_char]
    exact ⟨_, happend, hread⟩
  | none =>
    have hquote : quote none = ['"', '\\', 'u', 'd', '8', '0', '0', '"'] := by decide
    refine ⟨['\\', 'u', 'd', '8', '0', '0', '"'] ++ rest, by rw [hquote]; rfl, ?_⟩
    have hunit : unit? 'd' '8' '0' '0' = some 0xD800 := by decide
    have hpiece : Piece.ofUnit 0xD800 = .surrogate 0xD800 := rfl
    have hpieces : readPieces (['\\', 'u', 'd', '8', '0', '0', '"'] ++ rest) =
        some ([.surrogate 0xD800], rest) := by
      simp only [List.cons_append, List.nil_append, readPieces, hunit, hpiece]
    rw [readString, hpieces]
    rfl

private theorem write_eq_cons {v : Json} (h : Natural v) (pretty : Bool) (depth : Nat) :
    ∃ c cs, write pretty depth v = c :: cs ∧ isGap c = false ∧ c ≠ ']' := by
  cases h with
  | null => exact ⟨'n', _, by rw [write]; rfl, by decide, by decide⟩
  | bool b =>
    cases b
    · exact ⟨'f', _, by rw [write]; rfl, by decide, by decide⟩
    · exact ⟨'t', _, by rw [write]; rfl, by decide, by decide⟩
  | number n =>
    cases hds : Nat.toDigits 10 n with
    | nil => exact absurd hds Nat.toDigits_ne_nil
    | cons d ds =>
      have hd : d.isDigit = true := isDigit_of_mem_toDigits d (hds ▸ List.mem_cons_self)
      refine ⟨d, ds, ?_, ?_, ?_⟩
      · rw [ofNat, write, Nat.toString_eq_ofList_toDigits, String.toList_ofList, hds]
      · rw [← Bool.not_eq_true]
        intro hgap
        simp only [isGap, Bool.or_eq_true, beq_iff_eq] at hgap
        rcases hgap with ((rfl | rfl) | rfl) | rfl <;> exact absurd hd (by decide)
      · rintro rfl
        exact absurd hd (by decide)
  | string text =>
    obtain ⟨body, hbody, -⟩ := readString_quote text []
    exact ⟨'"', body, by rw [write, ← hbody, List.append_nil], by decide, by decide⟩
  | array items =>
    cases items
    · exact ⟨'[', _, by rw [write], by decide, by decide⟩
    · exact ⟨'[', _, by rw [write], by decide, by decide⟩
  | object fields =>
    cases fields
    · exact ⟨'{', _, by rw [write], by decide, by decide⟩
    · exact ⟨'{', _, by rw [write], by decide, by decide⟩

/-- A value is read from its text, whatever follows, with enough fuel for its length. -/
def ReadsBack (pretty : Bool) (v : Json) : Prop :=
  ∀ depth fuel cs rest, Ends rest → 3 * (write pretty depth v).length ≤ fuel →
    skipGap cs = write pretty depth v ++ rest → readValue fuel cs = some (v, rest)

private theorem skipGap_write {v : Json} (h : Natural v) (pretty : Bool) (depth : Nat)
    (cs : List Char) :
    skipGap (lineBreak pretty depth ++ (write pretty depth v ++ cs)) =
      write pretty depth v ++ cs := by
  obtain ⟨c, cs', hwrite, hgap, -⟩ := write_eq_cons h pretty depth
  rw [skipGap_lineBreak, hwrite, List.cons_append, skipGap_of_not_gap hgap]

private theorem ends_writeItems (pretty : Bool) (depth : Nat) (vs : List Json) {cs : List Char}
    (h : Ends cs) : Ends (writeItems pretty depth vs ++ cs) := by
  cases vs with
  | nil => exact h
  | cons v vs =>
    rw [writeItems, List.cons_append]
    exact ends_cons (by decide) (by decide) (by decide) (by decide)

private theorem ends_writeFields (pretty : Bool) (depth : Nat)
    (fs : List (Option String × Json)) {cs : List Char} (h : Ends cs) :
    Ends (writeFields pretty depth fs ++ cs) := by
  cases fs with
  | nil => exact h
  | cons f fs =>
    rw [writeFields, List.cons_append]
    exact ends_cons (by decide) (by decide) (by decide) (by decide)

private theorem readItems_write {pretty : Bool} (depth outer : Nat) (rest : List Char)
    (vs : List Json) {v : Json} (hv : Natural v) (hvs : ∀ v ∈ vs, Natural v)
    (hread : ReadsBack pretty v) (hreads : ∀ v ∈ vs, ReadsBack pretty v) (fuel : Nat)
    (hfuel : 3 * ((write pretty depth v).length + (writeItems pretty depth vs).length) + 1 ≤ fuel) :
    readItems fuel (lineBreak pretty depth ++ (write pretty depth v ++
      (writeItems pretty depth vs ++ (lineBreak pretty outer ++ ']' :: rest)))) =
        some (v :: vs, rest) := by
  have hclose : Ends (lineBreak pretty outer ++ ']' :: rest) :=
    ends_lineBreak (ends_cons (by decide) (by decide) (by decide) (by decide))
  induction vs generalizing v fuel with
  | nil =>
    obtain ⟨fuel, rfl⟩ : ∃ n, fuel = n + 1 := ⟨fuel - 1, by omega⟩
    have hfirst := hread depth fuel _ _ hclose (by simp only [writeItems] at hfuel; omega)
      (skipGap_write hv pretty depth _)
    rw [writeItems, List.nil_append, readItems, hfirst]
    simp only
    rw [skipGap_lineBreak, skipGap_of_not_gap (by decide)]
    rfl
  | cons w vs ih =>
    obtain ⟨fuel, rfl⟩ : ∃ n, fuel = n + 1 := ⟨fuel - 1, by omega⟩
    simp only [writeItems, List.length_cons, List.length_append] at hfuel
    have hfirst := hread depth fuel _ _
      (ends_writeItems pretty depth (w :: vs) hclose) (by omega) (skipGap_write hv pretty depth _)
    have hothers := ih (v := w) (hvs w (by simp)) (fun v hv => hvs v (by simp [hv]))
      (hreads w (by simp)) (fun v hv => hreads v (by simp [hv])) fuel (by omega)
    rw [readItems, hfirst]
    simp only [writeItems, List.cons_append, List.append_assoc]
    rw [skipGap_of_not_gap (by decide)]
    simp only [hothers, Option.map_some]

private theorem readField_write {pretty : Bool} (depth : Nat) (key : Option String) {v : Json}
    {cs : List Char} (hv : Natural v) (hread : ReadsBack pretty v) (hcs : Ends cs) (fuel : Nat)
    (hfuel : 3 * (write pretty depth v).length + 1 ≤ fuel) :
    readField fuel (lineBreak pretty depth ++ (quote key ++ (colon pretty ++
      (write pretty depth v ++ cs)))) = some ((key, v), cs) := by
  obtain ⟨fuel, rfl⟩ : ∃ n, fuel = n + 1 := ⟨fuel - 1, by omega⟩
  obtain ⟨body, hbody, hkey⟩ := readString_quote key (colon pretty ++ (write pretty depth v ++ cs))
  have hskip : skipGap (write pretty depth v ++ cs) = write pretty depth v ++ cs := by
    obtain ⟨c, cs', hwrite, hgap, -⟩ := write_eq_cons hv pretty depth
    rw [hwrite, List.cons_append, skipGap_of_not_gap hgap]
  rw [readField, skipGap_lineBreak, hbody, skipGap_of_not_gap (by decide)]
  simp only [hkey]
  cases pretty
  · have hvalue := hread depth fuel _ _ hcs (by omega) hskip
    rw [colon, if_neg Bool.false_ne_true, List.singleton_append, skipGap_of_not_gap (by decide)]
    simp only [hvalue, Option.map_some]
  · have hspace : skipGap (' ' :: (write true depth v ++ cs)) = write true depth v ++ cs := by
      rw [skipGap, List.dropWhile_cons_of_pos (by decide)]
      exact hskip
    have hvalue := hread depth fuel _ _ hcs (by omega) hspace
    rw [colon, if_pos rfl, List.cons_append, List.singleton_append,
      skipGap_of_not_gap (by decide)]
    simp only [hvalue, Option.map_some]

private theorem readFields_write {pretty : Bool} (depth outer : Nat) (rest : List Char)
    (fs : List (Option String × Json)) (key : Option String) {v : Json} (hv : Natural v)
    (hfs : ∀ f ∈ fs, Natural f.2) (hread : ReadsBack pretty v)
    (hreads : ∀ f ∈ fs, ReadsBack pretty f.2) (fuel : Nat)
    (hfuel : 3 * ((write pretty depth v).length + (writeFields pretty depth fs).length) + 2 ≤ fuel) :
    readFields fuel (lineBreak pretty depth ++ (quote key ++ (colon pretty ++
      (write pretty depth v ++ (writeFields pretty depth fs ++
        (lineBreak pretty outer ++ '}' :: rest)))))) = some ((key, v) :: fs, rest) := by
  have hclose : Ends (lineBreak pretty outer ++ '}' :: rest) :=
    ends_lineBreak (ends_cons (by decide) (by decide) (by decide) (by decide))
  induction fs generalizing key v fuel with
  | nil =>
    obtain ⟨fuel, rfl⟩ : ∃ n, fuel = n + 1 := ⟨fuel - 1, by omega⟩
    have hfirst := readField_write depth key hv hread hclose fuel
      (by simp only [writeFields] at hfuel; omega)
    rw [writeFields, List.nil_append, readFields, hfirst]
    simp only
    rw [skipGap_lineBreak, skipGap_of_not_gap (by decide)]
    rfl
  | cons f fs ih =>
    obtain ⟨key', w⟩ := f
    obtain ⟨fuel, rfl⟩ : ∃ n, fuel = n + 1 := ⟨fuel - 1, by omega⟩
    simp only [writeFields, List.length_cons, List.length_append] at hfuel
    have hfirst := readField_write depth key hv hread
      (ends_writeFields pretty depth ((key', w) :: fs) hclose) fuel (by omega)
    have hothers := ih key' (v := w) (hfs _ List.mem_cons_self)
      (fun f hf => hfs f (by simp [hf])) (hreads _ List.mem_cons_self)
      (fun f hf => hreads f (by simp [hf])) fuel (by omega)
    rw [readFields, hfirst]
    simp only [writeFields, List.cons_append, List.append_assoc]
    rw [skipGap_of_not_gap (by decide)]
    simp only [hothers, Option.map_some]

private theorem exists_fuel {v : Json} (h : Natural v) {pretty : Bool} {depth fuel : Nat}
    (hfuel : 3 * (write pretty depth v).length ≤ fuel) : ∃ n, fuel = n + 1 := by
  obtain ⟨c, cs, hwrite, -⟩ := write_eq_cons h pretty depth
  rw [hwrite, List.length_cons] at hfuel
  exact ⟨fuel - 1, by omega⟩

private theorem readsBack_number (pretty : Bool) (n : Nat) : ReadsBack pretty (.ofNat n) := by
  intro depth fuel cs rest hends hfuel hcs
  obtain ⟨fuel, rfl⟩ := exists_fuel (.number n) hfuel
  have hdigits : (toString n).toList = Nat.toDigits 10 n := by
    rw [Nat.toString_eq_ofList_toDigits, String.toList_ofList]
  have hnumber := readNumber_toDigits n hends
  rw [ofNat, write, hdigits] at hcs
  cases hds : Nat.toDigits 10 n with
  | nil => exact absurd hds Nat.toDigits_ne_nil
  | cons d ds =>
    have hd : d.isDigit = true := isDigit_of_mem_toDigits d (hds ▸ List.mem_cons_self)
    have hother {c : Char} (hc : c.isDigit = false) (cs : List Char) :
        Nat.toDigits 10 n ++ rest ≠ c :: cs := by
      rw [hds, List.cons_append]
      intro heq
      rw [(List.cons.inj heq).1, hc] at hd
      contradiction
    rw [readValue, hcs]
    split
    case h_7 =>
      rw [hnumber, Option.map_some]
      simp only [ofNat, ← hdigits, String.ofList_toList]
    all_goals
      next heq => exact absurd heq (hother (by decide) _)

private theorem readsBack_array {pretty : Bool} {items : List Json}
    (hitems : ∀ v ∈ items, Natural v) (ih : ∀ v ∈ items, ReadsBack pretty v) :
    ReadsBack pretty (.array items) := by
  intro depth fuel cs rest _ hfuel hcs
  obtain ⟨fuel, rfl⟩ := exists_fuel (.array items hitems) hfuel
  cases items with
  | nil =>
    rw [readValue, hcs, write]
    rfl
  | cons v vs =>
    simp only [write, List.length_cons, List.length_append] at hfuel
    have hv := hitems v (by simp)
    have hread := readItems_write (depth + 1) depth rest vs hv
      (fun w hw => hitems w (by simp [hw])) (ih v (by simp)) (fun w hw => ih w (by simp [hw]))
      fuel (by omega)
    obtain ⟨c, cs', hwrite, hgap, hclose⟩ := write_eq_cons hv pretty (depth + 1)
    rw [readValue, hcs, write]
    simp only [List.cons_append, List.append_assoc, List.nil_append] at hread ⊢
    rw [skipGap_lineBreak, hwrite, List.cons_append, skipGap_of_not_gap hgap]
    split
    · next heq => exact absurd (List.cons.inj heq).1 hclose
    · rw [← List.cons_append, ← hwrite, hread, Option.map_some]

private theorem readsBack_object {pretty : Bool} {fields : List (Option String × Json)}
    (hfields : ∀ f ∈ fields, Natural f.2) (ih : ∀ f ∈ fields, ReadsBack pretty f.2) :
    ReadsBack pretty (.object fields) := by
  intro depth fuel cs rest _ hfuel hcs
  obtain ⟨fuel, rfl⟩ := exists_fuel (.object fields hfields) hfuel
  cases fields with
  | nil =>
    rw [readValue, hcs, write]
    rfl
  | cons f fs =>
    obtain ⟨key, v⟩ := f
    simp only [write, List.length_cons, List.length_append] at hfuel
    have hread := readFields_write (depth + 1) depth rest fs key (v := v)
      (hfields _ List.mem_cons_self) (fun f hf => hfields f (by simp [hf]))
      (ih _ List.mem_cons_self) (fun f hf => ih f (by simp [hf])) fuel (by omega)
    obtain ⟨body, hbody, -⟩ := readString_quote key (colon pretty ++
      (write pretty (depth + 1) v ++ (writeFields pretty (depth + 1) fs ++
        (lineBreak pretty depth ++ '}' :: rest))))
    rw [readValue, hcs, write]
    simp only [List.cons_append, List.append_assoc, List.nil_append] at hread ⊢
    rw [skipGap_lineBreak, hbody, skipGap_of_not_gap (by decide)]
    split
    · next heq => exact absurd (List.cons.inj heq).1 (by decide)
    · rw [← hbody, hread, Option.map_some]

theorem readsBack (pretty : Bool) {v : Json} (h : Natural v) : ReadsBack pretty v := by
  induction h with
  | number n => exact readsBack_number pretty n
  | array items hitems ih => exact readsBack_array hitems ih
  | object fields hfields ih => exact readsBack_object hfields ih
  | null =>
    intro depth fuel cs rest _ hfuel hcs
    obtain ⟨fuel, rfl⟩ := exists_fuel .null hfuel
    rw [readValue, hcs, write]
    rfl
  | bool b =>
    intro depth fuel cs rest _ hfuel hcs
    obtain ⟨fuel, rfl⟩ := exists_fuel (.bool b) hfuel
    cases b
    all_goals
      rw [readValue, hcs, write]
      rfl
  | string text =>
    intro depth fuel cs rest _ hfuel hcs
    obtain ⟨fuel, rfl⟩ := exists_fuel (.string text) hfuel
    obtain ⟨body, hbody, hread⟩ := readString_quote text rest
    rw [readValue, hcs, write, hbody]
    simp only [hread, Option.map_some]

/-- What was rendered is parsed back. -/
theorem parse?_render (pretty : Bool) {v : Json} (h : Natural v) :
    parse? (render pretty v) = some v := by
  have hends : Ends [] := by
    intro c hc
    simp at hc
  obtain ⟨c, cs, hwrite, hgap, -⟩ := write_eq_cons h pretty 0
  have hskip : skipGap (write pretty 0 v) = write pretty 0 v ++ [] := by
    rw [List.append_nil, hwrite, skipGap_of_not_gap hgap]
  have hread := readsBack pretty h 0 (3 * (write pretty 0 v).length + 3) _ [] hends (by omega) hskip
  simp only [parse?, render, String.toList_ofList, hread]
  rfl

end BuildCache.Json
