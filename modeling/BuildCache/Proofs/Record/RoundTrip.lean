import BuildCache.Proofs.Json.RoundTrip
import BuildCache.Proofs.OrderedMap
import BuildCache.Record.Json

/-!
# Tables and records read back

What is written of a table or a record reads back as the same table or record.
-/

namespace BuildCache

/-- Forms that read back what they write. A missing value is written as nothing, so no form may
look like null. -/
class LawfulForm (α : Type) [JsonForm α] : Prop where
  natural : ∀ {a : α} {v : Json}, JsonForm.toJson? a = some v → v.Natural
  ne_null : ∀ {a : α} {v : Json}, JsonForm.toJson? a = some v → v ≠ .null
  ofJson?_toJson? : ∀ {a : α} {v : Json}, JsonForm.toJson? a = some v → JsonForm.ofJson? v = some a

namespace JsonForm

theorem parse?_render? {α : Type} [JsonForm α] [LawfulForm α] {pretty : Bool} {a : α}
    {text : String} (h : render? pretty a = some text) : parse? text = some a := by
  obtain ⟨v, hv, rfl⟩ := Option.map_eq_some_iff.mp h
  rw [parse?, Json.parse?_render pretty (LawfulForm.natural hv), Option.bind_some,
    LawfulForm.ofJson?_toJson? hv]

instance : LawfulForm ContentHash where
  natural h := by cases h; exact .string _
  ne_null h := by cases h; simp [Json.ofString]
  ofJson?_toJson? {a v} h := by cases h; exact a.ofString?_text

instance : LawfulForm CacheId where
  natural h := by cases h; exact .string _
  ne_null h := by cases h; simp [Json.ofString]
  ofJson?_toJson? {a v} h := by cases h; exact a.ofString?_text

private theorem word?_ofNat {n : Nat} (h : n ≤ Json.maxWord) : (Json.ofNat n).word? = some n := by
  have hdigits : (toString n).toList = Nat.toDigits 10 n := by
    rw [Nat.toString_eq_ofList_toDigits, String.toList_ofList]
  have hall : (Nat.toDigits 10 n).all Char.isDigit = true :=
    List.all_eq_true.mpr fun c hc => Nat.isDigit_of_mem_toDigits (by decide) (by decide) hc
  have hvalue : Json.decimal (Nat.toDigits 10 n) = n := Nat.ofDigitChars_ten_toDigits
  simp only [Json.ofNat, Json.word?, hdigits, hall, hvalue, h]
  rfl

instance : LawfulForm Timestamp where
  natural h := by cases h; exact .number _
  ne_null h := by cases h; simp [Json.ofNat]
  ofJson?_toJson? {a v} h := by
    cases h
    have hmax : a.toNat ≤ Json.maxWord := Nat.le_sub_one_of_lt a.toNat_lt
    show (Json.ofNat a.toNat).word?.map UInt64.ofNat = some a
    rw [word?_ofNat hmax, Option.map_some, UInt64.ofNat_toNat]

private theorem toJson?_path {p : Path} {v : Json} (h : toJson? p = some v) :
    ∃ s, p = Path.ofString s ∧ v = .ofString s := by
  obtain ⟨s, hs, rfl⟩ := Option.map_eq_some_iff.mp h
  refine ⟨s, ?_, rfl⟩
  cases p
  exact congrArg Path.mk (Bytes.text?_eq_some_iff.mp hs)

instance : LawfulForm Path where
  natural h := by obtain ⟨s, -, rfl⟩ := toJson?_path h; exact .string _
  ne_null h := by obtain ⟨s, -, rfl⟩ := toJson?_path h; simp [Json.ofString]
  ofJson?_toJson? h := by obtain ⟨s, rfl, rfl⟩ := toJson?_path h; rfl

private theorem fields_of_entries {α : Type} [JsonForm α] [LawfulForm α] {es : List (Path × α)}
    {fields : List (Option String × Json)}
    (h : (es.mapM fun (p, a) => do return (some (← p.text?), ← toJson? a)) = some fields) :
    (∀ f ∈ fields, f.2.Natural) ∧
      ∃ entries, (fields.mapM fun (key, v) => key.map (·, v)) = some entries ∧
        (entries.mapM fun (key, v) => (ofJson? v).map (Path.ofString key, ·)) = some es := by
  induction es generalizing fields with
  | nil =>
    cases h
    exact ⟨by simp, [], rfl, rfl⟩
  | cons e es ih =>
    obtain ⟨p, a⟩ := e
    simp only [List.mapM_cons, bind, Option.bind_eq_some_iff, pure, Option.some.injEq] at h
    obtain ⟨f, ⟨s, hs, v, hv, rfl⟩, fields, hfields, rfl⟩ := h
    obtain ⟨hnatural, entries, hentries, hes⟩ := ih hfields
    have hp : Path.ofString s = p := by
      cases p
      exact congrArg Path.mk (Bytes.text?_eq_some_iff.mp hs).symm
    have ha : ofJson? v = some a := LawfulForm.ofJson?_toJson? hv
    refine ⟨?_, (s, v) :: entries, ?_, ?_⟩
    · simpa using ⟨LawfulForm.natural hv, fun key w hw => hnatural (key, w) hw⟩
    · simp [List.mapM_cons, hentries]
    · simp [List.mapM_cons, hes, ha, hp]

instance {α : Type} [JsonForm α] [LawfulForm α] : LawfulForm (PathMap α) where
  natural h := by
    simp only [toJson?, bind, Option.bind_eq_some_iff, pure, Option.some.injEq] at h
    obtain ⟨fields, hfields, rfl⟩ := h
    exact .object _ (fields_of_entries hfields).1
  ne_null h := by
    simp only [toJson?, bind, Option.bind_eq_some_iff, pure, Option.some.injEq] at h
    obtain ⟨fields, hfields, rfl⟩ := h
    simp
  ofJson?_toJson? {a v} h := by
    simp only [toJson?, bind, Option.bind_eq_some_iff, pure, Option.some.injEq] at h
    obtain ⟨fields, hfields, rfl⟩ := h
    obtain ⟨-, entries, hentries, hes⟩ := fields_of_entries hfields
    simp [ofJson?, Json.entries?, hentries, hes, OrderedMap.ofList_entries]

private theorem items_of_paths {ps : List Path} {items : List Json}
    (h : ps.mapM toJson? = some items) :
    (∀ v ∈ items, v.Natural) ∧ items.mapM ofJson? = some ps := by
  induction ps generalizing items with
  | nil =>
    cases h
    exact ⟨by simp, rfl⟩
  | cons p ps ih =>
    simp only [List.mapM_cons, bind, Option.bind_eq_some_iff, pure, Option.some.injEq] at h
    obtain ⟨v, hv, items, hitems, rfl⟩ := h
    obtain ⟨hnatural, hps⟩ := ih hitems
    have hp : ofJson? v = some p := LawfulForm.ofJson?_toJson? hv
    refine ⟨?_, by simp [List.mapM_cons, hps, hp]⟩
    simpa using ⟨LawfulForm.natural hv, hnatural⟩

instance : LawfulForm PathSet where
  natural h := by
    obtain ⟨items, hitems, rfl⟩ := Option.map_eq_some_iff.mp h
    exact .array _ (items_of_paths hitems).1
  ne_null h := by
    obtain ⟨items, hitems, rfl⟩ := Option.map_eq_some_iff.mp h
    simp
  ofJson?_toJson? {a v} h := by
    obtain ⟨items, hitems, rfl⟩ := Option.map_eq_some_iff.mp h
    show (items.mapM ofJson?).bind (fun ps => some (PathSet.ofList ps)) = some a
    rw [(items_of_paths hitems).2, Option.bind_some, PathSet.ofList_toList]

private theorem natural_present {fields : List (String × Option Json)}
    (h : ∀ name v, (name, some v) ∈ fields → v.Natural) : (present fields).Natural := by
  refine .object _ fun f hf => ?_
  obtain ⟨⟨name, v⟩, hmem, hv⟩ := List.mem_filterMap.mp hf
  obtain ⟨w, rfl, rfl⟩ := Option.map_eq_some_iff.mp hv
  exact h name w hmem

private theorem natural_of_optional? {α : Type} [JsonForm α] [LawfulForm α] {a : Option α}
    {v : Option Json} {w : Json} (h : optional? a = some v) (hw : v = some w) : w.Natural := by
  cases a with
  | none => simp [optional?, hw] at h
  | some a =>
    obtain ⟨u, hu, rfl⟩ := Option.map_eq_some_iff.mp h
    cases hw
    exact LawfulForm.natural hu

private theorem optional?_ofJson? {α : Type} [JsonForm α] [LawfulForm α] {a : Option α}
    {v : Option Json} (h : optional? a = some v) : Json.optional? ofJson? v = some a := by
  cases a with
  | none =>
    cases h
    rfl
  | some a =>
    obtain ⟨u, hu, rfl⟩ := Option.map_eq_some_iff.mp h
    have ha : ofJson? u = some a := LawfulForm.ofJson?_toJson? hu
    have hnull : u ≠ .null := LawfulForm.ne_null hu
    cases u <;> simp_all [Json.optional?]

private theorem fields?_stamp (hash modified : Option Json) :
    (present [("hash", hash), ("mtime", modified)]).fields? ["hash", "mtime"] =
      some [hash, modified] := by
  cases hash <;> cases modified <;> simp [present, Json.fields?]

instance : LawfulForm DependencyStamp where
  natural h := by
    simp only [toJson?, bind, Option.bind_eq_some_iff, pure, Option.some.injEq] at h
    obtain ⟨hash, hhash, modified, hmodified, rfl⟩ := h
    refine natural_present fun name v hv => ?_
    simp only [List.mem_cons, Prod.mk.injEq, List.not_mem_nil, or_false] at hv
    rcases hv with ⟨-, hv⟩ | ⟨-, hv⟩
    · exact natural_of_optional? hhash hv.symm
    · exact natural_of_optional? hmodified hv.symm
  ne_null h := by
    simp only [toJson?, bind, Option.bind_eq_some_iff, pure, Option.some.injEq] at h
    obtain ⟨hash, hhash, modified, hmodified, rfl⟩ := h
    simp [present]
  ofJson?_toJson? {a v} h := by
    simp only [toJson?, bind, Option.bind_eq_some_iff, pure, Option.some.injEq] at h
    obtain ⟨hash, hhash, modified, hmodified, rfl⟩ := h
    have hhash := optional?_ofJson? hhash
    have hmodified := optional?_ofJson? hmodified
    simp only [ofJson?] at hhash hmodified ⊢
    simp [fields?_stamp, hhash, hmodified]

private theorem fields?_record (hash modified fingerprint : Json) (dependencies : Option Json) :
    (present [("content_hash", some hash), ("mtime", some modified),
      ("plugin_fingerprint", some fingerprint), ("dependencies", dependencies)]).fields?
        ["content_hash", "mtime", "plugin_fingerprint", "dependencies"] =
      some [some hash, some modified, some fingerprint, dependencies] := by
  cases dependencies <;> simp [present, Json.fields?]

private theorem ofJson?_record {v : Json} {hash modified fingerprint dependencies : Option Json}
    (h : v.fields? ["content_hash", "mtime", "plugin_fingerprint", "dependencies"] =
      some [hash, modified, fingerprint, dependencies]) :
    (ofJson? v : Option CacheRecord) = do
      return {
        stamp := ⟨← required? hash, ← required? modified⟩
        fingerprint := ← fingerprint.bind Json.string?
        dependencies := ← Json.optional? ofJson? dependencies } := by
  show (v.fields? _).bind _ = _
  rw [h]
  rfl

private theorem toJson?_record {r : CacheRecord} {v : Json} (h : toJson? r = some v) :
    ∃ dependencies, optional? r.dependencies = some dependencies ∧
      v = present [("content_hash", some (.ofString r.stamp.hash.text)),
        ("mtime", some (.ofNat r.stamp.modified.toNat)),
        ("plugin_fingerprint", some (.ofString r.fingerprint)), ("dependencies", dependencies)] := by
  simp only [toJson?, bind, Option.bind_eq_some_iff, pure, Option.some.injEq] at h
  obtain ⟨hash, rfl, modified, rfl, dependencies, hdependencies, rfl⟩ := h
  exact ⟨dependencies, hdependencies, rfl⟩

instance : LawfulForm CacheRecord where
  natural h := by
    obtain ⟨dependencies, hdependencies, rfl⟩ := toJson?_record h
    refine natural_present fun name v hv => ?_
    simp only [List.mem_cons, Prod.mk.injEq, List.not_mem_nil, or_false] at hv
    rcases hv with ⟨-, hv⟩ | ⟨-, hv⟩ | ⟨-, hv⟩ | ⟨-, hv⟩
    · cases hv
      exact .string _
    · cases hv
      exact .number _
    · cases hv
      exact .string _
    · exact natural_of_optional? hdependencies hv.symm
  ne_null h := by
    obtain ⟨dependencies, hdependencies, rfl⟩ := toJson?_record h
    simp [present]
  ofJson?_toJson? {r v} h := by
    obtain ⟨dependencies, hdependencies, rfl⟩ := toJson?_record h
    have hhash : ofJson? (Json.ofString r.stamp.hash.text) = some r.stamp.hash :=
      LawfulForm.ofJson?_toJson? rfl
    have hmodified : ofJson? (Json.ofNat r.stamp.modified.toNat) = some r.stamp.modified :=
      LawfulForm.ofJson?_toJson? (α := Timestamp) rfl
    have hfingerprint : (Json.ofString r.fingerprint).string? = some r.fingerprint := rfl
    rw [ofJson?_record (fields?_record _ _ _ _)]
    simp only [required?, Option.bind_some, hhash, hmodified, hfingerprint,
      optional?_ofJson? hdependencies]
    rfl

end JsonForm

end BuildCache
