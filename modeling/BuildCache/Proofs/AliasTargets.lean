import BuildCache.Proofs.Specifiers

/-!
# The targets of aliases

What an alias puts in the place of a specifier has the segments of its value, and behind them those
that its key left over. Slashes at the end of the value are trimmed and one is put in, but the
beginning stays as it is, and so does the kind. Only an empty value has no beginning: the slash in
front of what is left over then makes an absolute path.
-/

namespace BuildCache

open BuildCache.Path

namespace Path

variable {a slashes : Bytes}

theorem kind_append_slash (ha : a ≠ []) (b : Bytes) : kind ⟨a ++ slash :: b⟩ = kind ⟨a⟩ := by
  have habsolute : isAbsolute ⟨a ++ slash :: b⟩ = isAbsolute ⟨a⟩ := by
    obtain ⟨c, rest, rfl⟩ := List.exists_cons_of_ne_nil ha
    rfl
  rw [kind_eq_iff, ← isDotted_iff, ← isDotted_iff, isDotted, isDotted,
    head?_splitSlash_append_slash]
  exact ⟨.rfl, habsolute⟩

theorem kind_append_slashes (ha : a ≠ []) (h : ∀ c ∈ slashes, c = slash) :
    kind ⟨a ++ slashes⟩ = kind ⟨a⟩ := by
  cases slashes with
  | nil => rw [List.append_nil]
  | cons c rest =>
    obtain rfl := h c List.mem_cons_self
    exact kind_append_slash ha rest

theorem segments_append_slashes (h : ∀ c ∈ slashes, c = slash) :
    segments ⟨a ++ slashes⟩ = segments ⟨a⟩ := by
  induction slashes generalizing a with
  | nil => rw [List.append_nil]
  | cons c rest ih =>
    obtain ⟨rfl, hrest⟩ := List.forall_mem_cons.mp h
    rw [segments_append_slash, ← List.nil_append rest, ih hrest]
    exact List.append_nil _

end Path

namespace Resolver

variable {value : String} {rest : List Name} {b : Bytes}

theorem segments_trimSlashes (b : Bytes) : segments ⟨trimSlashes b⟩ = segments ⟨b⟩ := by
  obtain ⟨slashes, hb, hslashes, -⟩ := exists_trimSlashes b
  calc segments ⟨trimSlashes b⟩ = segments ⟨trimSlashes b ++ slashes⟩ :=
        (segments_append_slashes hslashes).symm
    _ = segments ⟨b⟩ := by rw [← hb]

theorem kind_trimSlashes (h : trimSlashes b ≠ []) : kind ⟨trimSlashes b⟩ = kind ⟨b⟩ := by
  obtain ⟨slashes, hb, hslashes, -⟩ := exists_trimSlashes b
  calc kind ⟨trimSlashes b⟩ = kind ⟨trimSlashes b ++ slashes⟩ :=
        (kind_append_slashes h hslashes).symm
    _ = kind ⟨b⟩ := by rw [← hb]

theorem isAbsolute_of_trimSlashes (hne : b ≠ []) (h : trimSlashes b = []) :
    isAbsolute ⟨b⟩ = true := by
  obtain ⟨slashes, hb, hslashes, -⟩ := exists_trimSlashes b
  rw [h, List.nil_append] at hb
  obtain ⟨c, rest, hcons⟩ := List.exists_cons_of_ne_nil hne
  have hc : c = slash := hslashes c (hb ▸ hcons ▸ List.mem_cons_self)
  exact isAbsolute_iff_exists.mpr ⟨rest, by rw [hcons, hc]⟩

theorem aliasTarget_of_ne_nil (h : rest ≠ []) :
    aliasTarget value rest = ⟨trimSlashes (.ofString value) ++ slash :: joinSlash rest⟩ := by
  cases rest with
  | nil => contradiction
  | cons s rest => rfl

theorem segments_aliasTarget (value : String) (h : ∀ s ∈ rest, s ≠ [] ∧ slash ∉ s) :
    (aliasTarget value rest).segments = (ofString value).segments ++ rest := by
  by_cases hrest : rest = []
  · subst hrest
    exact (List.append_nil _).symm
  · rw [aliasTarget_of_ne_nil hrest, segments_append_slash, segments_trimSlashes,
      segments_joinSlash h]
    rfl

theorem isText_aliasTarget (value : String) (h : ∀ s ∈ rest, s ≠ [] ∧ slash ∉ s)
    (htext : ∀ s ∈ rest, s.IsText) : (aliasTarget value rest).IsText := by
  rw [isText_iff_segments, segments_aliasTarget value h]
  intro s hs
  rcases List.mem_append.mp hs with hvalue | hrest
  · exact isText_iff_segments.mp (isText_ofString value) s hvalue
  · exact htext s hrest

/-- A value with a beginning hands its kind on: if slashes are all of it, the target has one in
front too. -/
theorem kind_aliasTarget (h : value = "" → rest = []) :
    (aliasTarget value rest).kind = (ofString value).kind := by
  by_cases hrest : rest = []
  · subst hrest
    rfl
  · rw [aliasTarget_of_ne_nil hrest]
    by_cases htrimmed : trimSlashes (.ofString value) = []
    · -- the slash in front of the rest is as good as those that were trimmed
      have hvalue : Bytes.ofString value ≠ [] := by
        intro hempty
        exact hrest (h (Bytes.ofString_injective hempty))
      have habsolute : (ofString value).kind = .absolute :=
        kind_eq_absolute_iff.mpr (isAbsolute_of_trimSlashes hvalue htrimmed)
      rw [htrimmed, habsolute]
      exact kind_eq_absolute_iff.mpr rfl
    · exact (kind_append_slash htrimmed _).trans (kind_trimSlashes htrimmed)

theorem kind_aliasTarget_empty (h : rest ≠ []) : (aliasTarget "" rest).kind = .absolute := by
  rw [aliasTarget_of_ne_nil h]
  exact kind_eq_absolute_iff.mpr rfl

theorem kind_aliasTarget_iff :
    (aliasTarget value rest).kind = (ofString value).kind ↔ (value = "" → rest = []) := by
  constructor
  · intro hkind hvalue
    subst hvalue
    by_contra hrest
    rw [kind_aliasTarget_empty hrest] at hkind
    exact absurd hkind (by decide)
  · exact kind_aliasTarget

end Resolver

open Resolver

/-- In the place of a specifier the alias that counts puts a text with the segments of its value and
then those that its key left over. The text is of the kind of the value, unless that is empty and
something is left over. -/
theorem exists_rewrite?_of_chosen (r : Resolver) {specifier key value : String} {rest : List Name}
    (hchosen : Chosen r.rules.aliases.entries (ofString specifier).segments key value)
    (hrest : (ofString specifier).segments = (ofString key).segments ++ rest) :
    ∃ target, r.rewrite? (ofString specifier) = some (ofString target) ∧
      (ofString target).segments = (ofString value).segments ++ rest ∧
      ((ofString target).kind = (ofString value).kind ↔ (value = "" → rest = [])) := by
  have hleft : (ofString specifier).segments.drop (keyLength key) = rest := by
    rw [hrest]
    exact List.drop_left
  have hrewrite : r.rewrite? (ofString specifier) = some (aliasTarget value rest) := by
    apply rewrite?_eq_some_iff.mpr
    refine ⟨key, value, hchosen, ?_⟩
    rw [rewrites_iff, hleft]
  have hmem : ∀ s ∈ rest, s ∈ (ofString specifier).segments := by
    intro s hs
    rw [hrest]
    exact List.mem_append_right _ hs
  have hnamed : ∀ s ∈ rest, s ≠ [] ∧ slash ∉ s := by
    intro s hs
    exact mem_segments (hmem s hs)
  have htext : ∀ s ∈ rest, s.IsText := by
    intro s hs
    apply isText_iff_segments.mp (isText_ofString specifier)
    exact hmem s hs
  obtain ⟨target, htarget⟩ := isText_aliasTarget value hnamed htext
  have heq : aliasTarget value rest = ofString target := congrArg Path.mk htarget
  refine ⟨target, ?_, ?_, ?_⟩
  · rw [hrewrite, heq]
  · rw [← heq, segments_aliasTarget value hnamed]
  · rw [← heq, kind_aliasTarget_iff]

namespace Sample

/-- Two keys that lead the same specifiers, the longer one with nothing but slashes for a value. -/
def nested : Resolver :=
  ⟨projectRoot, { aliases := .ofList [("@app", "./lib//"), ("@app//lib/", "//")] }⟩

end Sample

open Sample in
theorem exists_rewrite?_of_nested :
    Chosen nested.rules.aliases.entries (ofString "@app/lib//x/").segments "@app//lib/" "//" ∧
      (ofString "@app/lib//x/").segments =
        (ofString "@app//lib/").segments ++ [Bytes.ofString "x"] ∧
      ∃ target, nested.rewrite? (ofString "@app/lib//x/") = some (ofString target) ∧
        (ofString target).segments = [Bytes.ofString "x"] ∧ (ofString target).kind = .absolute := by
  have hchosen : Chosen nested.rules.aliases.entries (ofString "@app/lib//x/").segments
      "@app//lib/" "//" := by decide
  have hrest : (ofString "@app/lib//x/").segments =
      (ofString "@app//lib/").segments ++ [Bytes.ofString "x"] := by decide
  obtain ⟨target, hrewrite, hsegments, hkind⟩ := exists_rewrite?_of_chosen nested hchosen hrest
  refine ⟨hchosen, hrest, target, hrewrite, hsegments.trans (by decide), ?_⟩
  exact (hkind.mpr (by decide)).trans (by decide)

open Sample in
/-- An empty value is a bare path, and what is left over behind it is looked for from the root of
the file tree. -/
theorem rewrite?_absolute_of_emptyAlias :
    ∃ c : ProjectConfig,
      (ProjectConfig.parse "[resolve.alias]\napp = \"\"\n" projectRoot).toOption = some c ∧
      Chosen c.resolver.rules.aliases.entries (ofString "app/proj/y.js").segments "app" "" ∧
      (ofString "").kind = .bare ∧
      c.resolver.rewrite? (ofString "app/proj/y.js") = some (ofString "/proj/y.js") ∧
      (ofString "/proj/y.js").kind = .absolute ∧
      (c.resolver.resolve project projectImporter "app/proj/y.js").toOption =
        some (ofString "/proj/y.js") ∧
      (c.resolver.resolve project projectImporter "proj/y.js").toOption = none :=
  ⟨{ root := projectRoot, resolve := { aliases := .ofList [("app", "")] } },
    by decide +kernel⟩

end BuildCache
