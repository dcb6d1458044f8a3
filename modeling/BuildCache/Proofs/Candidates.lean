import BuildCache.Proofs.FileTree.Lookup
import BuildCache.Proofs.OrderedMap
import BuildCache.Resolve
import Mathlib.Data.List.Induction

/-!
# The candidates of an import

What a specifier may stand for is an ordered list of paths, which is written down here without any
search. The first of them that is a regular file is what the specifier resolves to.
-/

namespace BuildCache

open BuildCache.Path

namespace Path

/-- A path that is `.` or `..`, or starts with one of them and a slash. -/
def Relative (p : Path) : Prop :=
  p.bytes = dot ∨ p.bytes = dotDot ∨ dot ++ [slash] <+: p.bytes ∨ dotDot ++ [slash] <+: p.bytes

instance (p : Path) : Decidable p.Relative := inferInstanceAs (Decidable (_ ∨ _ ∨ _ ∨ _))

theorem head?_splitSlash_eq_iff {n b : Bytes} (hn : slash ∉ n) :
    (splitSlash b).head? = some n ↔ b = n ∨ n ++ [slash] <+: b := by
  constructor
  · intro hhead
    cases hsplit : splitSlash b with
    | nil => exact absurd hsplit (splitSlash_ne_nil b)
    | cons piece pieces =>
      rw [hsplit, List.head?_cons, Option.some.injEq] at hhead
      subst hhead
      have hjoin := joinSlash_splitSlash b
      rw [hsplit] at hjoin
      cases pieces with
      | nil => exact .inl (by simpa [joinSlash] using hjoin.symm)
      | cons next pieces =>
        refine .inr ⟨joinSlash (next :: pieces), ?_⟩
        rw [← hjoin]
        simp [joinSlash]
  · rintro (rfl | ⟨rest, rfl⟩)
    · rw [splitSlash_of_noSlash hn]
      rfl
    · rw [List.append_assoc, List.singleton_append, splitSlash_append, splitSlash_of_noSlash hn]
      rfl

theorem isDotted_iff {p : Path} : p.isDotted = true ↔ p.Relative := by
  have hdot : slash ∉ dot := by decide
  have hdots : slash ∉ dotDot := by decide
  simp only [isDotted, Relative, Bool.or_eq_true, beq_iff_eq, head?_splitSlash_eq_iff hdot,
    head?_splitSlash_eq_iff hdots]
  grind

theorem join_join (p : Path) {s rest : Bytes} (hne : s ≠ []) (hslash : slash ∉ s)
    (hrest : Path.isAbsolute ⟨rest⟩ = false) :
    (p.join ⟨s⟩).join ⟨rest⟩ = p.join ⟨s ++ slash :: rest⟩ := by
  have hs : Path.isAbsolute ⟨s⟩ = false := not_isAbsolute_of_noSlash hslash
  have hboth : Path.isAbsolute ⟨s ++ slash :: rest⟩ = false := not_isAbsolute_append hne hslash _
  have hends : (p.join ⟨s⟩).endsInSlash = false := not_endsInSlash_join hne hslash p
  have hempty : (p.join ⟨s⟩).bytes.isEmpty = false := by
    rw [join, hs, if_neg Bool.false_ne_true]
    split <;> simp [hne]
  rw [join, hrest, if_neg Bool.false_ne_true, hends, hempty, if_neg (by simp), join, hs,
    if_neg Bool.false_ne_true, join, hboth, if_neg Bool.false_ne_true]
  split <;> simp

theorem Relative.not_isAbsolute {p : Path} (h : p.Relative) : p.isAbsolute = false := by
  obtain ⟨b⟩ := p
  rcases h with rfl | rfl | ⟨rest, rfl⟩ | ⟨rest, rfl⟩ <;> rfl

theorem joinSegments_eq (p : Path) {segments : List Name} (hne : segments ≠ [])
    (hsegments : ∀ s ∈ segments, s ≠ [] ∧ slash ∉ s) :
    p.joinSegments segments = p.join ⟨joinSlash segments⟩ := by
  induction segments generalizing p with
  | nil => exact absurd rfl hne
  | cons s rest ih =>
    obtain ⟨⟨hs, hslash⟩, hrest⟩ := List.forall_mem_cons.mp hsegments
    cases rest with
    | nil => simp [joinSegments, joinSlash]
    | cons next rest =>
      have hjoin : joinSlash (s :: next :: rest) = s ++ slash :: joinSlash (next :: rest) := by
        simp [joinSlash]
      have hnext : Path.isAbsolute ⟨joinSlash (next :: rest)⟩ = false := by
        obtain ⟨hnext, hslash⟩ := hrest next List.mem_cons_self
        cases rest with
        | nil => simpa [joinSlash] using not_isAbsolute_of_noSlash hslash
        | cons other rest => simpa [joinSlash] using not_isAbsolute_append hnext hslash _
      rw [hjoin, ← join_join p hs hslash hnext, ← ih _ (by simp) hrest]
      rfl

end Path

namespace Resolver

variable {r : Resolver} {t : FileTree} {importer : Path}

/-- The main files of a directory, each as it is and with each extension. -/
def mainCandidates (r : Resolver) (dir : Path) : List Path :=
  r.rules.mainFiles.flatMap fun name => r.fileCandidates (dir.joinString name)

/-- What a field says in the manifest of a directory, if that can be read and the field is a string
that is not empty. -/
def declared? (t : FileTree) (dir : Path) (field : String) : Option String := do
  let text ← t.readText? (dir.joinString manifestName)
  let manifest ← Json.parseGeneral? text
  let entry ← (← manifest.field? field).string?
  if entry = "" then none else some entry

/-- The candidates of an entry that a manifest declares. -/
def entryCandidates (r : Resolver) (t : FileTree) (entry : Path) : List Path :=
  r.fileCandidates entry ++ if t.isDirectory entry then r.mainCandidates entry else []

/-- The candidates of a directory: what its manifest declares, field by field, and main files. -/
def directoryCandidates (r : Resolver) (t : FileTree) (dir : Path) : List Path :=
  (r.rules.mainFields.filterMap (declared? t dir)).flatMap
      (fun entry => r.entryCandidates t (dir.joinString entry).normalize) ++
    r.mainCandidates dir

/-- The candidates of a path: those of a file of that name, and those of a directory. -/
def candidates (r : Resolver) (t : FileTree) (p : Path) : List Path :=
  r.fileCandidates p ++ if t.isDirectory p then r.directoryCandidates t p else []

theorem resolveFile?_eq (r : Resolver) (t : FileTree) (p : Path) :
    r.resolveFile? t p = (r.fileCandidates p).find? t.isFile := rfl

theorem resolveMainFile?_eq (r : Resolver) (t : FileTree) (dir : Path) :
    r.resolveMainFile? t dir = (r.mainCandidates dir).find? t.isFile := by
  rw [mainCandidates, List.find?_flatMap]
  rfl

private theorem find?_ite {c : Prop} [Decidable c] (ps : List Path) (f : Path → Bool) :
    (if c then ps else []).find? f = if c then ps.find? f else none := by
  split <;> rfl

theorem resolveEntry?_eq (r : Resolver) (t : FileTree) (entry : Path) :
    r.resolveEntry? t entry = (r.entryCandidates t entry).find? t.isFile := by
  rw [entryCandidates, List.find?_append, find?_ite, ← resolveFile?_eq, ← resolveMainFile?_eq]
  rfl

private theorem manifest?_eq_bind (t : FileTree) (dir : Path) :
    manifest? t dir = (t.readText? (dir.joinString manifestName)).bind Json.parseGeneral? := by
  simp only [manifest?]
  split
  · rfl
  · next hfile =>
    have hnone : t.readText? (dir.joinString manifestName) = none := by
      simp only [FileTree.isFile] at hfile
      rw [FileTree.readText?, FileTree.read]
      cases hstat : t.stat (dir.joinString manifestName) with
      | error e => rfl
      | ok e =>
        cases e with
        | file content modified => simp [hstat, Entry.isDirectory] at hfile
        | directory modified => rfl
    rw [hnone]
    rfl

private theorem declared?_eq_bind (t : FileTree) (dir : Path) (field : String) :
    declared? t dir field = (manifest? t dir).bind fun manifest =>
      ((manifest.field? field).bind Json.string?).bind fun entry =>
        if entry = "" then none else some entry := by
  rw [manifest?_eq_bind, declared?]
  cases t.readText? (dir.joinString manifestName) with
  | none => rfl
  | some text =>
    simp only [Option.bind_eq_bind, Option.bind_some]
    cases Json.parseGeneral? text with
    | none => rfl
    | some manifest =>
      simp only [Option.bind_some, Option.bind_assoc]

private theorem entryPaths_eq (r : Resolver) {dir : Path} {manifest : Json}
    (h : manifest? t dir = some manifest) :
    r.entryPaths dir manifest = (r.rules.mainFields.filterMap (declared? t dir)).map
      fun entry => (dir.joinString entry).normalize := by
  rw [entryPaths, List.map_filterMap]
  congr 1
  funext field
  rw [declared?_eq_bind, h, Option.bind_some]
  cases (manifest.field? field).bind Json.string? with
  | none => rfl
  | some entry =>
    by_cases hempty : entry = ""
    · subst hempty
      rfl
    · simp [hempty]

theorem resolveManifest?_eq (r : Resolver) (t : FileTree) (dir : Path) :
    r.resolveManifest? t dir = ((r.rules.mainFields.filterMap (declared? t dir)).flatMap
      fun entry => r.entryCandidates t (dir.joinString entry).normalize).find? t.isFile := by
  rw [resolveManifest?, List.find?_flatMap]
  cases hmanifest : manifest? t dir with
  | none =>
    have hnone : r.rules.mainFields.filterMap (declared? t dir) = [] := by
      apply List.filterMap_eq_nil_iff.mpr
      intro field _
      rw [declared?_eq_bind, hmanifest]
      rfl
    rw [hnone]
    rfl
  | some manifest =>
    rw [Option.bind_some, r.entryPaths_eq hmanifest, List.findSome?_map]
    congr 1
    funext entry
    exact r.resolveEntry?_eq t _

theorem resolvePath?_eq (r : Resolver) (t : FileTree) (p : Path) :
    r.resolvePath? t p = (r.candidates t p).find? t.isFile := by
  rw [candidates, List.find?_append, find?_ite, directoryCandidates, List.find?_append,
    ← resolveManifest?_eq, ← resolveMainFile?_eq, ← resolveFile?_eq]
  rfl

/-- The places of a bare specifier: below the package directories that are there, entry by entry. An
absolute entry is one directory, any other is looked for from the importer's directory upward. -/
def packagePlaces (r : Resolver) (t : FileTree) (importer specifier : Path) : List Path :=
  if specifier.segments = [] then []
  else
    r.rules.modules.flatMap fun entry =>
      let dirs := if (Path.ofString entry).isAbsolute then [.ofString entry]
        else importer.importDir.ancestors.map (·.joinString entry)
      (dirs.filter t.isDirectory).map fun dir =>
        (dir.join ⟨joinSlash specifier.segments⟩).normalize

/-- Where a specifier points that is no longer rewritten, `base` being where it is meant from if it
starts with dots. -/
inductive Points (r : Resolver) (t : FileTree) (importer base specifier : Path) :
    List Path → Prop where
  | relative (h : specifier.Relative) : Points r t importer base specifier
      [(base.join specifier).normalize]
  | absolute (h : specifier.isAbsolute = true) : Points r t importer base specifier
      [specifier.normalize]
  | bare (h : ¬specifier.Relative) (habsolute : specifier.isAbsolute = false) :
      Points r t importer base specifier (r.packagePlaces t importer specifier)

/-- An alias key matches a specifier by its leading segments. -/
structure Matches (key : String) (segments : List Name) : Prop where
  named : (Path.ofString key).segments ≠ []
  leading : (Path.ofString key).segments <+: segments

/-- How many segments an alias key has. -/
def keyLength (key : String) : Nat := (Path.ofString key).segments.length

/-- The alias that counts: of the entries that match the longest, and of these the last. -/
structure Chosen (entries : List (String × String)) (segments : List Name) (key value : String) :
    Prop where
  entry : (key, value) ∈ entries
  fits : Matches key segments
  best : ∀ e ∈ entries, Matches e.1 segments → keyLength e.1 < keyLength key ∨
    keyLength e.1 = keyLength key ∧ (compare e.1 key).isLE = true

instance (key : String) (segments : List Name) : Decidable (Matches key segments) :=
  decidable_of_iff ((Path.ofString key).segments ≠ [] ∧ (Path.ofString key).segments <+: segments)
    ⟨fun h => ⟨h.1, h.2⟩, fun h => ⟨h.1, h.2⟩⟩

instance (entries : List (String × String)) (segments : List Name) (key value : String) :
    Decidable (Chosen entries segments key value) :=
  decidable_of_iff ((key, value) ∈ entries ∧ Matches key segments ∧ ∀ e ∈ entries,
    Matches e.1 segments → keyLength e.1 < keyLength key ∨
      keyLength e.1 = keyLength key ∧ (compare e.1 key).isLE = true)
    ⟨fun h => ⟨h.1, h.2.1, h.2.2⟩, fun h => ⟨h.1, h.2, h.3⟩⟩

/-- What an alias puts in the place of the segments that it matches. -/
inductive Rewrites (value : String) : List Name → Path → Prop where
  | whole : Rewrites value [] (.ofString value)
  | leading {stem slashes : Bytes} {rest : List Name} (hne : rest ≠ [])
      (hvalue : Bytes.ofString value = stem ++ slashes) (hslashes : ∀ b ∈ slashes, b = slash)
      (hstem : stem.getLast? ≠ some slash) : Rewrites value rest ⟨stem ++ slash :: joinSlash rest⟩

/-- Where a specifier of an importer points: a bare one that an alias matches points to where the
target of the alias points, any other where it points itself. -/
inductive Leads (r : Resolver) (t : FileTree) (importer specifier : Path) : List Path → Prop where
  | aliased {key value : String} {target : Path} {places : List Path} (h : ¬specifier.Relative)
      (habsolute : specifier.isAbsolute = false)
      (hchosen : Chosen r.rules.aliases.entries specifier.segments key value)
      (hrewrites : Rewrites value (specifier.segments.drop (keyLength key)) target)
      (hpoints : Points r t importer r.root target places) : Leads r t importer specifier places
  | direct {places : List Path}
      (h : ¬specifier.Relative → specifier.isAbsolute = false →
        ∀ key value, ¬Chosen r.rules.aliases.entries specifier.segments key value)
      (hpoints : Points r t importer importer.importDir specifier places) :
      Leads r t importer specifier places

theorem matchLength?_eq_some_iff {key : String} {segments : List Name} {n : Nat} :
    matchLength? key segments = some n ↔ Matches key segments ∧ keyLength key = n := by
  rw [matchLength?]
  constructor
  · intro h
    simp only [Option.ite_none_right_eq_some, Option.some.injEq, Bool.and_eq_true,
      List.isPrefixOf_iff_prefix, Bool.not_eq_true', List.isEmpty_eq_false_iff] at h
    obtain ⟨⟨hnamed, hleading⟩, hn⟩ := h
    exact ⟨⟨hnamed, hleading⟩, hn⟩
  · rintro ⟨⟨hnamed, hleading⟩, rfl⟩
    have hmatches : (!(Path.ofString key).segments.isEmpty &&
        (Path.ofString key).segments.isPrefixOf segments) = true := by
      simp [hnamed, hleading]
    simp only [hmatches, if_true]
    rfl

/-- One more entry, behind the others, takes the place of the best so far if it is no shorter. -/
private theorem bestAlias?_concat (segments : List Name) (entries : List (String × String))
    (e : String × String) :
    bestAlias? segments (entries ++ [e]) =
      match matchLength? e.1 segments, bestAlias? segments entries with
      | none, best => best
      | some n, none => some (n, e.2)
      | some n, some (m, other) => some (if m ≤ n then (n, e.2) else (m, other)) := by
  rw [bestAlias?, List.foldl_append]
  rfl

private theorem Chosen.concat {entries : List (String × String)} {segments : List Name}
    {key value : String} {e : String × String} (h : Chosen entries segments key value)
    (he : Matches e.1 segments → keyLength e.1 < keyLength key) :
    Chosen (entries ++ [e]) segments key value := by
  refine ⟨List.mem_append_left _ h.entry, h.fits, fun e' he' hfits => ?_⟩
  rcases List.mem_append.mp he' with he' | he'
  · exact h.best e' he' hfits
  · obtain rfl := List.mem_singleton.mp he'
    exact .inl (he hfits)

private theorem chosen_last {entries : List (String × String)} {segments : List Name}
    {e : String × String} (hfits : Matches e.1 segments)
    (hbefore : ∀ e' ∈ entries, (compare e'.1 e.1).isLE = true)
    (hshorter : ∀ e' ∈ entries, Matches e'.1 segments → keyLength e'.1 ≤ keyLength e.1) :
    Chosen (entries ++ [e]) segments e.1 e.2 := by
  refine ⟨List.mem_append_right _ (List.mem_singleton_self e), hfits, fun e' he' hfits' => ?_⟩
  rcases List.mem_append.mp he' with he' | he'
  · have hle := hshorter e' he' hfits'
    have hkeys := hbefore e' he'
    rcases Nat.lt_or_eq_of_le hle with hlt | heq
    · exact .inl hlt
    · exact .inr ⟨heq, hkeys⟩
  · obtain rfl := List.mem_singleton.mp he'
    exact .inr ⟨rfl, Std.ReflCmp.isLE_rfl⟩

theorem bestAlias?_spec (segments : List Name) {entries : List (String × String)}
    (hsorted : entries.Pairwise fun a b => compare a.1 b.1 = .lt) :
    (bestAlias? segments entries = none → ∀ e ∈ entries, ¬Matches e.1 segments) ∧
      ∀ n value, bestAlias? segments entries = some (n, value) →
        ∃ key, Chosen entries segments key value ∧ keyLength key = n := by
  induction entries using List.reverseRecOn with
  | nil => exact ⟨by simp, by simp [bestAlias?]⟩
  | append_singleton entries e ih =>
    rw [List.pairwise_append] at hsorted
    obtain ⟨hentries, -, hlast⟩ := hsorted
    obtain ⟨hnone, hsome⟩ := ih hentries
    have hbefore (e' : String × String) (he' : e' ∈ entries) : (compare e'.1 e.1).isLE = true := by
      rw [hlast e' he' e (List.mem_singleton_self e)]
      rfl
    rw [bestAlias?_concat]
    cases hmatch : matchLength? e.1 segments with
    | none =>
      have hno : ¬Matches e.1 segments := by
        intro hfits
        have hlength := matchLength?_eq_some_iff.mpr ⟨hfits, rfl⟩
        simp [hmatch] at hlength
      refine ⟨fun hbest e' he' => ?_, fun n value hbest => ?_⟩
      · rcases List.mem_append.mp he' with he' | he'
        · exact hnone hbest e' he'
        · obtain rfl := List.mem_singleton.mp he'
          exact hno
      · obtain ⟨key, hchosen, hlength⟩ := hsome n value hbest
        exact ⟨key, hchosen.concat fun hfits => absurd hfits hno, hlength⟩
    | some n =>
      obtain ⟨hfits, rfl⟩ := matchLength?_eq_some_iff.mp hmatch
      refine ⟨fun hbest => ?_, fun m value hbest => ?_⟩
      · cases hb : bestAlias? segments entries <;> simp [hb] at hbest
      · cases hb : bestAlias? segments entries with
        | none =>
          obtain ⟨rfl, rfl⟩ : keyLength e.1 = m ∧ e.2 = value := by simpa [hb] using hbest
          exact ⟨e.1, chosen_last hfits hbefore fun e' he' hfits' =>
            absurd hfits' (hnone hb e' he'), rfl⟩
        | some best =>
          obtain ⟨n, other⟩ := best
          obtain ⟨key, hchosen, rfl⟩ := hsome n other hb
          simp only [hb, Option.some.injEq] at hbest
          split at hbest
          · next hle =>
            cases hbest
            refine ⟨e.1, chosen_last hfits hbefore fun e' he' hfits' => ?_, rfl⟩
            rcases hchosen.best e' he' hfits' with hlt | ⟨heq, -⟩
            · exact Nat.le_trans (Nat.le_of_lt hlt) hle
            · exact Nat.le_trans (Nat.le_of_eq heq) hle
          · next hlt =>
            cases hbest
            exact ⟨key, hchosen.concat fun _ => Nat.lt_of_not_le hlt, rfl⟩

theorem Chosen.unique {aliases : OrderedMap String String} {segments : List Name}
    {key key' value value' : String} (h : Chosen aliases.entries segments key value)
    (h' : Chosen aliases.entries segments key' value') : key = key' ∧ value = value' := by
  have hle := h'.best _ h.entry h.fits
  have hle' := h.best _ h'.entry h'.fits
  have hkeys : (compare key key').isLE = true ∧ (compare key' key).isLE = true := by
    simp only at hle hle'
    grind
  have heq : compare key key' = .eq :=
    Ordering.eq_eq_of_isLE_of_isGE hkeys.1 (Std.OrientedCmp.isGE_of_isLE hkeys.2)
  rw [Std.LawfulEqCmp.compare_eq_iff_eq] at heq
  subst heq
  have hget := OrderedMap.get?_of_mem_entries h.entry
  rw [OrderedMap.get?_of_mem_entries h'.entry, Option.some.injEq] at hget
  exact ⟨rfl, hget.symm⟩

theorem trimSlashes_append {stem slashes : Bytes} (hslashes : ∀ b ∈ slashes, b = slash)
    (hstem : stem.getLast? ≠ some slash) : trimSlashes (stem ++ slashes) = stem := by
  have hall : ∀ b ∈ slashes.reverse, (b == slash) = true := by
    intro b hb
    simpa using hslashes b (List.mem_reverse.mp hb)
  have hkeep : stem.reverse.dropWhile (· == slash) = stem.reverse := by
    cases hreverse : stem.reverse with
    | nil => rfl
    | cons c rest =>
      have hlast : stem.getLast? = some c := by
        rw [← List.head?_reverse, hreverse]
        rfl
      have hc : (c == slash) = false := by
        rw [hlast, ne_eq, Option.some.injEq] at hstem
        simpa using hstem
      rw [List.dropWhile_cons, hc]
      rfl
  rw [trimSlashes, List.reverse_append, List.dropWhile_append_of_pos hall, hkeep,
    List.reverse_reverse]

theorem exists_trimSlashes (b : Bytes) : ∃ slashes, b = trimSlashes b ++ slashes ∧
    (∀ c ∈ slashes, c = slash) ∧ (trimSlashes b).getLast? ≠ some slash := by
  refine ⟨(b.reverse.takeWhile (· == slash)).reverse, ?_, fun c hc => ?_, fun hlast => ?_⟩
  · rw [trimSlashes, ← List.reverse_append, List.takeWhile_append_dropWhile, List.reverse_reverse]
  · have hall := List.all_eq_true.mp List.all_takeWhile c (List.mem_reverse.mp hc)
    simpa using hall
  · have hnot := List.head?_dropWhile_not (· == slash) b.reverse
    rw [trimSlashes, List.getLast?_reverse] at hlast
    rw [hlast] at hnot
    simp at hnot

theorem rewrites_iff {value : String} {rest : List Name} {target : Path} :
    Rewrites value rest target ↔ target = aliasTarget value rest := by
  constructor
  · intro h
    cases h with
    | whole => rfl
    | leading hne hvalue hslashes hstem =>
      cases rest with
      | nil => exact absurd rfl hne
      | cons s rest =>
        show _ = (⟨trimSlashes (Bytes.ofString value) ++ slash :: joinSlash (s :: rest)⟩ : Path)
        rw [hvalue, trimSlashes_append hslashes hstem]
  · rintro rfl
    cases rest with
    | nil => exact .whole
    | cons s rest =>
      obtain ⟨slashes, hvalue, hslashes, hstem⟩ := exists_trimSlashes (Bytes.ofString value)
      exact .leading (List.cons_ne_nil s rest) hvalue hslashes hstem

theorem rewrite?_eq_none_iff {specifier : Path} :
    r.rewrite? specifier = none ↔
      ∀ key value, ¬Chosen r.rules.aliases.entries specifier.segments key value := by
  obtain ⟨hnone, hsome⟩ := bestAlias?_spec specifier.segments r.rules.aliases.sorted
  rw [rewrite?, Option.map_eq_none_iff]
  constructor
  · intro hbest key value hchosen
    exact hnone hbest _ hchosen.entry hchosen.fits
  · intro hno
    cases hbest : bestAlias? specifier.segments r.rules.aliases.entries with
    | none => rfl
    | some best =>
      obtain ⟨key, hchosen, -⟩ := hsome best.1 best.2 hbest
      exact absurd hchosen (hno key best.2)

theorem rewrite?_eq_some_iff {specifier target : Path} :
    r.rewrite? specifier = some target ↔
      ∃ key value, Chosen r.rules.aliases.entries specifier.segments key value ∧
        Rewrites value (specifier.segments.drop (keyLength key)) target := by
  obtain ⟨hnone, hsome⟩ := bestAlias?_spec specifier.segments r.rules.aliases.sorted
  rw [rewrite?, Option.map_eq_some_iff]
  constructor
  · rintro ⟨⟨n, value⟩, hbest, rfl⟩
    obtain ⟨key, hchosen, rfl⟩ := hsome n value hbest
    exact ⟨key, value, hchosen, rewrites_iff.mpr rfl⟩
  · rintro ⟨key, value, hchosen, hrewrites⟩
    cases hbest : bestAlias? specifier.segments r.rules.aliases.entries with
    | none => exact absurd hchosen.fits (hnone hbest _ hchosen.entry)
    | some best =>
      obtain ⟨n, value'⟩ := best
      obtain ⟨key', hchosen', rfl⟩ := hsome n value' hbest
      obtain ⟨rfl, rfl⟩ := hchosen.unique hchosen'
      exact ⟨_, rfl, (rewrites_iff.mp hrewrites).symm⟩

/-- Where a specifier points, as a function. -/
def pointed (r : Resolver) (t : FileTree) (importer base specifier : Path) : List Path :=
  if specifier.Relative then [(base.join specifier).normalize]
  else if specifier.isAbsolute then [specifier.normalize]
  else r.packagePlaces t importer specifier

/-- Where a specifier leads, as a function. -/
def places (r : Resolver) (t : FileTree) (importer specifier : Path) : List Path :=
  if specifier.Relative ∨ specifier.isAbsolute = true then
    r.pointed t importer importer.importDir specifier
  else
    match r.rewrite? specifier with
    | some target => r.pointed t importer r.root target
    | none => r.pointed t importer importer.importDir specifier

theorem points_iff {base specifier : Path} {ps : List Path} :
    Points r t importer base specifier ps ↔ ps = r.pointed t importer base specifier := by
  rw [pointed]
  constructor
  · intro h
    cases h with
    | relative h => rw [if_pos h]
    | absolute h =>
      have hrelative : ¬specifier.Relative := fun hr => by simp [hr.not_isAbsolute] at h
      rw [if_neg hrelative, if_pos h]
    | bare h habsolute => rw [if_neg h, habsolute, if_neg Bool.false_ne_true]
  · rintro rfl
    split
    · next h => exact .relative h
    · next h =>
      split
      · next habsolute => exact .absolute habsolute
      · next habsolute => exact .bare h (Bool.eq_false_iff.mpr habsolute)

theorem leads_iff {specifier : Path} {ps : List Path} :
    Leads r t importer specifier ps ↔ ps = r.places t importer specifier := by
  have hbare (h : ¬specifier.Relative) (habsolute : specifier.isAbsolute = false) :
      ¬(specifier.Relative ∨ specifier.isAbsolute = true) := by simp [h, habsolute]
  rw [places]
  constructor
  · intro h
    cases h with
    | aliased h habsolute hchosen hrewrites hpoints =>
      have hrewrite := rewrite?_eq_some_iff.mpr ⟨_, _, hchosen, hrewrites⟩
      rw [if_neg (hbare h habsolute), hrewrite]
      exact points_iff.mp hpoints
    | direct hno hpoints =>
      have hps := points_iff.mp hpoints
      split
      · exact hps
      · next h =>
        rw [not_or, Bool.not_eq_true] at h
        rw [rewrite?_eq_none_iff.mpr (hno h.1 h.2)]
        exact hps
  · rintro rfl
    split
    · next h =>
      refine .direct (fun hr ha => absurd h (hbare hr ha)) (points_iff.mpr rfl)
    · next h =>
      rw [not_or, Bool.not_eq_true] at h
      split
      · next target hrewrite =>
        obtain ⟨key, value, hchosen, hrewrites⟩ := rewrite?_eq_some_iff.mp hrewrite
        exact .aliased h.1 h.2 hchosen hrewrites (points_iff.mpr rfl)
      · next hrewrite =>
        exact .direct (fun _ _ => rewrite?_eq_none_iff.mp hrewrite) (points_iff.mpr rfl)

theorem packagePlaces_eq (r : Resolver) (t : FileTree) (importer specifier : Path) :
    r.packagePlaces t importer specifier =
      if specifier.segments = [] then []
      else ((r.packageDirs importer).filter t.isDirectory).map fun dir =>
        (dir.joinSegments specifier.segments).normalize := by
  rw [packagePlaces]
  split
  · rfl
  · next hne =>
    have hjoin (dir : Path) : dir.joinSegments specifier.segments =
        dir.join ⟨joinSlash specifier.segments⟩ := joinSegments_eq dir hne fun s => mem_segments
    simp only [packageDirs, List.filter_flatMap, List.map_flatMap, hjoin,
      ResolveRules.isAbsoluteModule]
    rfl

theorem resolveModule?_eq (r : Resolver) (t : FileTree) (importer specifier : Path) :
    r.resolveModule? t importer specifier =
      ((r.packagePlaces t importer specifier).flatMap (r.candidates t)).find? t.isFile := by
  rw [resolveModule?, packagePlaces_eq]
  by_cases hempty : specifier.segments = []
  · simp [hempty]
  · rw [if_neg (by simpa using hempty), if_neg hempty, List.find?_flatMap, List.findSome?_map]
    congr 1
    funext dir
    exact r.resolvePath?_eq t _

theorem resolveTarget?_eq (r : Resolver) (t : FileTree) (importer target : Path) :
    r.resolveTarget? t importer target =
      ((r.pointed t importer r.root target).flatMap (r.candidates t)).find? t.isFile := by
  simp only [resolveTarget?, pointed, isDotted_iff]
  by_cases hrelative : target.Relative
  · simp [hrelative, hrelative.not_isAbsolute, resolvePath?_eq]
  · by_cases habsolute : target.isAbsolute = true
    · simp [hrelative, habsolute, resolvePath?_eq]
    · simp [hrelative, habsolute, resolveModule?_eq]

theorem resolve?_eq (r : Resolver) (t : FileTree) (importer specifier : Path) :
    r.resolve? t importer specifier =
      ((r.places t importer specifier).flatMap (r.candidates t)).find? t.isFile := by
  simp only [resolve?, places, isDotted_iff]
  by_cases hrelative : specifier.Relative
  · simp [hrelative, pointed, resolvePath?_eq]
  · by_cases habsolute : specifier.isAbsolute = true
    · simp [hrelative, habsolute, pointed, resolvePath?_eq]
    · cases hrewrite : r.rewrite? specifier with
      | some target => simp [hrelative, habsolute, resolveTarget?_eq]
      | none => simp [hrelative, habsolute, pointed, resolveModule?_eq]

end Resolver

open Resolver

/-- A specifier resolves to the first of its candidates that is a regular file, and to nothing
exactly if none of them is one. -/
theorem resolve_eq_first (r : Resolver) (t : FileTree) (importer : Path) (specifier : String) :
    ∃ places, (∀ ps, Leads r t importer (.ofString specifier) ps ↔ ps = places) ∧
      (∀ p, r.resolve t importer specifier = .ok p ↔
        (places.flatMap (r.candidates t)).find? t.isFile = some p) ∧
      ∀ u, r.resolve t importer specifier = .error u ↔
        u = ⟨specifier, importer⟩ ∧ ∀ p ∈ places.flatMap (r.candidates t), t.isFile p = false := by
  refine ⟨r.places t importer (.ofString specifier), fun ps => leads_iff, ?_⟩
  rw [resolve, resolve?_eq]
  cases hfirst : ((r.places t importer (.ofString specifier)).flatMap (r.candidates t)).find?
      t.isFile with
  | some q =>
    have hfile := List.find?_some hfirst
    have hmem := List.mem_of_find?_eq_some hfirst
    refine ⟨by simp, fun u => ⟨by simp, ?_⟩⟩
    rintro ⟨-, hnone⟩
    rw [hnone q hmem] at hfile
    contradiction
  | none =>
    have hnone : ∀ p ∈ (r.places t importer (.ofString specifier)).flatMap (r.candidates t),
        t.isFile p = false := by
      simpa using List.find?_eq_none.mp hfirst
    refine ⟨by simp, fun u => ⟨?_, ?_⟩⟩
    · intro h
      cases h
      exact ⟨rfl, hnone⟩
    · rintro ⟨rfl, -⟩
      rfl

end BuildCache
