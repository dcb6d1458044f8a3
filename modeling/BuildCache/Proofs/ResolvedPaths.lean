import BuildCache.Proofs.Candidates
import BuildCache.Proofs.Configuration
import BuildCache.Proofs.Path.Origin
import BuildCache.Proofs.Path.Text
import BuildCache.Proofs.Resolve

/-!
# The spelling of resolved paths

From an absolute importer and an absolute project root every candidate is absolute. A place is in
normal form, and what is put behind it keeps it so if the rules are neat: extensions have no slash,
and main files are spelled plainly. Neatness is not required of a configuration, and without it a
file may go by another spelling than its normal form.
-/

namespace BuildCache

open BuildCache.Path

/-- Rules that put nothing but plain names behind a path. -/
structure ResolveRules.Neat (rules : ResolveRules) : Prop where
  extension : ∀ ext ∈ rules.extensions, '/' ∉ ext.toList
  mainFile : ∀ name ∈ rules.mainFiles,
    (ofString name).normalize = ofString name ∧ .up ∉ (ofString name).components

namespace Path

variable {p q dir : Path}

private theorem exists_names (h : p.isAbsolute = false) (hnormal : p.normalize = p)
    (hup : Component.up ∉ p.components) :
    ∃ names : List Name, (∀ n ∈ names, Plain n) ∧ p = ⟨joinSlash names⟩ := by
  have hcomponents := components_normalize p
  rw [hnormal, origin_of_not_isAbsolute h] at hcomponents
  have hclimb : p.climb = 0 := by
    by_contra hclimb
    refine hup (hcomponents ▸ List.mem_append_left _ ?_)
    exact List.mem_replicate.mpr ⟨hclimb, rfl⟩
  refine ⟨p.location.reverse, plain_of_mem_names, ?_⟩
  calc p = p.origin.spell p.location.reverse := hnormal.symm.trans (normalize_eq_spell p)
    _ = ⟨joinSlash p.location.reverse⟩ := by
      rw [origin_of_not_isAbsolute h, hclimb, Origin.spell_above, List.replicate_zero,
        List.nil_append]

theorem Canonical.join (hdir : Canonical dir) (hnormal : p.normalize = p)
    (hup : Component.up ∉ p.components) (hne : p.bytes ≠ []) : Canonical (dir.join p) := by
  by_cases habsolute : p.isAbsolute = true
  · rw [Path.join, if_pos habsolute]
    exact canonical_iff.mpr ⟨habsolute, hnormal⟩
  · obtain ⟨names, hnames, rfl⟩ := hdir
    obtain ⟨more, hmore, rfl⟩ := exists_names (Bool.eq_false_iff.mpr habsolute) hnormal hup
    have hne : more ≠ [] := by
      rintro rfl
      exact hne rfl
    refine ⟨names ++ more, ?_, join_rooted hnames hmore hne⟩
    exact List.forall_mem_append.mpr ⟨hnames, hmore⟩

theorem exists_of_isExtension {ext : String} (h : ProjectConfig.isExtension ext = true) :
    ∃ b rest, Bytes.ofString ext = 0x2E :: b :: rest := by
  rw [ProjectConfig.isExtension] at h
  split at h
  · next c cs hchars =>
    have hbytes : Bytes.ofString ext =
        0x2E :: (String.utf8EncodeChar c ++ cs.flatMap String.utf8EncodeChar) := by
      rw [Bytes.ofString_eq_flatMap, hchars]
      rfl
    have hlength : 0 < (String.utf8EncodeChar c).length := by
      rw [String.length_utf8EncodeChar]
      exact c.utf8Size_pos
    obtain ⟨b, rest, hb⟩ := List.exists_cons_of_length_pos hlength
    exact ⟨b, rest ++ cs.flatMap String.utf8EncodeChar, by rw [hbytes, hb]; rfl⟩
  · contradiction

theorem location_ne_nil_of_isFile {t : FileTree} (h : t.isFile p = true) : p.location ≠ [] := by
  intro hroot
  rw [FileTree.isFile, FileTree.stat] at h
  cases hl : t.locate p with
  | error e => simp [hl, bind, Except.bind] at h
  | ok l =>
    obtain rfl := FileTree.location_of_locate hl
    simp [hl, hroot, bind, Except.bind, FileTree.entry?_nil, Entry.isDirectory] at h

theorem Canonical.withSuffix {t : FileTree} {ext : String} (hp : Canonical p)
    (hext : ProjectConfig.isExtension ext = true) (hslash : '/' ∉ ext.toList)
    (hfile : t.isFile (p.withSuffix ext) = true) : Canonical (p.withSuffix ext) := by
  have hslash : slash ∉ Bytes.ofString ext := fun h => hslash (Bytes.slash_mem_ofString h)
  obtain ⟨b, rest, hbytes⟩ := exists_of_isExtension hext
  obtain ⟨names, hnames, rfl⟩ := hp
  rcases List.eq_nil_or_concat names with rfl | ⟨front, last, rfl⟩
  · have hroot : (rooted []).withSuffix ext = rooted [Bytes.ofString ext] := by
      simp [Path.withSuffix, rooted, joinSlash]
    have hdots : Bytes.ofString ext ≠ dotDot := by
      intro hdots
      rw [hroot, hdots] at hfile
      exact location_ne_nil_of_isFile hfile (by decide)
    refine ⟨[Bytes.ofString ext], List.forall_mem_singleton.mpr ?_, hroot⟩
    exact ⟨by simp [hbytes], hslash, by simp [hbytes, dot], hdots⟩
  · rw [List.concat_eq_append] at hnames ⊢
    obtain ⟨hfront, hlast⟩ := List.forall_mem_append.mp hnames
    have hlast := hlast last (List.mem_singleton_self last)
    refine ⟨front ++ [last ++ Bytes.ofString ext], ?_, withSuffix_rooted front last ext⟩
    refine List.forall_mem_append.mpr ⟨hfront, List.forall_mem_singleton.mpr ?_⟩
    obtain ⟨c, cs, hc⟩ := List.exists_cons_of_ne_nil hlast.ne_nil
    refine ⟨by simp [hc], ?_, ?_, ?_⟩
    · rw [List.mem_append, not_or]
      exact ⟨hlast.noSlash, hslash⟩
    · -- three bytes at least
      intro hdot
      have hlength := congrArg List.length hdot
      simp [hc, hbytes, dot] at hlength
    · intro hdots
      have hlength := congrArg List.length hdots
      rw [hc, hbytes] at hlength
      simp only [dotDot, List.length_append, List.length_cons, List.length_nil] at hlength
      omega

end Path

namespace Resolver

variable {r : Resolver} {t : FileTree} {importer specifier p q : Path}

/-- What holds of a place holds of its candidates that are files, if it is kept by extensions and
main files and holds of normal forms. -/
private theorem of_mem_candidates (Good : Path → Prop)
    (habsolute : ∀ p : Path, Good p → p.isAbsolute = true)
    (hnormal : ∀ p : Path, p.isAbsolute = true → Good p.normalize)
    (hextension : ∀ p : Path, Good p → ∀ ext ∈ r.rules.extensions,
      t.isFile (p.withSuffix ext) = true → Good (p.withSuffix ext))
    (hmain : ∀ p : Path, Good p → ∀ name ∈ r.rules.mainFiles, Good (p.joinString name))
    (hq : Good q) (hp : p ∈ r.candidates t q) (hfile : t.isFile p = true) : Good p := by
  have hcandidate {q : Path} (hq : Good q) (hp : p ∈ r.fileCandidates q) : Good p := by
    rcases List.mem_cons.mp hp with rfl | hp
    · exact hq
    · obtain ⟨ext, hext, rfl⟩ := List.mem_map.mp hp
      exact hextension q hq ext hext hfile
  have hmainCandidate {q : Path} (hq : Good q) (hp : p ∈ r.mainCandidates q) : Good p := by
    obtain ⟨name, hname, hp⟩ := List.mem_flatMap.mp hp
    exact hcandidate (hmain q hq name hname) hp
  rcases List.mem_append.mp hp with hp | hp
  · exact hcandidate hq hp
  · split at hp
    · rcases List.mem_append.mp hp with hp | hp
      · obtain ⟨entry, -, hp⟩ := List.mem_flatMap.mp hp
        have hentry : Good (q.joinString entry).normalize :=
          hnormal _ (isAbsolute_join (habsolute q hq) _)
        rcases List.mem_append.mp hp with hp | hp
        · exact hcandidate hentry hp
        · split at hp
          · exact hmainCandidate hentry hp
          · simp at hp
      · exact hmainCandidate hq hp
    · simp at hp

theorem isAbsolute_of_mem_candidates (hq : q.isAbsolute = true) (hp : p ∈ r.candidates t q)
    (hfile : t.isFile p = true) : p.isAbsolute = true :=
  of_mem_candidates (fun p => p.isAbsolute = true) (fun _ => id)
    (fun _ h => (canonical_normalize h).isAbsolute) (fun _ h ext _ _ => isAbsolute_withSuffix h ext)
    (fun _ h name _ => isAbsolute_join h (ofString name)) hq hp hfile

theorem canonical_of_mem_candidates (hneat : r.rules.Neat)
    (hextension : ∀ ext ∈ r.rules.extensions, ProjectConfig.isExtension ext = true)
    (hmain : "" ∉ r.rules.mainFiles) (hq : q.Canonical) (hp : p ∈ r.candidates t q)
    (hfile : t.isFile p = true) : p.Canonical := by
  refine of_mem_candidates Canonical (fun _ => Canonical.isAbsolute) (fun _ => canonical_normalize)
    (fun p h ext hext => h.withSuffix (hextension ext hext) (hneat.extension ext hext))
    (fun p h name hname => ?_) hq hp hfile
  obtain ⟨hnormal, hup⟩ := hneat.mainFile name hname
  have hne : (ofString name).bytes ≠ [] := by
    intro hempty
    obtain rfl : name = "" := Bytes.ofString_injective hempty
    exact hmain hname
  exact h.join hnormal hup hne

theorem isAbsolute_importDir (h : importer.isAbsolute = true) :
    importer.importDir.isAbsolute = true := by
  rw [importDir]
  cases hparent : importer.parent? with
  | none => rfl
  | some parent => exact isAbsolute_parent? h hparent

theorem exists_of_mem_packagePlaces (himporter : importer.isAbsolute = true)
    (hq : q ∈ r.packagePlaces t importer specifier) :
    ∃ place : Path, place.isAbsolute = true ∧ q = place.normalize := by
  rw [packagePlaces] at hq
  split at hq
  · simp at hq
  · obtain ⟨entry, -, hq⟩ := List.mem_flatMap.mp hq
    obtain ⟨dir, hdir, rfl⟩ := List.mem_map.mp hq
    refine ⟨_, isAbsolute_join ?_ _, rfl⟩
    replace hdir := (List.mem_filter.mp hdir).1
    split at hdir
    · next habsolute => exact List.mem_singleton.mp hdir ▸ habsolute
    · obtain ⟨ancestor, hancestor, rfl⟩ := List.mem_map.mp hdir
      have hancestor := isAbsolute_of_mem_ancestors (isAbsolute_importDir himporter) hancestor
      exact isAbsolute_join hancestor _

private theorem exists_of_mem_pointed {base : Path} (hbase : base.isAbsolute = true)
    (himporter : importer.isAbsolute = true) (hq : q ∈ r.pointed t importer base specifier) :
    ∃ place : Path, place.isAbsolute = true ∧ q = place.normalize := by
  rw [pointed] at hq
  split at hq
  · exact ⟨_, isAbsolute_join hbase specifier, List.mem_singleton.mp hq⟩
  · split at hq
    · next habsolute => exact ⟨specifier, habsolute, List.mem_singleton.mp hq⟩
    · exact exists_of_mem_packagePlaces himporter hq

/-- Every place is the normal form of an absolute path. -/
theorem canonical_of_mem_places (hroot : r.root.isAbsolute = true)
    (himporter : importer.isAbsolute = true) (hq : q ∈ r.places t importer specifier) :
    q.Canonical := by
  have hdir := isAbsolute_importDir himporter
  have hplace : ∃ place : Path, place.isAbsolute = true ∧ q = place.normalize := by
    rw [places] at hq
    split at hq
    · exact exists_of_mem_pointed hdir himporter hq
    · split at hq
      · exact exists_of_mem_pointed hroot himporter hq
      · exact exists_of_mem_pointed hdir himporter hq
  obtain ⟨place, hplace, rfl⟩ := hplace
  exact canonical_normalize hplace

theorem resolve_self {s : String} (habsolute : p.isAbsolute = true) (hfile : t.isFile p = true)
    (hp : p = .ofString s) : r.resolve t importer s = .ok p.normalize := by
  subst hp
  have hrelative : ¬(ofString s).Relative := fun h => by simp [h.not_isAbsolute] at habsolute
  have hplaces : r.places t importer (.ofString s) = [(ofString s).normalize] := by
    rw [places, if_pos (.inr habsolute), pointed, if_neg hrelative, if_pos habsolute]
  have hfirst : (r.candidates t (ofString s).normalize).find? t.isFile =
      some (ofString s).normalize :=
    List.find?_cons_of_pos (FileTree.isFile_normalize habsolute hfile)
  rw [resolve, resolve?_eq, hplaces, List.flatMap_singleton, hfirst]

end Resolver

open Resolver

/-- What an import resolves to is a file with an absolute path, and to resolve the path again gives
its normal form. With neat rules the path is in normal form already. -/
theorem resolve_spelling {text specifier : String} {root importer p : Path} {c : ProjectConfig}
    {t : FileTree} (hparse : ProjectConfig.parse text root = .ok c)
    (hroot : root.isAbsolute = true) (himporter : importer.isAbsolute = true)
    (h : c.resolver.resolve t importer specifier = .ok p) :
    t.isFile p = true ∧ p.isAbsolute = true ∧
      (∀ importer' s, p = .ofString s → c.resolver.resolve t importer' s = .ok p.normalize) ∧
      (c.resolve.Neat → p.normalize = p ∧ ∀ n ∈ p.segments, n ≠ dot ∧ n ≠ dotDot) := by
  obtain ⟨rfl, hvalid⟩ := ProjectConfig.parse_ok hparse
  obtain ⟨⟨hextension, -, -, hmain⟩, -⟩ := ProjectConfig.violation?_eq_none_iff.mp hvalid
  have hfile := isFile_of_resolve h
  have hfirst : ((c.resolver.places t importer (.ofString specifier)).flatMap
      (c.resolver.candidates t)).find? t.isFile = some p := by
    rw [resolve, resolve?_eq] at h
    split at h
    · next q hq => exact hq.trans (congrArg some (Except.ok.inj h))
    · contradiction
  obtain ⟨q, hq, hp⟩ := List.mem_flatMap.mp (List.mem_of_find?_eq_some hfirst)
  have hplace : q.Canonical := canonical_of_mem_places hroot himporter hq
  have habsolute := isAbsolute_of_mem_candidates hplace.isAbsolute hp hfile
  refine ⟨hfile, habsolute, fun importer' s => resolve_self habsolute hfile, fun hneat => ?_⟩
  have hcanonical : p.Canonical :=
    canonical_of_mem_candidates hneat hextension hmain hplace hp hfile
  refine ⟨hcanonical.normalize, ?_⟩
  obtain ⟨names, hnames, rfl⟩ := hcanonical
  rw [segments_rooted hnames]
  exact fun n hn => ⟨(hnames n hn).ne_dot, (hnames n hn).ne_dotDot⟩

namespace Sample

/-- A project with the files `lib/index.js` and `y.js`, and a directory `x.d`. -/
def project : FileTree :=
  let proj := Bytes.ofString "proj"
  let lib := Bytes.ofString "lib"
  (((((FileTree.empty 0).place [proj] (.directory 0)).place [lib, proj] (.directory 0)).place
    [.ofString "index.js", lib, proj] (.file [] 0)).place
    [.ofString "x.d", proj] (.directory 0)).place [.ofString "y.js", proj] (.file [] 0)

def projectRoot : Path := .ofString "/proj"

def projectImporter : Path := .ofString "/proj/a.js"

end Sample

open Sample in
theorem resolve_spelling_of_standard :
    ∃ c : ProjectConfig, ProjectConfig.parse "" projectRoot = .ok c ∧ c.resolve.Neat ∧
      c.resolver.resolve project projectImporter "./lib" = .ok (.ofString "/proj/lib/index.js") ∧
      c.resolver.resolve project projectRoot "/proj/lib/index.js" =
        .ok (.ofString "/proj/lib/index.js") := by
  obtain ⟨c, hc⟩ : ∃ c : ProjectConfig, c = { root := projectRoot } := ⟨_, rfl⟩
  have hparse : ProjectConfig.parse "" projectRoot = .ok c := by
    subst hc
    rfl
  have hneat : c.resolve.Neat := by
    subst hc
    exact ⟨by decide, by decide⟩
  have hresolve : c.resolver.resolve project projectImporter "./lib" =
      .ok (.ofString "/proj/lib/index.js") := by
    subst hc
    rfl
  obtain ⟨-, -, hagain, hnormal⟩ := resolve_spelling hparse rfl rfl hresolve
  refine ⟨c, hparse, hneat, hresolve, ?_⟩
  rw [hagain projectRoot "/proj/lib/index.js" rfl, (hnormal hneat).1]

open Sample in
/-- A main file with a dot, or an extension with a slash, makes an import resolve to a path that
is not in normal form and that itself resolves to another. -/
theorem resolve_unnormal_of_mainFile_and_extension :
    ∃ c : ProjectConfig,
      (ProjectConfig.parse
        "[resolve]\nmain_files = [\"./index\"]\nextensions = [\".js\", \".d/../y.js\"]\n"
        projectRoot).toOption = some c ∧
      (c.resolver.resolve project projectImporter "./lib").toOption =
        some (.ofString "/proj/lib/./index.js") ∧
      (ofString "/proj/lib/./index.js").normalize ≠ .ofString "/proj/lib/./index.js" ∧
      (c.resolver.resolve project projectImporter "/proj/lib/./index.js").toOption =
        some (.ofString "/proj/lib/index.js") ∧
      (c.resolver.resolve project projectImporter "./x").toOption =
        some (.ofString "/proj/x.d/../y.js") ∧
      (ofString "/proj/x.d/../y.js").normalize ≠ .ofString "/proj/x.d/../y.js" ∧
      (c.resolver.resolve project projectImporter "/proj/x.d/../y.js").toOption =
        some (.ofString "/proj/y.js") :=
  ⟨{ root := projectRoot
     resolve := { mainFiles := ["./index"], extensions := [".js", ".d/../y.js"] } },
    by decide +kernel⟩

end BuildCache
