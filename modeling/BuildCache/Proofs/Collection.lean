import BuildCache.Proofs.Confinement
import BuildCache.Proofs.FailedCommits
import BuildCache.Proofs.Layout.Collecting
import BuildCache.Proofs.Layout.Reach
import BuildCache.Proofs.Persistence
import BuildCache.Proofs.Reopening

/-!
# What a collection takes and what it leaves

A collection takes the files that belong to no tracked file, and those alone. Whatever is known of a
file is known afterwards, also by the next session. A check looks at the sources too, which nothing
keeps from lying in the cache directory, so what it finds is the same where these are seen alike.
-/

namespace BuildCache

open FileTree BuildCache.Path

namespace ArtifactStore

/-- The part of a file name before its first dot. -/
def stem (name : String) : String := .ofList (name.toList.takeWhile (· != '.'))

theorem isLiveName_iff {live : List CacheId} {name : String} :
    isLiveName live name = true ↔ ∃ id ∈ live, id.text = stem name := by
  have heq : isLiveName live name = (CacheId.ofString? (stem name)).any live.contains := by
    rw [isLiveName, ← stem]
    cases CacheId.ofString? (stem name) <;> rfl
  rw [heq]
  cases hid : CacheId.ofString? (stem name) with
  | none =>
    refine iff_of_false Bool.false_ne_true ?_
    rintro ⟨id, -, htext⟩
    rw [← htext, CacheId.ofString?_text] at hid
    cases hid
  | some id =>
    have htext : id.text = stem name := by
      rw [CacheId.ofString?] at hid
      split at hid
      · cases hid
        rfl
      · cases hid
    rw [Option.any_some, List.contains_iff_mem]
    constructor
    · intro hlive
      exact ⟨id, hlive, htext⟩
    · rintro ⟨id', hlive, htext'⟩
      rwa [CacheId.ext_text (htext.trans htext'.symm)]

end ArtifactStore

namespace Workspace

/-- A file in the directory of the files whose name is text, where the part before the first dot is
the id of no tracked file. -/
structure Garbage (w : Workspace) (name : Name) : Prop where
  plain : Plain name
  isFile : w.files.isFile (w.store.layout.files.join ⟨name⟩) = true
  unused : ∃ text, Bytes.text? name = some text ∧
    ∀ file id, w.current.ids.get? file = some id → id.text ≠ ArtifactStore.stem text

variable {w w' : Workspace} {debug : Bool} {n : Nat}

theorem takes_iff {name : Name} :
    Plain name ∧ ArtifactStore.takes ⟨w.store.layout.files, debug⟩ (liveIds w).1 w.files name =
      true ↔ w.Garbage name := by
  have hunused (text : String) : (!ArtifactStore.isLiveName (liveIds w).1 text) = true ↔
      ∀ file id, w.current.ids.get? file = some id → id.text ≠ ArtifactStore.stem text := by
    rw [Bool.not_eq_true', ← Bool.not_eq_true, ArtifactStore.isLiveName_iff]
    constructor
    · intro hnone file id hid htext
      exact hnone ⟨id, mem_liveIds ⟨file, hid⟩, htext⟩
    · rintro hnone ⟨id, hid, htext⟩
      obtain ⟨file, hfile⟩ := live_of_mem_liveIds hid
      exact hnone file id hfile htext
  constructor
  · rintro ⟨hplain, htakes⟩
    obtain ⟨htext, hfile⟩ := Bool.and_eq_true_iff.mp htakes
    obtain ⟨text, htext, hlive⟩ := (Option.any_eq_true _ _).mp htext
    exact ⟨hplain, hfile, text, htext, (hunused text).mp hlive⟩
  · rintro ⟨hplain, hfile, text, htext, hnone⟩
    have hany : (Bytes.text? name).any (!ArtifactStore.isLiveName (liveIds w).1 ·) = true := by
      rw [htext]
      exact (hunused text).mpr hnone
    exact ⟨hplain, Bool.and_eq_true_iff.mpr ⟨hany, hfile⟩⟩

/-- A collection that comes to its end takes the garbage. -/
theorem drops_collectGarbage (hh : w.store.layout.Housed w.files)
    (h : collectGarbage w = (.ok n, w')) :
    (∃ names, names.Nodup ∧ names.length = n ∧ (∀ name, name ∈ names ↔ w.Garbage name) ∧
      Drops names w.store.layout.files.location w.files w'.files) ∧
    (n = 0 → w'.files = w.files) ∧ collectGarbage w' = (.ok 0, w') := by
  obtain ⟨r, t, hcollect⟩ : ∃ r t, ArtifactStore.collect ⟨w.store.layout.files, w.store.debug⟩
      w.files (liveIds w).1 = (r, t) := ⟨_, _, rfl⟩
  rw [collectGarbage_eq w hcollect, Prod.mk.injEq] at h
  obtain ⟨rfl, rfl⟩ := h
  refine ⟨?_, fun hzero => ArtifactStore.collect_zero hh (hzero ▸ hcollect), ?_⟩
  · obtain ⟨names, hnodup, hlength, hdrops, hnames⟩ := ArtifactStore.collect_ok hh hcollect
    exact ⟨names, hnodup, hlength, fun name => (hnames name).trans takes_iff, hdrops⟩
  · have hagain := ArtifactStore.collect_again hh hcollect
    exact collectGarbage_eq ⟨t, (ids w).2.store⟩ hagain

/-- What is known of a file, and what a check finds where its sources are seen alike. -/
structure SameAnswers (file : Path) (w w' : Workspace) : Prop where
  idOf : (idOf file w').1 = (idOf file w).1
  recordOf : (recordOf file w').1 = (recordOf file w).1
  artifactOf : (artifactOf file w').1 = (artifactOf file w).1
  check : ∀ fingerprint, (∀ p ∈ w.sourcesOf file, SeenAlike w.files w'.files p) →
    (check fingerprint file w').1 = (check fingerprint file w).1

theorem sameAnswers_of_live (hids : w'.current.ids = w.current.ids)
    (hlive : ∀ id, w.Live id → w'.current.record id = w.current.record id ∧
      w'.store.artifacts.read? w'.files id = w.store.artifacts.read? w.files id) (file : Path) :
    SameAnswers file w w' := by
  cases hid : w.current.ids.get? file with
  | none =>
    have hid' : w'.current.ids.get? file = none := hids ▸ hid
    refine ⟨hid'.trans hid.symm, ?_, ?_, fun fingerprint _ => ?_⟩
    · rw [fst_recordOf, fst_recordOf, hid, hid']
      rfl
    · rw [fst_artifactOf_eq_bind, fst_artifactOf_eq_bind, hid, hid']
      rfl
    · rw [check_of_untracked hid, check_of_untracked hid']
  | some id =>
    have hid' : w'.current.ids.get? file = some id := hids ▸ hid
    obtain ⟨hrecord, hartifact⟩ := hlive id ⟨file, hid⟩
    refine ⟨hid'.trans hid.symm, ?_, ?_, fun fingerprint hseen => ?_⟩
    · rw [fst_recordOf, fst_recordOf, hid, hid']
      exact hrecord
    · rw [fst_artifactOf_eq_bind, fst_artifactOf_eq_bind, hid, hid']
      exact hartifact
    · rw [check_of_tracked hid, check_of_tracked hid', hrecord]
      cases hr : w.current.record id with
      | none => rfl
      | some r =>
        rw [sourcesOf, fst_recordOf, hid, Option.bind_some, hr] at hseen
        simp only [staleReason?_of_seen hseen]

/-- The cache as a session of the other mode, or of the same, has it. -/
def inMode (w : Workspace) (debug : Bool) : Workspace := { w with store.debug := debug }

@[simp] theorem inMode_files (w : Workspace) (debug : Bool) : (w.inMode debug).files = w.files :=
  rfl

theorem Collects.sameAnswers (h : Collects w w') (hsettled : w.store.layout.Settled w.files)
    (file : Path) : SameAnswers file w w' := by
  obtain ⟨-, hids, -⟩ := h.tables hsettled
  refine sameAnswers_of_live hids (fun id hid => ?_) file
  exact (h.of_live hsettled hid).2

/-- Whoever opens the cache after a collection and a save, in whichever mode, is answered as before
the collection. -/
theorem sameAnswers_reopen {w₁ : Workspace} (htidy : Tidy w) (hcollects : Collects w w')
    (hsave : save w' = (.ok (), w₁)) (htrim : trimBlanks w.store.version = w.store.version)
    (debug : Bool) :
    ∃ w₂, reopen w.store.version debug w₁ = (.ok (), w₂) ∧ w₂.files = w₁.files ∧
      ∀ file, SameAnswers file (w.inMode debug) w₂ := by
  have hsettled := htidy.grounded.settled
  have htidy' := htidy.collects hcollects
  have hsettled' := htidy'.grounded.settled
  have hsaves := saves_save hsettled' htidy'.linked
  have hclean := isDirty_save htidy'.linked.ids.loaded htidy'.linked.dependents.loaded
    (by rw [hsave]; rfl)
  have htidy₁ := htidy'.save
  rw [hsave] at hsaves hclean htidy₁
  have hversion : w₁.store.version = w.store.version :=
    hsaves.version.trans hcollects.setup.version
  have hlayout : w₁.store.layout = w.store.layout := hsaves.layout.trans hcollects.setup.layout
  obtain ⟨hreopen, -, hcurrent⟩ := htidy₁.reopen_of_clean hclean (hversion ▸ htrim) debug
  rw [hversion] at hreopen
  refine ⟨_, hreopen, rfl, sameAnswers_of_live ?_ fun id hid => ⟨?_, ?_⟩⟩
  · rw [← hversion, hcurrent, hsaves.current]
    exact (hcollects.tables hsettled).2.1
  · rw [← hversion, hcurrent, hsaves.current]
    exact (hcollects.of_live hsettled hid).2.1
  · -- the save writes no artifact
    have hread (part : Part) (hpart : part ≠ .record) :
        w₁.files.readText? ((Slot.entry id part).path w.store.layout) =
          w.files.readText? ((Slot.entry id part).path w.store.layout) := by
      have hkept := hsaves.changes.readText? hsettled' (s := .entry id part) (by simp [hpart])
      rw [hcollects.setup.layout] at hkept
      rw [hkept, hcollects.readText? hsettled]
      rintro id' part' heq
      cases heq
      exact hid
    show ArtifactStore.read? ⟨w₁.store.layout.files, debug⟩ w₁.files id =
      ArtifactStore.read? ⟨w.store.layout.files, debug⟩ w.files id
    rw [hlayout, Slot.read?_artifact, Slot.read?_artifact, hread _ (by simp), hread _ (by simp)]

end Workspace

open Workspace

/-- Whatever was in the cache directory before and whatever sessions did since: a collection that
ends with a number has taken that many files, the garbage and nothing else, and leaves none for a
second one. Every file is answered for as before, also in the next session, and its check finds the
same where the source and the dependencies of the record are seen alike. That they are, unless a
path leads to the garbage or to the directory that held it, or, for the next session, comes by what
the save before it may write. -/
theorem collectGarbage_takes_garbage {dir : Path} {version : String} {debug : Bool} {t : FileTree}
    (hsettled : (Layout.mk dir).Settled t) (hhoused : (Layout.mk dir).Housed t)
    {w₀ w w' : Workspace} (hopen : Store.openAt t dir version debug = (.ok w₀.store, w₀.files))
    {before : List Operation}
    (hbefore : w₀.Permits (fun w op => op.Usual (fun _ => True) w) before)
    (hw : w₀.after before = w) {n : Nat} (hcollect : collectGarbage w = (.ok n, w')) :
    (∃ names, names.Nodup ∧ names.length = n ∧ (∀ name, name ∈ names ↔ w.Garbage name) ∧
      Drops names w.store.layout.files.location w.files w'.files) ∧
    (n = 0 → w'.files = w.files) ∧ collectGarbage w' = (.ok 0, w') ∧
    (∀ file, SameAnswers file w w') ∧
    (∀ p, p.location ≠ w.store.layout.files.location →
      (∀ name, w.Garbage name → p.location ≠ name :: w.store.layout.files.location) →
        SeenAlike w.files w'.files p) ∧
    ∀ w₁ debug, save w' = (.ok (), w₁) → trimBlanks w.store.version = w.store.version →
      ∃ w₂, reopen w.store.version debug w₁ = (.ok (), w₂) ∧
        (∀ file, SameAnswers file (w.inMode debug) w₂) ∧
        (w.store.layout.Open w.files → ∀ p, Avoids p.segments w.store.layout.region.own →
          p.location ≠ w.store.layout.dir.location → SeenAlike w.files w₂.files p) := by
  have htidy : Tidy w := hw ▸
    after_of_step (fun w op h hop => h.run hop) (tidy_of_openAt hsettled hhoused hopen) hbefore
  have hh := htidy.grounded.housed
  have hcollects := collects_collectGarbage hh
  have hstays := staysConfined_collectGarbage hh
  rw [hcollect] at hcollects hstays
  obtain ⟨hexact, hzero, hagain⟩ := drops_collectGarbage hh hcollect
  have hanswers := hcollects.sameAnswers htidy.grounded.settled
  refine ⟨hexact, hzero, hagain, hanswers, fun p hfiles hgarbage => ?_,
    fun w₁ debug hsave htrim => ?_⟩
  · obtain ⟨names, -, -, hnames, hdrops⟩ := hexact
    refine hdrops.lacks.seenAlike (fun hgone => ?_) hfiles
    obtain ⟨name, hname, heq⟩ := hdrops.lacks.of_gone hgone
    exact hgarbage name ((hnames name).mp hname) heq
  · obtain ⟨w₂, hreopen, hfiles, hagain⟩ := sameAnswers_reopen htidy hcollects hsave htrim debug
    refine ⟨w₂, hreopen, hagain, fun hway p hp hhome => seenAlike_of_stat ?_⟩
    have hsaved := staysConfined_save w'
    rw [hsave] at hsaved
    rw [hfiles]
    exact (hstays.trans hsaved).confined.stat_of_outOfReach (hway.outOfReach hp hhome)

namespace Sample

/-- A cache directory with files of no one and a directory among them. -/
def litteredTree : FileTree :=
  withDirectory
    (withContent (withContent tree (.ofString "/cache/files/0.js") "") (.ofString "/cache/files/é")
      "") (.ofString "/cache/files/1.js")

def littered : Workspace := ⟨litteredTree, .fresh ⟨cacheDir⟩ Session.defaultVersion false true⟩

/-- Sessions of both modes. -/
def bothModes : List Operation :=
  [.commit session importer ["./y.js"] { code := "f", sourceMap := some "m" }, .save,
    .reopen Session.defaultVersion true, .commit session other [] { code := "g" }]

def littering : Workspace := littered.after bothModes

def collected : Except StoreError Nat × Workspace := collectGarbage littering

end Sample

open Sample in
theorem collectGarbage_takes_garbage_of_littered :
    collected.1 = .ok 2 ∧ collectGarbage collected.2 = (.ok 0, collected.2) ∧
      (artifactOf other collected.2).1 = some { code := "g" } ∧
      (session.check importer collected.2).1 = .fresh ∧
      ∃ w₂, reopen littering.store.version false (save collected.2).2 = (.ok (), w₂) ∧
        (artifactOf importer w₂).1 = some { code := "f", sourceMap := some "m" } ∧
        (session.check importer w₂).1 = .fresh := by
  have hfacts : ((Layout.mk cacheDir).Open litteredTree ∧
        littered.store.layout.Housed littered.files ∧
        (Store.openAt litteredTree cacheDir Session.defaultVersion false).1.toOption =
          some littered.store ∧
        (Store.openAt litteredTree cacheDir Session.defaultVersion false).2 = littered.files ∧
        littered.Permits (fun w op => op.Usual (fun _ => True) w) bothModes) ∧
      (collected.1.toOption = some 2 ∧ (save collected.2).1.isOk = true ∧
        trimBlanks littering.store.version = littering.store.version ∧
        littering.store.layout.Open littering.files) ∧
      ((artifactOf other littering).1 = some { code := "g" } ∧
        (artifactOf importer (littering.inMode false)).1 =
          some { code := "f", sourceMap := some "m" } ∧
        (session.check importer littering).1 = .fresh ∧
        (session.check importer (littering.inMode false)).1 = .fresh ∧
        littering.sourcesOf importer = [importer, dependency] ∧
        (littering.inMode false).sourcesOf importer = [importer, dependency]) ∧
      ∀ p ∈ [importer, dependency], Avoids p.segments (cacheDir.location <:+ ·) := by
    decide +kernel
  obtain ⟨⟨hopen, hhoused, hstore, hfiles, hmixed⟩, ⟨hcount, hsave, htrim, hway⟩,
    ⟨hartifact, hartifact', hcheck, hcheck', hsources, hsources'⟩, haside⟩ := hfacts
  have hopened : Store.openAt litteredTree cacheDir Session.defaultVersion false =
      (.ok littered.store, littered.files) := Prod.ext (eq_ok_iff_toOption.mpr hstore) hfiles
  have hcollect : collectGarbage littering = (.ok 2, collected.2) :=
    eq_mk_of_fst_eq (eq_ok_iff_toOption.mpr hcount)
  have hrun : littered.after bothModes = littering := rfl
  obtain ⟨-, -, hagain, hsame, hseen, hnext⟩ := collectGarbage_takes_garbage (.inl hopen) hhoused
    hopened hmixed hrun hcollect
  have hsaved : save collected.2 = (.ok (), (save collected.2).2) := by
    obtain ⟨u, hu⟩ := exists_ok_of_isOk hsave
    exact eq_mk_of_fst_eq hu
  obtain ⟨w₂, hreopen, hsame', hseen'⟩ := hnext _ false hsaved htrim
  have hlayout : littering.store.layout = ⟨cacheDir⟩ := by
    rw [← hrun, (housed_after hhoused (by simp [bothModes])).1]
    rfl
  refine ⟨eq_ok_iff_toOption.mpr hcount, hagain, (hsame other).artifactOf.trans hartifact,
    ((hsame importer).check _ fun p hp => ?_).trans hcheck, w₂, hreopen,
    (hsame' importer).artifactOf.trans hartifact',
    ((hsame' importer).check _ fun p hp => ?_).trans hcheck'⟩
  · rw [hsources] at hp
    rw [hlayout] at hseen
    have hfiles : ¬(Layout.mk cacheDir).files.location <:+ p.location := fun h =>
      (Layout.avoids_own (haside p hp)).location (.inr <| .inr <| .inr h)
    refine hseen p (fun heq => hfiles ?_) fun name _ heq => hfiles ?_
    · rw [heq]
    · rw [heq]
      exact List.suffix_cons name _
  · rw [hsources'] at hp
    rw [hlayout] at hseen' hway
    rw [inMode_files]
    exact hseen' hway p (Layout.avoids_own (haside p hp)) fun heq =>
      (haside p hp).location (heq ▸ List.suffix_rfl)

namespace Sample

/-- A file in the directory of the files that no id names. -/
def stray : Path := .ofString "/cache/files/foo.js"

def withStray : FileTree := withContent tree stray ""

/-- The cache directory with so many slashes after it that the paths of its files are too long. -/
def roundabout : Path := ⟨cacheDir.bytes ++ List.replicate 4080 slash⟩

/-- What a session is answered from the opening of the cache on. -/
def told (t : FileTree) (dir : Path) (version : String) (requests : List Request) :
    Option (List (Option Answer)) :=
  match Store.openAt t dir version false with
  | (.ok store, t') => some ((transcript ⟨t', store⟩ requests).map fun step => step.1.toOption)
  | (.error _, _) => none

/-- A file is checked before and after the garbage is collected. -/
def tidying (file : Path) (commit : Operation) : List Request :=
  [.perform commit, .perform (.check session file), .perform .collectGarbage,
    .perform (.check session file)]

def compilation (source : Path) : Operation := .commit session source [] { code := "" }

/-- The time of the directory is known. -/
def timedStray : FileTree :=
  (withStray.touch filesDirectory 5000000000).toOption.getD withStray

def listDirectory : Operation :=
  .commitRecord filesDirectory
    { stamp := ⟨.ofBytes [], 5000⟩, fingerprint := session.fingerprint }

def idTable : Path := (Layout.mk cacheDir).ids

/-- Asked before the garbage is collected and by the next session. -/
def asking (query : Query) (version : String) : List Request :=
  [.perform (.assignId importer), .ask query, .perform .collectGarbage, .perform .save,
    .perform (.reopen version false), .ask query]

end Sample

open Sample in
/-- Passed over is a file whose path is too long to be looked up. The answers change of a check that
looks at garbage, at the directory that held it or at a table of the cache, and those of a next
session that the version does not match or that sees what the last one could not. -/
theorem collectGarbage_passes_over_and_changes_answers :
    (withStray.isFile stray = true ∧
      told withStray roundabout Session.defaultVersion [.perform .collectGarbage] =
        some [some (.count 0)]) ∧
    (told withStray cacheDir Session.defaultVersion (tidying stray (compilation stray))).map
        (·.drop 1) =
      some [some (.freshness .fresh), some (.count 1),
        some (.freshness (.stale .sourceUnreadable))] ∧
    (told timedStray cacheDir Session.defaultVersion (tidying filesDirectory listDirectory)).map
        (·.drop 1) =
      some [some (.freshness (.stale .sourceUnreadable)), some (.count 1),
        some (.freshness (.stale .sourceChanged))] ∧
    (told (withContent tree idTable "\x7b\x7d") cacheDir Session.defaultVersion
        (tidying idTable (compilation idTable) ++
          [.perform .save, .perform restart, .perform (.check session idTable)])).map
        (·.drop 1) =
      some [some (.freshness .fresh), some (.count 0), some (.freshness .fresh), some .done,
        some .done, some (.freshness (.stale .sourceChanged))] ∧
    (told tree cacheDir " 1" (asking (.idOf importer) " 1")).map (·.drop 1) =
      some [some (.id? (some (.forPath importer))), some (.count 0), some .done, some .done,
        some (.id? none)] ∧
    (told closedWay detour Session.defaultVersion
        (asking (.recordOf importer) Session.defaultVersion)).map (·.drop 1) =
      some [some (.record? none), some (.count 0), some .done, some .done,
        some (.record? (some record))] := by
  decide +kernel

end BuildCache
