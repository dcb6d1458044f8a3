import BuildCache.Proofs.Layout.Confinement
import BuildCache.Proofs.Sessions
import BuildCache.Proofs.Workspace.SaveClosed
import BuildCache.Proofs.Workspace.Touching

/-!
# Working in the cache directory only

Whatever lies in the cache directory and whatever paths are asked for, no step of a session changes
anything but what the cache owns. On the way to the cache directory missing directories are made,
and no temporary file is left.
-/

namespace BuildCache

open FileTree

theorem Layout.saveClosed_confined (layout : Layout) : layout.SaveClosed layout.Confined where
  refl := .refl layout
  trans := .trans
  prepare _ hdir h := confined_of_prepare hdir h
  replace _ h := Slot.confined_replace h
  write _ h := Slot.confined_write h

section Artifacts

variable {layout : Layout} {t t' : FileTree}

theorem Slot.confined_replaceUnless {fault : Option StoreError} {s : Slot} {c : Bytes}
    {r : Except StoreError Unit} (h : t.replaceUnless fault (s.path layout) c = (r, t')) :
    layout.Confined t t' := by
  cases fault with
  | none => exact confined_replace h
  | some e =>
    cases h
    exact .refl _ _

theorem ArtifactStore.confined_of_writeUnless {codeFault mapFault : Option StoreError}
    {debug : Bool} {id : CacheId} {a : Artifact} {r : Except StoreError Unit}
    (h : ArtifactStore.writeUnless codeFault mapFault ⟨layout.files, debug⟩ t id a = (r, t')) :
    layout.Confined t t' := by
  rw [writeUnless, Slot.path_code, Slot.path_sourceMap] at h
  split at h
  · next hcode =>
    cases h
    exact Slot.confined_replaceUnless hcode
  · next hcode =>
    have hcode := Slot.confined_replaceUnless hcode
    split at h
    · exact hcode.trans (Slot.confined_replaceUnless h)
    · cases h
      exact hcode.trans (Slot.confined_discard _ _ _)

theorem Slot.confined_dropEntry (layout : Layout) (debug : Bool) (t : FileTree) (id : CacheId) :
    layout.Confined t (dropEntry layout debug t id) := by
  rw [dropEntry, ArtifactStore.remove, path_code, path_sourceMap]
  exact ((confined_discard layout _ t).trans (confined_discard layout _ _)).trans
    (confined_discard layout _ _)

end Artifacts

/-- An opening that fails may have cleared a part of the cache. -/
theorem Store.confined_of_openAt {t t' : FileTree} {layout : Layout} {version : String}
    {debug : Bool} {r : Except StoreError Store}
    (h : Store.openAt t layout.dir version debug = (r, t')) :
    layout.Confined t t' ∧ ∀ s, r = .ok s → s.layout = layout := by
  rw [openAt] at h
  simp only at h
  split at h
  · cases h
    exact ⟨.refl _ _, fun s hs => (by cases hs; rfl)⟩
  · split at h
    · cases h
      exact ⟨.refl _ _, fun s hs => (by cases hs; rfl)⟩
    · split at h
      · next hclear =>
        cases h
        exact ⟨Layout.confined_clear hclear, fun s hs => (by cases hs; rfl)⟩
      · next hclear =>
        cases h
        exact ⟨Layout.confined_clear hclear, fun s hs => (by cases hs)⟩

namespace Workspace

/-- A step keeps to the layout of its cache. -/
structure StaysConfined (w w' : Workspace) : Prop where
  layout : w'.store.layout = w.store.layout
  confined : w.store.layout.Confined w.files w'.files

variable {w w' w'' : Workspace}

theorem StaysConfined.refl (w : Workspace) : StaysConfined w w := ⟨rfl, .refl _ _⟩

theorem StaysConfined.trans (h : StaysConfined w w') (h' : StaysConfined w' w'') :
    StaysConfined w w'' :=
  ⟨h'.layout.trans h.layout, h.confined.trans (h.layout ▸ h'.confined)⟩

theorem Inward.stays (h : Inward w w') : StaysConfined w w' := ⟨h.layout, h.files ▸ .refl _ _⟩

theorem staysConfined_save (w : Workspace) : StaysConfined w (save w).2 :=
  ⟨(touches_save w).layout, files_save w.store.layout.saveClosed_confined⟩

theorem staysConfined_writeArtifactUnless (faults : Faults) (id : CacheId) (a : Artifact)
    (w : Workspace) : StaysConfined w (writeArtifactUnless faults id a w).2 := by
  cases hwrite : w.store.artifacts.writeUnless (faults (.entry id (.code w.store.debug)))
      (faults (.entry id (.sourceMap w.store.debug))) w.files id a with
  | mk r t =>
    rw [writeArtifactUnless_eq hwrite]
    exact ⟨rfl, ArtifactStore.confined_of_writeUnless hwrite⟩

theorem staysConfined_evict (file : Path) (w : Workspace) : StaysConfined w (evict file w).2 := by
  refine ⟨(sheds_evict file w).layout, ?_⟩
  cases hid : w.current.ids.get? file with
  | none =>
    rw [evict_of_untracked hid]
    exact (inward_untrack file w).stays.confined
  | some id =>
    rw [files_evict hid]
    exact Slot.confined_dropEntry _ _ _ id

theorem evictionClosed_stays : EvictionClosed StaysConfined :=
  .of_dropping .refl .trans (fun w => (inward_ids w).stays) (fun w => (inward_dependents w).stays)
    staysConfined_evict fun _ w => (inward_changeDependents _ w).stays

theorem staysConfined_sweep (w : Workspace) : StaysConfined w (sweep w).2 := by
  rw [snd_sweep]
  exact (evictionClosed_stays.swept w).trans (staysConfined_save _)

theorem staysConfined_commit (s : Session) (file : Path) (specifiers : List String)
    (artifact : Artifact) (w : Workspace) : StaysConfined w (s.commit file specifiers artifact w).2 := by
  have hwritten {id : CacheId} {w₁ w₂ : Workspace} {r : Except StoreError Unit}
      (hassign : assignId file w = (.ok id, w₁))
      (hwrite : writeArtifactUnless .none id artifact w₁ = (r, w₂)) : StaysConfined w w₂ := by
    have hassigned := (inward_assignId file w).stays
    have hartifact := staysConfined_writeArtifactUnless .none id artifact w₁
    rw [hassign] at hassigned
    rw [hwrite] at hartifact
    exact hassigned.trans hartifact
  have hcourse := s.commitCourse .none file specifiers artifact w
  rw [Session.commitUnless_none] at hcourse
  generalize s.commit file specifiers artifact w = result at hcourse ⊢
  cases hcourse with
  | nonText | unreadable => exact .refl w
  | unwritten _ _ hassign hwrite => exact hwritten hassign hwrite
  | done _ hassign hwrite _ =>
    exact (hwritten hassign hwrite).trans
      ((inward_ids _).trans (inward_replaceRecord file _ _ _)).stays

theorem staysConfined_collectGarbage (hh : w.store.layout.Housed w.files) :
    StaysConfined w (collectGarbage w).2 := by
  obtain ⟨r, t, hcollect⟩ : ∃ r t, (ids w).2.store.artifacts.collect (ids w).2.files
      (liveIds w).1 = (r, t) := ⟨_, _, rfl⟩
  have happly : collectGarbage w = (r, { (ids w).2 with files := t }) := by
    have heq : collectGarbage w =
        onFiles (fun t => (ids w).2.store.artifacts.collect t (liveIds w).1) (ids w).2 := rfl
    rw [heq, onFiles, hcollect]
  rw [happly]
  exact ⟨rfl, Layout.confined_collect hh hcollect⟩

theorem staysConfined_reopen (version : String) (debug : Bool) (w : Workspace) :
    StaysConfined w (reopen version debug w).2 := by
  rw [reopen]
  split
  · next hopen =>
    obtain ⟨hconfined, hlayout⟩ := Store.confined_of_openAt hopen
    exact ⟨hlayout _ rfl, hconfined⟩
  · next hopen => exact ⟨rfl, (Store.confined_of_openAt hopen).1⟩

end Workspace

namespace Operation

/-- Everything but an edit from outside is the work of a session. -/
def IsWork : Operation → Bool
  | .edit _ => false
  | _ => true

end Operation

namespace Workspace

variable {w : Workspace}

theorem staysConfined_run (hh : w.store.layout.Housed w.files) {op : Operation}
    (hop : op.IsWork = true) : StaysConfined w (op.run w).2 := by
  cases op with
  | commit s file specifiers artifact => exact staysConfined_commit s file specifiers artifact w
  | commitRecord file r => exact (inward_commitRecord file r w).stays
  | assignId file => exact (inward_assignId file w).stays
  | setDependencies file dependencies => exact (inward_setDependencies file dependencies w).stays
  | evict file => exact staysConfined_evict file w
  | evictDependents dependency => exact evictionClosed_stays.evictDependents dependency w
  | sweep => exact staysConfined_sweep w
  | collectGarbage => exact staysConfined_collectGarbage hh
  | save => exact staysConfined_save w
  | check s file => exact (inward_check s.fingerprint file w).1.stays
  | reopen version debug => exact staysConfined_reopen version debug w
  | edit files => cases hop

theorem staysConfined_after (hh : w.store.layout.Housed w.files) {ops : List Operation}
    (hops : ∀ op ∈ ops, op.IsWork = true) : StaysConfined w (w.after ops) := by
  induction ops generalizing w with
  | nil => exact .refl w
  | cons op ops ih =>
    obtain ⟨hop, hrest⟩ := List.forall_mem_cons.mp hops
    have hstep := staysConfined_run hh hop
    exact hstep.trans (ih (hstep.layout ▸ hstep.confined.housed hh) hrest)

/-- Names in the cache directory stay such that a lookup can follow them. -/
theorem housed_after (hh : w.store.layout.Housed w.files) {ops : List Operation}
    (hedits : ∀ t, .edit t ∈ ops → w.store.layout.Housed t) :
    (w.after ops).store.layout = w.store.layout ∧ w.store.layout.Housed (w.after ops).files := by
  induction ops generalizing w with
  | nil => exact ⟨rfl, hh⟩
  | cons op ops ih =>
    have hstep : (op.run w).2.store.layout = w.store.layout ∧
        w.store.layout.Housed (op.run w).2.files := by
      cases hop : op.IsWork with
      | true =>
        have hstays := staysConfined_run hh hop
        exact ⟨hstays.layout, hstays.confined.housed hh⟩
      | false =>
        cases op with
        | edit t => exact ⟨rfl, hedits t List.mem_cons_self⟩
        | _ => cases hop
    obtain ⟨hlayout, hhoused⟩ := hstep
    have hrest := ih (hlayout ▸ hhoused) fun t ht => hlayout ▸ hedits t (List.mem_cons_of_mem op ht)
    rwa [hlayout] at hrest

theorem confined_between (hh : w.store.layout.Housed w.files) {before ops : List Operation}
    (hedits : ∀ t, .edit t ∈ before → w.store.layout.Housed t)
    (hops : ∀ op ∈ ops, op.IsWork = true) :
    w.store.layout.Confined (w.after before).files (w.after (before ++ ops)).files := by
  obtain ⟨hlayout, hhoused⟩ := housed_after hh hedits
  rw [after_append, ← hlayout]
  exact (staysConfined_after (hlayout ▸ hhoused) hops).confined

end Workspace

open Workspace

/-- Whatever is on disk and whatever was done to the cache or edited before, sessions change only
what the cache owns and the way to it. -/
theorem confined_after {t t₁ : FileTree} {dir : Path} {version : String} {debug : Bool}
    {opened : Except StoreError Store} (hh : (Layout.mk dir).Housed t)
    (hopen : Store.openAt t dir version debug = (opened, t₁)) :
    (Layout.mk dir).Confined t t₁ ∧ ∀ s, opened = .ok s → ∀ before ops : List Operation,
      (∀ t, .edit t ∈ before → (Layout.mk dir).Housed t) → (∀ op ∈ ops, op.IsWork = true) →
        (Layout.mk dir).Confined (Workspace.after ⟨t₁, s⟩ before).files
          (Workspace.after ⟨t₁, s⟩ (before ++ ops)).files := by
  generalize hdir : Layout.mk dir = layout at hh
  obtain rfl : layout.dir = dir := by rw [← hdir]
  obtain ⟨hconfined, hlayout⟩ := Store.confined_of_openAt hopen
  refine ⟨hconfined, fun s hs before ops hedits hops => ?_⟩
  obtain rfl := hlayout s hs
  exact confined_between (w := ⟨t₁, s⟩) (hconfined.housed hh) hedits hops

namespace Sample

/-- A cache directory of another version, with a table that would name files elsewhere. -/
def foreignTree : FileTree :=
  [("/cache/version", "1"), ("/cache/notes", "n"), ("/cache/files/x.json", "x"),
    ("/cache/cache_id_map.json", "\x7b\"/src/g.js\":\"../../src/g\"\x7d")].foldl
      (fun t file => withContent t (.ofString file.1) file.2) tree

/-- A session with paths in and out of the cache directory. -/
def excursion : List Operation :=
  [.commit session importer ["./y.js"] { code := "f" },
    .commit session (.ofString "/cache/notes") ["/cache/version"] { code := "n" },
    .evict (.ofString "/cache/../src/g.js"), .save, .reopen "2" true, .evict other, .sweep,
    .collectGarbage]

/-- What the first session on that directory knows. -/
def foreign : Store := .fresh ⟨cacheDir⟩ "1" false false

def sourceEdited : Operation := .edit (withContent foreignTree other "2")

end Sample

open Sample

theorem confined_of_excursion :
    ((Layout.mk cacheDir).Housed foreignTree ∧
      Store.openAt foreignTree cacheDir "1" false = (.ok foreign, foreignTree) ∧
      (Workspace.after ⟨foreignTree, foreign⟩ (sourceEdited :: excursion)).files.readText?
        (Layout.mk cacheDir).marker = some "2") ∧
    (Layout.mk cacheDir).Confined foreignTree foreignTree ∧
      (Layout.mk cacheDir).Confined (Workspace.after ⟨foreignTree, foreign⟩ [sourceEdited]).files
        (Workspace.after ⟨foreignTree, foreign⟩ ([sourceEdited] ++ excursion)).files := by
  have hhoused : (Layout.mk cacheDir).Housed foreignTree := by decide +kernel
  have hopen : Store.openAt foreignTree cacheDir "1" false = (.ok foreign, foreignTree) := by
    decide +kernel
  have hedited : ∀ t, .edit t ∈ [sourceEdited] → (Layout.mk cacheDir).Housed t := by
    intro t ht
    obtain rfl : t = withContent foreignTree other "2" := by simpa [sourceEdited] using ht
    decide +kernel
  obtain ⟨hopened, hafter⟩ := confined_after hhoused hopen
  exact ⟨⟨hhoused, hopen, by decide +kernel⟩, hopened,
    hafter foreign rfl [sourceEdited] excursion hedited (by decide)⟩

/-- A cache of another version is cleared together with the directory of its files, not only of what
that directory holds. -/
theorem not_agree_of_otherVersion :
    (Store.openAt foreignTree cacheDir "2" false).1.isOk = true ∧
      ¬Agree (fun k => k ∈ [cacheDir.location, (Layout.mk cacheDir).marker.location,
            (Layout.mk cacheDir).ids.location, (Layout.mk cacheDir).dependents.location] ∨
          ∃ n, n :: (Layout.mk cacheDir).files.location <:+ k)
        foreignTree (Store.openAt foreignTree cacheDir "2" false).2 := by
  have hfacts : (Store.openAt foreignTree cacheDir "2" false).1.isOk = true ∧
      (Layout.mk cacheDir).files.location ∉ [cacheDir.location,
        (Layout.mk cacheDir).marker.location, (Layout.mk cacheDir).ids.location,
        (Layout.mk cacheDir).dependents.location] ∧
      foreignTree.isDirectoryAt (Layout.mk cacheDir).files.location = true ∧
      FileTree.entry? (Store.openAt foreignTree cacheDir "2" false).2
        (Layout.mk cacheDir).files.location = none := by
    decide +kernel
  obtain ⟨hopen, hother, hbefore, hafter⟩ := hfacts
  refine ⟨hopen, fun hagree => ?_⟩
  have hsame := hagree (Layout.mk cacheDir).files.location ?_
  · have hsome := entry?_isSome_of_isDirectoryAt hbefore
    rw [← hsame, hafter] at hsome
    cases hsome
  · rintro (hmem | ⟨n, hbelow⟩)
    · exact hother hmem
    · exact absurd hbelow.length_le (by simp)

end BuildCache
