import BuildCache.Proofs.Layout.Inside
import BuildCache.Proofs.Workspace.Collecting
import BuildCache.Proofs.Workspace.Committing
import BuildCache.Proofs.Workspace.Sweeping

/-!
# Runs of sessions

A run is what sessions do to one cache directory one after the other, and what happens to the files
around it meanwhile. A session ends when the next one opens the cache.
-/

namespace BuildCache

open FileTree

namespace Workspace

/-- Opens the cache anew, as the next session does. What was not saved is lost. -/
def reopen (version : String) (debug : Bool) : Action Unit := fun w =>
  match Store.openAt w.files w.store.layout.dir version debug with
  | (.ok store, files) => (.ok (), { files, store })
  | (.error e, files) => (.error e, { w with files })

end Workspace

/-- A step of a run. Sessions differ in their plugins, so a step that depends on them names its
session. -/
inductive Operation where
  | commit (s : Session) (file : Path) (specifiers : List String) (artifact : Artifact)
  | commitRecord (file : Path) (record : CacheRecord)
  | assignId (file : Path)
  | setDependencies (file : Path) (dependencies : PathSet)
  | evict (file : Path)
  | evictDependents (dependency : Path)
  | sweep
  | collectGarbage
  | save
  | check (s : Session) (file : Path)
  | reopen (version : String) (debug : Bool)
  | edit (files : FileTree)

namespace Operation

private def outcome {α : Type} (x : Except StoreError α × Workspace) :
    Except StoreError Unit × Workspace :=
  (x.1.map fun _ => (), x.2)

/-- What a step does, and whether it fails. -/
def run : Operation → Workspace → Except StoreError Unit × Workspace
  | .commit s file specifiers artifact, w => outcome (s.commit file specifiers artifact w)
  | .commitRecord file record, w => outcome (w.commitRecord file record)
  | .assignId file, w => outcome (Workspace.assignId file w)
  | .setDependencies file dependencies, w => Workspace.setDependencies file dependencies w
  | .evict file, w => (.ok (), (Workspace.evict file w).2)
  | .evictDependents dependency, w => (.ok (), (Workspace.evictDependents dependency w).2)
  | .sweep, w => outcome (Workspace.sweep w)
  | .collectGarbage, w => outcome (Workspace.collectGarbage w)
  | .save, w => Workspace.save w
  | .check s file, w => (.ok (), (s.check file w).2)
  | .reopen version debug, w => Workspace.reopen version debug w
  | .edit files, w => (.ok (), { w with files })

theorem snd_run_sweep (w : Workspace) : (sweep.run w).2 = (Workspace.sweep w).2 := rfl

end Operation

namespace Workspace

/-- Where a run leads. -/
def after (w : Workspace) : List Operation → Workspace
  | [] => w
  | op :: ops => (op.run w).2.after ops

theorem after_append (w : Workspace) (ops ops' : List Operation) :
    w.after (ops ++ ops') = (w.after ops).after ops' := by
  induction ops generalizing w with
  | nil => rfl
  | cons op ops ih => exact ih _

/-- Each step of a run is as allowed where it is taken. -/
def Permits (allowed : Workspace → Operation → Prop) (w : Workspace) : List Operation → Prop
  | [] => True
  | op :: ops => allowed w op ∧ (op.run w).2.Permits allowed ops

instance decidablePermits (allowed : Workspace → Operation → Prop)
    [∀ w op, Decidable (allowed w op)] (w : Workspace) :
    (ops : List Operation) → Decidable (w.Permits allowed ops)
  | [] => .isTrue trivial
  | op :: ops =>
    have := decidablePermits allowed (op.run w).2 ops
    inferInstanceAs (Decidable (_ ∧ _))

theorem after_of_step {allowed : Workspace → Operation → Prop} {I : Workspace → Prop}
    (hstep : ∀ w op, I w → allowed w op → I (op.run w).2) {w : Workspace} {ops : List Operation}
    (h : I w) (hops : w.Permits allowed ops) : I (w.after ops) := by
  induction ops generalizing w with
  | nil => exact h
  | cons op ops ih => exact ih (hstep w op h hops.1) hops.2

end Workspace

namespace Operation

/-- A step of a well-kept cache: files are named by paths of a set, saves and openings succeed, and
edits leave the inside of the cache directory alone. -/
def Orderly (S : Path → Prop) (w : Workspace) : Operation → Prop
  | .commit _ file _ _ | .commitRecord file _ | .assignId file => S file
  | .save => (Workspace.save w).1.isOk = true
  | .reopen version debug => (Workspace.reopen version debug w).1.isOk = true
  | .edit files => w.store.layout.inside files = w.store.layout.inside w.files
  | _ => True

/-- What a step must not do besides: fail to save what it swept, or close the way to the cache
directory. -/
def Guarded (w : Workspace) : Operation → Prop
  | .sweep => (Workspace.sweep w).1.isOk = true
  | .edit files => w.store.layout.Open w.files → w.store.layout.Open files
  | _ => True

instance (S : Path → Prop) [DecidablePred S] (w : Workspace) :
    (op : Operation) → Decidable (op.Orderly S w)
  | .commit _ file _ _ | .commitRecord file _ | .assignId file => inferInstanceAs (Decidable (S file))
  | .save => inferInstanceAs (Decidable (_ = true))
  | .reopen .. => inferInstanceAs (Decidable (_ = true))
  | .edit _ => inferInstanceAs (Decidable (_ = _))
  | .setDependencies .. | .evict _ | .evictDependents _ | .sweep | .collectGarbage | .check .. =>
    .isTrue trivial

instance (w : Workspace) : (op : Operation) → Decidable (op.Guarded w)
  | .sweep => inferInstanceAs (Decidable (_ = true))
  | .edit _ => inferInstanceAs (Decidable (_ → _))
  | .commit .. | .commitRecord .. | .assignId _ | .setDependencies .. | .evict _
  | .evictDependents _ | .collectGarbage | .save | .check .. | .reopen .. => .isTrue trivial

end Operation

namespace Workspace

/-- The cache directory is settled, and names in it can be followed. -/
structure Grounded (w : Workspace) : Prop where
  settled : w.store.layout.Settled w.files
  housed : w.store.layout.Housed w.files

variable {w w' : Workspace}

theorem Grounded.of_changes {touched : Slot → Prop} (h : w.Grounded)
    (hlayout : w'.store.layout = w.store.layout)
    (hchanges : w.store.layout.Changes touched w.files w'.files) : w'.Grounded :=
  ⟨hlayout ▸ hchanges.settled h.settled, hlayout ▸ hchanges.housed h.housed⟩

theorem Grounded.inward (h : w.Grounded) (hw : Inward w w') : w'.Grounded := by
  have hchanges : w.store.layout.Changes (fun _ => False) w.files w'.files := by
    rw [hw.files]
    exact .refl _ _ _
  exact h.of_changes hw.layout hchanges

theorem builds_edit {t : FileTree} (h : w.store.layout.Outside w.files t) :
    Builds (fun _ => False) w { w with files := t } :=
  ⟨rfl, h.changes.mono fun _ => False.elim⟩

theorem recordOf_eq (file : Path) (w : Workspace) :
    recordOf file w = (match w.current.ids.get? file with
      | some id => record? id
      | none => return none : StateM Workspace (Option CacheRecord)) (ids w).2 := rfl

theorem artifactOf_eq (file : Path) (w : Workspace) :
    artifactOf file w = (match w.current.ids.get? file with
      | some id => artifact? id
      | none => return none : StateM Workspace (Option Artifact)) (ids w).2 := rfl

theorem fst_recordOf (file : Path) (w : Workspace) :
    (recordOf file w).1 = (w.current.ids.get? file).bind w.current.record := by
  rw [recordOf_eq]
  cases w.current.ids.get? file <;> rfl

theorem current_recordOf (file : Path) (w : Workspace) :
    (recordOf file w).2.current = w.current := by
  rw [recordOf_eq]
  cases w.current.ids.get? file with
  | some id => exact (current_record? id _).trans (current_ids w)
  | none => exact current_ids w

theorem fst_artifactOf_eq_bind (file : Path) (w : Workspace) :
    (artifactOf file w).1 =
      (w.current.ids.get? file).bind fun id => w.store.artifacts.read? w.files id := by
  rw [artifactOf_eq]
  cases w.current.ids.get? file <;> rfl

private theorem check_eq (fingerprint : Fingerprint) (file : Path) (w : Workspace) :
    check fingerprint file w = ((do
      match ← (match w.current.ids.get? file with
        | some id => record? id
        | none => pure none : StateM Workspace (Option CacheRecord)) with
      | none => return .stale .notCached
      | some record => return .ofReason? ((← currentFiles).staleReason? fingerprint file record) :
        StateM Workspace Freshness) (ids w).2) := rfl

theorem check_of_untracked {fingerprint : Fingerprint} {file : Path}
    (h : w.current.ids.get? file = none) :
    check fingerprint file w = (.stale .notCached, (ids w).2) := by
  rw [check_eq, h]
  rfl

theorem check_of_tracked {fingerprint : Fingerprint} {file : Path} {id : CacheId}
    (h : w.current.ids.get? file = some id) :
    check fingerprint file w = (match w.current.record id with
      | none => .stale .notCached
      | some record => .ofReason? (w.files.staleReason? fingerprint file record),
      (record? id (ids w).2).2) := by
  have hrecord : (record? id (ids w).2).1 = w.current.record id := rfl
  rw [check_eq, h]
  show (match (record? id (ids w).2).1 with
    | none => return .stale .notCached
    | some record => do return .ofReason? ((← currentFiles).staleReason? fingerprint file record) :
      StateM Workspace Freshness) (record? id (ids w).2).2 = _
  rw [hrecord]
  cases w.current.record id <;> rfl

theorem inward_check (fingerprint : Fingerprint) (file : Path) (w : Workspace) :
    Inward w (check fingerprint file w).2 ∧
      (check fingerprint file w).2.current = w.current := by
  cases h : w.current.ids.get? file with
  | none =>
    rw [check_of_untracked h]
    exact ⟨inward_ids w, current_ids w⟩
  | some id =>
    rw [check_of_tracked h]
    exact ⟨(inward_ids w).trans (inward_record? id _), (current_record? id _).trans (current_ids w)⟩

/-- The cache that was opened knows what is on disk: what was there, or nothing if it was cleared. -/
structure Reopens (v : String) (d : Bool) (w w' : Workspace) : Prop where
  layout : w'.store.layout = w.store.layout
  version : w'.store.version = v
  debug : w'.store.debug = d
  grounded : w'.Grounded
  linked : ∀ P, w'.Linked P
  current : w'.current = w'.saved
  files : w'.files = w.files ∨ w'.saved = .empty
  marked : ∀ x, w'.files.readText? (Slot.marker.path w.store.layout) = some x → trimBlanks x = v
  kept : (∀ x, w.files.readText? (Slot.marker.path w.store.layout) = some x →
    trimBlanks x = v) → w'.files = w.files

theorem Reopens.saved {version : String} {debug : Bool} (h : Reopens version debug w w') :
    w'.saved = w.saved ∨ w'.saved = .empty := by
  rcases h.files with hsame | hempty
  · refine .inl ?_
    rw [Workspace.saved, Workspace.saved, hsame, h.layout]
  · exact .inr hempty

end Workspace

/-- A store that was just opened has nothing in memory. -/
def Store.fresh (layout : Layout) (version : String) (debug unmarked : Bool) : Store :=
  { layout, version, debug, unmarked }

theorem Store.openAt_cases {t t' : FileTree} {dir : Path} {version : String} {debug : Bool}
    {s : Store} (h : Store.openAt t dir version debug = (.ok s, t')) :
    ∃ unmarked, s = .fresh ⟨dir⟩ version debug unmarked ∧
      ((t' = t ∧ ∀ x, t.readText? (Slot.marker.path ⟨dir⟩) = some x → trimBlanks x = version) ∨
        ∃ x, t.readText? (Slot.marker.path ⟨dir⟩) = some x ∧ trimBlanks x ≠ version ∧
          (Layout.mk dir).clear t = (.ok (), t')) := by
  rw [openAt, Slot.path_marker] at h
  simp only at h
  split at h
  · next hnone =>
    cases h
    exact ⟨true, rfl, .inl ⟨rfl, fun x hx => by rw [hnone] at hx; contradiction⟩⟩
  · next x hx =>
    split at h
    · next hversion =>
      cases h
      refine ⟨false, rfl, .inl ⟨rfl, fun x' hx' => ?_⟩⟩
      rw [hx, Option.some.injEq] at hx'
      exact hx' ▸ hversion
    · next hversion =>
      split at h
      · next hclear =>
        cases h
        exact ⟨true, rfl, .inr ⟨x, hx, hversion, hclear⟩⟩
      · simp at h

theorem Store.openAt_of_marked {t : FileTree} {dir : Path} {version : String} (debug : Bool)
    (h : ∀ x, t.readText? (Slot.marker.path ⟨dir⟩) = some x → trimBlanks x = version) :
    ∃ unmarked, Store.openAt t dir version debug = (.ok (.fresh ⟨dir⟩ version debug unmarked), t) := by
  rw [openAt, Slot.path_marker]
  simp only
  split
  · exact ⟨true, rfl⟩
  · next x hx =>
    rw [if_pos (h x hx)]
    exact ⟨false, rfl⟩

namespace Workspace

variable {layout : Layout} {version : String} {debug unmarked : Bool}

theorem linked_fresh (t : FileTree) (P : CacheId → Prop) :
    Linked P ⟨t, .fresh layout version debug unmarked⟩ where
  ids := ⟨fun _ a ha => (by cases ha), fun h => (by cases h)⟩
  dependents := ⟨fun _ a ha => (by cases ha), fun h => (by cases h)⟩
  waiting id r hr := by cases hr
  clean id _ _ r hr := by cases hr

theorem current_fresh (t : FileTree) :
    current ⟨t, .fresh layout version debug unmarked⟩ =
      saved ⟨t, .fresh layout version debug unmarked⟩ := rfl

theorem saved_of_contentAt {w : Workspace}
    (h : ∀ s : Slot, w.files.contentAt (s.location w.store.layout) = none) : w.saved = .empty := by
  have hread (s : Slot) : w.files.readText? (s.path w.store.layout) = none :=
    Slot.readText?_path_eq_none (h s)
  refine books_ext ?_ ?_ fun id => ?_
  · simp only [saved, Layout.books, tableAt, readJson?, Slot.path_ids, hread]
    rfl
  · simp only [saved, Layout.books, tableAt, readJson?, Slot.path_dependents, hread]
    rfl
  · simp only [saved, Layout.books, readJson?, Slot.path_record, hread]
    rfl

theorem openAt_of_vacant {dir : Path} {t : FileTree} (h : (Layout.mk dir).Vacant t)
    (version : String) (debug : Bool) :
    Store.openAt t dir version debug = (.ok (.fresh ⟨dir⟩ version debug true), t) := by
  have hmarker := Slot.readText?_path_eq_none (h.contentAt_eq_none .marker)
  rw [Store.openAt, Slot.path_marker, hmarker]
  rfl

/-- The first session on a cache directory where nothing is knows nothing. -/
theorem blank_of_open {dir : Path} {t : FileTree} {w : Workspace}
    (hvacant : (Layout.mk dir).Vacant t)
    (hopen : Store.openAt t dir version debug = (.ok w.store, w.files)) :
    w.Grounded ∧ (∀ P, w.Linked P) ∧ w.current = .empty ∧ w.saved = .empty ∧
      w.files.readText? (Slot.marker.path w.store.layout) = none := by
  obtain ⟨files, store⟩ := w
  rw [openAt_of_vacant hvacant, Prod.mk.injEq, Except.ok.injEq] at hopen
  obtain ⟨rfl, rfl⟩ : Store.fresh ⟨dir⟩ version debug true = store ∧ t = files := hopen
  have hsaved : saved ⟨t, .fresh ⟨dir⟩ version debug true⟩ = .empty :=
    saved_of_contentAt hvacant.contentAt_eq_none
  exact ⟨⟨hvacant.settled, hvacant.housed⟩, linked_fresh _, (current_fresh _).trans hsaved, hsaved,
    Slot.readText?_path_eq_none (hvacant.contentAt_eq_none .marker)⟩

theorem reopens_reopen {w : Workspace} (hg : w.Grounded)
    (hok : (reopen version debug w).1.isOk = true) :
    Reopens version debug w (reopen version debug w).2 := by
  rw [reopen] at hok ⊢
  cases h : Store.openAt w.files w.store.layout.dir version debug with
  | mk r t =>
    rw [h] at hok
    cases r with
    | error e => cases hok
    | ok s =>
      obtain ⟨unmarked, rfl, hfiles⟩ := Store.openAt_cases h
      simp only
      rcases hfiles with ⟨rfl, hmarked⟩ | ⟨x, hx, hversion, hclear⟩
      · exact ⟨rfl, rfl, rfl, ⟨hg.settled, hg.housed⟩, linked_fresh _, rfl, .inl rfl, hmarked,
          fun _ => rfl⟩
      · obtain ⟨hslots, hbelow⟩ := Layout.contentAt_of_clear (Slot.open_of_readText? hx) hclear
        refine ⟨rfl, rfl, rfl, ⟨.inr hslots, fun n hn => ?_⟩, linked_fresh _, rfl,
          .inr (saved_of_contentAt hslots), fun x' hx' => ?_,
          fun hmarker => absurd (hmarker x hx) hversion⟩
        · have hn : (t.entry? (n :: w.store.layout.files.location)).isSome = true := hn
          have hnone : t.entry? (n :: w.store.layout.files.location) = none := hbelow n
          rw [hnone] at hn
          contradiction
        · have hnone := Slot.readText?_path_eq_none (hslots .marker)
          have hx' : t.readText? (Slot.marker.path w.store.layout) = some x' := hx'
          rw [hnone] at hx'
          contradiction

/-- A first session finds what a later one would. -/
theorem reopens_of_openAt {t : FileTree} {dir : Path} {w : Workspace}
    (hsettled : (Layout.mk dir).Settled t) (hhoused : (Layout.mk dir).Housed t)
    (hopen : Store.openAt t dir version debug = (.ok w.store, w.files)) :
    Reopens version debug ⟨t, .fresh ⟨dir⟩ version debug true⟩ w := by
  have hg : Grounded ⟨t, .fresh ⟨dir⟩ version debug true⟩ := ⟨hsettled, hhoused⟩
  have heq : reopen version debug ⟨t, .fresh ⟨dir⟩ version debug true⟩ = (.ok (), w) := by
    rw [reopen]
    simp only [Store.fresh, hopen]
  have hok : (reopen version debug ⟨t, .fresh ⟨dir⟩ version debug true⟩).1.isOk = true := by
    rw [heq]
    rfl
  have hreopens := reopens_reopen hg hok
  rwa [heq] at hreopens

theorem isOk_reopen {w : Workspace} (hmarked : ∀ x,
    w.files.readText? (Slot.marker.path w.store.layout) = some x → trimBlanks x = version) :
    (reopen version debug w).1.isOk = true := by
  obtain ⟨unmarked, hopen⟩ := Store.openAt_of_marked debug hmarked
  rw [reopen, hopen]
  rfl

end Workspace

namespace Sample

open Workspace

def importer : Path := .ofString "/src/f.js"

def dependency : Path := .ofString "/src/y.js"

def other : Path := .ofString "/src/g.js"

abbrev Named (p : Path) : Prop := p ∈ [importer, other]

theorem distinct_named : Books.Distinct Named := by
  intro p q hp hq h
  have hne : CacheId.forPath importer ≠ CacheId.forPath other := by decide +kernel
  simp only [Named, List.mem_cons, List.not_mem_nil, or_false] at hp hq
  rcases hp with rfl | rfl <;> rcases hq with rfl | rfl
  · rfl
  · exact absurd h hne
  · exact absurd h.symm hne
  · rfl

def withContent (t : FileTree) (p : Path) (content : String) : FileTree :=
  (t.replace p content.toUTF8.toList).2

def withDirectory (t : FileTree) (p : Path) : FileTree := (t.prepare p).2

def tree : FileTree :=
  withContent (withContent (withContent (.empty 0) importer "1") dependency "") other ""

def session : Session := .ofPlugins { root := .ofString "/" } []

/-- The first session on a cache directory. -/
def opened (dir : Path) (version : String) : Workspace := ⟨tree, .fresh ⟨dir⟩ version false true⟩

def started (dir : Path) : Workspace := opened dir Session.defaultVersion

def restart : Operation := .reopen Session.defaultVersion false

def cacheDir : Path := .ofString "/cache"

theorem trimBlanks_defaultVersion :
    trimBlanks Session.defaultVersion = Session.defaultVersion := by decide +kernel

theorem vacant_cacheDir : (Layout.mk cacheDir).Vacant tree := by decide +kernel

theorem openAt_cacheDir (version : String) : Store.openAt tree cacheDir version false =
    (.ok (opened cacheDir version).store, (opened cacheDir version).files) :=
  openAt_of_vacant vacant_cacheDir _ _

/-- A cache directory whose way leads through another. -/
def detour : Path := .ofString "/proj/../cache"

theorem vacant_detour : (Layout.mk detour).Vacant tree := by decide +kernel

end Sample

end BuildCache
