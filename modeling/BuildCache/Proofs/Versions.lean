import BuildCache.Proofs.Consistency
import BuildCache.Proofs.Serving
import BuildCache.Proofs.Workspace.Touching

/-!
# Versions of a cache

The marker is all that keeps versions apart. While one can be read whenever a session of another
version opens the cache, what is known in a session goes back to a moment at which the directory was
empty, and only sessions of its version worked on the cache since.
-/

namespace BuildCache

open FileTree Workspace

/-- A step of a run whose sessions are told apart: where a session of another version opens the
cache, the marker can be read or no file of the cache is there. Anything may fail. -/
def Operation.Telling (w : Workspace) : Operation → Prop
  | .reopen version _ => trimBlanks version = version ∧
    (version = w.store.version ∨
      (∃ x, w.files.readText? (Slot.marker.path w.store.layout) = some x) ∨
      ∀ s : Slot, w.files.contentAt (s.location w.store.layout) = none)
  | .edit files => w.store.layout.Outside w.files files
  | _ => True

/-- An open that fails found the marker of another version and did not come to the end of clearing
the cache. -/
theorem Store.openAt_error {t t' : FileTree} {dir : Path} {version : String} {debug : Bool}
    {e : StoreError} (h : Store.openAt t dir version debug = (.error e, t')) :
    ∃ x, t.readText? (Slot.marker.path ⟨dir⟩) = some x ∧
      (Layout.mk dir).clear t = (.error e, t') := by
  rw [openAt, Slot.path_marker] at h
  simp only at h
  split at h
  · cases h
  · next x hx =>
    split at h
    · cases h
    · split at h
      · cases h
      · next hclear =>
        cases h
        exact ⟨x, hx, hclear⟩

namespace Workspace

/-- A session goes on. Whatever becomes of the files of its cache, a marker that can be read was
there before or says the version of the session. -/
structure Advances (w w' : Workspace) : Prop extends SameSetup w w' where
  changes : w.store.layout.Changes (fun _ => True) w.files w'.files
  marker : w.store.layout.Settled w.files → ∀ x,
    w'.files.readText? (Slot.marker.path w.store.layout) = some x →
      w.files.readText? (Slot.marker.path w.store.layout) = some x ∨ x = w.store.version

variable {w w' w'' : Workspace} {version : String} {debug : Bool}

theorem Advances.trans (h : Advances w w') (h' : Advances w' w'') : Advances w w'' where
  toSameSetup := h.toSameSetup.trans h'.toSameSetup
  changes := h.changes.trans (h.layout ▸ h'.changes)
  marker hsettled x hx := by
    have hsettled' : w'.store.layout.Settled w'.files := h.layout ▸ h.changes.settled hsettled
    rcases h'.marker hsettled' x (h.layout ▸ hx) with hx' | hversion
    · exact h.marker hsettled x (h.layout ▸ hx')
    · exact .inr (hversion.trans h.version)

theorem SameSetup.advances (h : SameSetup w w') {touched : Slot → Prop}
    (hchanges : w.store.layout.Changes touched w.files w'.files) (hmarker : ¬touched .marker) :
    Advances w w' where
  toSameSetup := h
  changes := hchanges.mono fun _ _ => trivial
  marker hsettled x hx := .inl (by rwa [hchanges.readText? hsettled hmarker] at hx)

theorem Sheds.advances (h : Sheds w w') : Advances w w' :=
  h.toSameSetup.advances h.changes (by simp)

theorem Inward.advances (h : Inward w w') : Advances w w' := h.sheds.advances

theorem Builds.advances {built : CacheId → Prop} (h : Builds built w w') : Advances w w' := by
  have hsetup : SameSetup w w' := by constructor <;> rw [h.store]
  refine hsetup.advances h.changes ?_
  rintro ⟨id, -, part, -, heq⟩
  cases heq

theorem Collects.advances (h : Collects w w') : Advances w w' :=
  h.setup.advances h.changes (by simp)

theorem advances_save (w : Workspace) : Advances w (save w).2 where
  toSameSetup := (touches_save w).toSameSetup
  changes := (touches_save w).changes.mono fun _ _ => trivial
  marker hsettled x hx := by
    rcases (touches_save w).marker hsettled with ⟨-, hkept⟩ | ⟨-, hwritten⟩
    · exact .inl (hkept ▸ hx)
    · rw [hwritten, Option.some.injEq] at hx
      exact .inr hx.symm

theorem advances_commit (s : Session) (file : Path) (specifiers : List String)
    (artifact : Artifact) : Advances w (s.commit file specifiers artifact w).2 := by
  have hassigned := (inward_assignId file w).advances
  have hresult := s.commitResult file specifiers artifact w
  generalize s.commit file specifiers artifact w = result at hresult ⊢
  cases hresult with
  | rejected e => exact (Inward.refl w).advances
  | unwritten e id w' hbuilds => exact hassigned.trans hbuilds.advances
  | done stamp id w' hstamp hbuilds hartifact hid =>
    have hput := (inward_ids w').trans (inward_replaceRecord file id
      (s.recordFor w.files stamp (s.config.resolver.imports w.files file specifiers)) _)
    exact (hassigned.trans hbuilds.advances).trans hput.advances

theorem advances_sweep (w : Workspace) : Advances w (sweep w).2 := by
  have hsaved := (evictionClosed_sheds.swept w).advances.trans (advances_save (swept w).2)
  rw [snd_sweep]
  exact hsaved

/-- Where the cache cannot be cleared, some of its files are gone, and the marker goes first. -/
theorem advances_reopen (hfailed : (reopen version debug w).1.isOk = false) :
    Advances w (reopen version debug w).2 := by
  rw [reopen] at hfailed ⊢
  cases hopen : Store.openAt w.files w.store.layout.dir version debug with
  | mk r t =>
    rw [hopen] at hfailed
    cases r with
    | ok s => cases hfailed
    | error e =>
      obtain ⟨x, hx, hclear⟩ := Store.openAt_error hopen
      obtain ⟨hshrinks, hsettled'⟩ :=
        Layout.shrinks_of_clear (Slot.open_of_readText? hx) hclear
      refine ⟨⟨rfl, rfl, rfl⟩, ⟨fun s hs => absurd trivial hs, fun _ => hsettled', hshrinks.housed⟩,
        fun hsettled x' hx' => ?_⟩
      have hx' : t.readText? (Slot.marker.path w.store.layout) = some x' := hx'
      rcases hshrinks.contentAt (Slot.marker.location w.store.layout) with hkept | hgone
      · rw [Slot.readText?_path_congr hsettled hsettled' hkept] at hx'
        exact .inl hx'
      · rw [Slot.readText?_path_eq_none hgone] at hx'
        contradiction

theorem advances_run (hg : w.Grounded) {op : Operation} (htelling : op.Telling w) :
    Advances w (op.run w).2 ∨
      ∃ version debug, op = .reopen version debug ∧ (reopen version debug w).1.isOk = true := by
  cases op with
  | commit s file specifiers artifact =>
    exact .inl (advances_commit s file specifiers artifact)
  | commitRecord file record => exact .inl (inward_commitRecord file record w).advances
  | assignId file => exact .inl (inward_assignId file w).advances
  | setDependencies file dependencies =>
    exact .inl (inward_setDependencies file dependencies w).advances
  | evict file => exact .inl (sheds_evict file w).advances
  | evictDependents dependency =>
    exact .inl (evictionClosed_sheds.evictDependents dependency w).advances
  | sweep =>
    rw [Operation.snd_run_sweep]
    exact .inl (advances_sweep w)
  | collectGarbage => exact .inl (collects_collectGarbage hg.housed).advances
  | save => exact .inl (advances_save w)
  | check s file => exact .inl (inward_check s.fingerprint file w).1.advances
  | reopen version debug =>
    cases hok : (reopen version debug w).1.isOk with
    | true => exact .inr ⟨version, debug, rfl, hok⟩
    | false => exact .inl (advances_reopen hok)
  | edit files => exact .inl (builds_edit htelling).advances

/-- A marker that can be read says the version in use. -/
structure Faithful (w : Workspace) : Prop where
  grounded : w.Grounded
  trimmed : trimBlanks w.store.version = w.store.version
  marker : ∀ x, w.files.readText? (Slot.marker.path w.store.layout) = some x →
    trimBlanks x = w.store.version

theorem Faithful.advances (h : Faithful w) (hw : Advances w w') : Faithful w' where
  grounded := h.grounded.of_changes hw.layout hw.changes
  trimmed := by rw [hw.version, h.trimmed]
  marker x hx := by
    rw [hw.layout] at hx
    rw [hw.version]
    rcases hw.marker h.grounded.settled x hx with hx | rfl
    · exact h.marker x hx
    · exact h.trimmed

theorem Faithful.run (h : Faithful w) {op : Operation} (htelling : op.Telling w) :
    Faithful (op.run w).2 := by
  rcases advances_run h.grounded htelling with hw | ⟨version, debug, rfl, hok⟩
  · exact h.advances hw
  · have hw := reopens_reopen h.grounded hok
    refine ⟨hw.grounded, ?_, fun x hx => ?_⟩
    · exact hw.version.symm ▸ htelling.1
    · rw [Operation.run, hw.layout] at hx
      exact (hw.marked x hx).trans hw.version.symm

/-- A session that has just opened an empty cache. -/
structure Begins (layout : Layout) (version : String) (w : Workspace) : Prop where
  fresh : ∃ debug unmarked, w.store = .fresh layout version debug unmarked
  empty : ∀ s : Slot, w.files.contentAt (s.location layout) = none

/-- Nothing is known at first, and nothing is served. -/
theorem Begins.blank {layout : Layout} (h : Begins layout version w) :
    w.current = .empty ∧ ∀ id, w.store.artifacts.read? w.files id = none := by
  obtain ⟨t, s⟩ := w
  obtain ⟨⟨debug, unmarked, rfl⟩, hempty⟩ := h
  have hread (id : CacheId) (part : Part) : t.readText? ((Slot.entry id part).path layout) = none :=
    Slot.readText?_path_eq_none (hempty _)
  refine ⟨(current_fresh t).trans (saved_of_contentAt hempty), fun id => ?_⟩
  show ArtifactStore.read? ⟨layout.files, debug⟩ t id = none
  simp [Slot.read?_artifact, hread]

theorem Faithful.begins (h : Faithful w) (hok : (reopen version debug w).1.isOk = true)
    (htelling : Operation.Telling w (.reopen version debug)) (hother : version ≠ w.store.version) :
    Begins w.store.layout version (reopen version debug w).2 := by
  rw [reopen] at hok ⊢
  cases hopen : Store.openAt w.files w.store.layout.dir version debug with
  | mk r t =>
    rw [hopen] at hok
    cases r with
    | error e => cases hok
    | ok s =>
      obtain ⟨unmarked, rfl, hfiles⟩ := Store.openAt_cases hopen
      refine ⟨⟨debug, unmarked, rfl⟩, fun s => ?_⟩
      rcases hfiles with ⟨rfl, hmarked⟩ | ⟨x, hx, -, hclear⟩
      · rcases htelling.2 with heq | ⟨x, hx⟩ | hempty
        · exact absurd heq hother
        · exact absurd ((hmarked x hx).symm.trans (h.marker x hx)) hother
        · exact hempty s
      · exact (Layout.contentAt_of_clear (Slot.open_of_readText? hx) hclear).1 s

/-- All steps of a run belong to sessions of one version. -/
def Stays (version : String) (w : Workspace) (ops : List Operation) : Prop :=
  w.Permits (fun w op => (op.run w).2.store.version = version) ops

/-- All that is known after a run goes back to a session that began with an empty cache, and since
then all sessions were of the version of the last one. -/
def Isolated (layout : Layout) (w : Workspace) (ops : List Operation) : Prop :=
  ∃ before later, ops = before ++ later ∧
    Begins layout (w.after ops).store.version (w.after before) ∧
    (w.after before).Stays (w.after ops).store.version later

theorem Isolated.cons {layout : Layout} {op : Operation} {ops : List Operation}
    (h : Isolated layout (op.run w).2 ops) : Isolated layout w (op :: ops) := by
  obtain ⟨before, later, rfl, hbegins, hstays⟩ := h
  exact ⟨op :: before, later, rfl, hbegins, hstays⟩

/-- A run keeps to its version unless a session of another one begins with an empty cache. -/
theorem Faithful.stays_or_isolated (h : Faithful w) {ops : List Operation}
    (hops : w.Permits (fun w op => op.Telling w) ops) :
    ((w.after ops).store.version = w.store.version ∧ w.Stays w.store.version ops) ∨
      Isolated w.store.layout w ops := by
  induction ops generalizing w with
  | nil => exact .inl ⟨rfl, trivial⟩
  | cons op ops ih =>
    obtain ⟨htelling, hops⟩ := hops
    have hnext := h.run htelling
    rcases advances_run h.grounded htelling with hw | ⟨version, debug, rfl, hok⟩
    · rcases ih hnext hops with ⟨hversion, hstays⟩ | hisolated
      · rw [hw.version] at hversion hstays
        exact .inl ⟨hversion, hw.version, hstays⟩
      · exact .inr (hw.layout ▸ hisolated).cons
    · have hw := reopens_reopen h.grounded hok
      have hlayout : (Operation.run (.reopen version debug) w).2.store.layout = w.store.layout :=
        hw.layout
      have hversion : (Operation.run (.reopen version debug) w).2.store.version = version :=
        hw.version
      rcases ih hnext hops with ⟨hlast, hstays⟩ | hisolated
      · rw [hversion] at hlast hstays
        by_cases hsame : version = w.store.version
        · subst hsame
          exact .inl ⟨hlast, hversion, hstays⟩
        · have hbegins := h.begins hok htelling hsame
          refine .inr ⟨[.reopen version debug], ops, rfl, ?_, ?_⟩
          · exact hlast.symm ▸ hbegins
          · exact hlast.symm ▸ hstays
      · exact .inr (hlayout ▸ hisolated).cons

end Workspace

/-- Sessions of one version know nothing of those of others if whoever opens the cache in another
version finds a marker to read, or nothing. -/
theorem isolated_after {dir : Path} {version : String} {debug : Bool} {t : FileTree}
    (hvacant : (Layout.mk dir).Vacant t) (htrim : trimBlanks version = version) {w : Workspace}
    (hopen : Store.openAt t dir version debug = (.ok w.store, w.files)) {ops : List Operation}
    (hops : w.Permits (fun w op => op.Telling w) ops) : Isolated ⟨dir⟩ w ops := by
  obtain ⟨files, store⟩ := w
  rw [openAt_of_vacant hvacant, Prod.mk.injEq, Except.ok.injEq] at hopen
  obtain ⟨rfl, rfl⟩ : Store.fresh ⟨dir⟩ version debug true = store ∧ t = files := hopen
  have hfaithful : Faithful ⟨t, .fresh ⟨dir⟩ version debug true⟩ := by
    refine ⟨⟨hvacant.settled, hvacant.housed⟩, htrim, fun x hx => ?_⟩
    have hx : t.readText? (Slot.marker.path ⟨dir⟩) = some x := hx
    rw [Slot.readText?_path_eq_none (hvacant.contentAt_eq_none .marker)] at hx
    contradiction
  rcases hfaithful.stays_or_isolated hops with ⟨hversion, hstays⟩ | hisolated
  · refine ⟨[], ops, rfl, ?_, ?_⟩
    · rw [hversion]
      exact ⟨⟨debug, true, rfl⟩, hvacant.contentAt_eq_none⟩
    · rw [hversion]
      exact hstays
  · exact hisolated

/-- Where no marker can be read, a session of any version takes over what lies there. -/
theorem reopen_of_unmarked {w : Workspace}
    (hunmarked : w.files.readText? (Slot.marker.path w.store.layout) = none) (version : String)
    (debug : Bool) :
    (reopen version debug w).1 = .ok () ∧ (reopen version debug w).2.current = w.saved := by
  have hmarked (x : String) (hx : w.files.readText? (Slot.marker.path w.store.layout) = some x) :
      trimBlanks x = version := by
    rw [hunmarked] at hx
    contradiction
  obtain ⟨unmarked, hopen⟩ := Store.openAt_of_marked debug hmarked
  rw [reopen, hopen]
  exact ⟨rfl, current_fresh _⟩

namespace Sample

/-- A session of the first version, which drops its second commit. -/
def preceding : List Operation := Sample.saved ++ [compiled "second"]

/-- A session of the second version finds the marker of the first. -/
def succeeded : List Operation := preceding ++ [.reopen "2" false, .assignId importer]

/-- The session before never saved. -/
def unsaved : List Operation := [compiled "first", .reopen "2" false, .assignId importer]

/-- A save fails after the marker, and the cache cannot be cleared, but for the marker. -/
def uncleared : List Operation :=
  [.commitRecord importer record, .save, .reopen "2" false, .reopen "2" false]

end Sample

open Sample

theorem isolated_after_succeeded : Isolated ⟨cacheDir⟩ (opened cacheDir "1") succeeded := by
  have hfacts : ((opened cacheDir "1").after preceding).files.readText?
        (Slot.marker.path ((opened cacheDir "1").after preceding).store.layout) = some "1" ∧
      trimBlanks "2" = "2" ∧ trimBlanks "1" = "1" := by
    decide +kernel
  obtain ⟨hmarker, htrim', htrim⟩ := hfacts
  have hreopen : Operation.Telling ((opened cacheDir "1").after preceding) (.reopen "2" false) :=
    ⟨htrim', .inr (.inl ⟨"1", hmarker⟩)⟩
  exact isolated_after vacant_cacheDir htrim (openAt_cacheDir _)
    ⟨trivial, trivial, trivial, hreopen, trivial, trivial⟩

/-- What a session of the first version wrote is served and listed in the second one. -/
theorem known_to_both_of_unsaved_and_uncleared :
    ((Layout.mk cacheDir).Vacant tree ∧
      Store.openAt tree cacheDir "1" false = (.ok (opened cacheDir "1").store, tree) ∧
      ((opened cacheDir "1").after unsaved).store.version = "2" ∧
      (artifactOf importer ((opened cacheDir "1").after unsaved)).1 = some { code := "first" }) ∧
    ((Layout.mk blocked).Vacant tree ∧
      Store.openAt tree blocked "1" false = (.ok (opened blocked "1").store, tree) ∧
      ((opened blocked "1").after uncleared).store.version = "2" ∧
      (dependentsOf dependency ((opened blocked "1").after uncleared)).1.toList = [importer]) := by
  have hblocked : (Layout.mk blocked).Vacant tree := by decide +kernel
  refine ⟨⟨vacant_cacheDir, openAt_cacheDir _, ?_⟩, ⟨hblocked, openAt_of_vacant hblocked _ _, ?_⟩⟩
  all_goals decide +kernel

end BuildCache
