import BuildCache.Proofs.Sessions
import BuildCache.Proofs.Workspace.Purging

/-!
# Corrupt records of ids in use

A collection takes the files of ids that are not in use, and counts them. So it tells a cache from
the one without its corrupt records, unless the ids of these are in use. They are for as long as the
records are there: an eviction that takes an id away removes its record.
-/

namespace BuildCache.Workspace

open FileTree

variable {w w' v v' : Workspace} {id : CacheId}

/-- The id is in use, in this session and for one that opens the cache anew. -/
structure Uses (w : Workspace) (id : CacheId) : Prop where
  linked : w.Linked fun _ => False
  live : w.Live id
  saved : ∃ f, w.saved.ids.get? f = some id

namespace Uses

theorem inward (h : w.Uses id) (hv : Inward w v) (hlive : v.Live id) : v.Uses id :=
  ⟨hv.linked _ h.linked, hlive, hv.saved ▸ h.saved⟩

theorem builds {built : CacheId → Prop} (h : w.Uses id)
    (hsettled : w.store.layout.Settled w.files) (hv : Builds built w v) : v.Uses id where
  linked := hv.linked hsettled h.linked
  live := by
    rw [Live, hv.current hsettled]
    exact h.live
  saved := by
    rw [hv.saved hsettled]
    exact h.saved

theorem evict (h : w.Uses id) {file : Path} (hother : w.current.ids.get? file ≠ some id) :
    (evict file w).2.Uses id where
  linked := (sheds_evict file w).linked _ h.linked
  live := by
    rw [Live, current_evict]
    exact Books.live_evict hother h.live
  saved := by
    rw [(sheds_evict file w).tables.1]
    exact h.saved

theorem save (h : w.Uses id) (hsettled : w.store.layout.Settled w.files) :
    (save w).2.Uses id := by
  have hsaves := saves_save hsettled h.linked
  refine ⟨hsaves.linked, ?_, ?_⟩
  · rw [Live, hsaves.current]
    exact h.live
  · rcases hsaves.ids with hids | hids <;> rw [hids]
    · exact h.saved
    · exact h.live

theorem collects (h : w.Uses id) (hsettled : w.store.layout.Settled w.files) (hv : Collects w v) :
    v.Uses id := by
  obtain ⟨⟨hsaved, -⟩, hcurrent, -⟩ := hv.tables hsettled
  refine ⟨hv.linked hsettled h.linked fun _ => False.elim, ?_, ?_⟩
  · rw [Live, hcurrent]
    exact h.live
  · rw [hsaved]
    exact h.saved

theorem fresh {layout : Layout} {version : String} {debug unmarked : Bool} {t : FileTree}
    (h : ∃ f, (t.tableAt layout.ids : IdTable).get? f = some id) :
    Uses ⟨t, .fresh layout version debug unmarked⟩ id :=
  ⟨linked_fresh t _, h, h⟩

end Uses

theorem Purged.evict {layout : Layout} {S : Slot → Prop} (h : Purged layout S w w') (file : Path) :
    Alike (Purged layout fun s => S s ∧ ∀ id, w.current.ids.get? file = some id →
      s ≠ .entry id .record) (Workspace.evict file w)
      (Workspace.evict file w') := by
  have huntracked : Purged layout S (untrack file w) (untrack file w') :=
    (Purged.respects_changeIds _ (Purged.respects_ids h).related).related
  cases hid : w.current.ids.get? file with
  | none =>
    rw [evict_of_untracked hid, evict_of_untracked (h.current ▸ hid)]
    exact ⟨rfl, huntracked.weaken fun s hs => ⟨hs, nofun⟩⟩
  | some id =>
    rw [evict_of_tracked hid, evict_of_tracked (h.current ▸ hid), h.current]
    have hremoved := (huntracked.removeRecord id).related
    have hunlisted : Purged layout (fun s => S s ∧ s ≠ .entry id .record)
        (unlist file (w.current.record id) (Workspace.removeRecord id (untrack file w)).2)
        (unlist file (w.current.record id) (Workspace.removeRecord id (untrack file w')).2) := by
      have hp : Primitives (Purged layout fun s => S s ∧ s ≠ .entry id .record) := Purged.primitives
      cases w.current.record id with
      | some r => exact (respects_moveFile hp.changeDependents file _ _ hremoved).related
      | none => exact (respects_forgetFile hp.dependents hp.changeDependents file hremoved).related
    refine ⟨rfl, (Purged.respects_removeArtifact id hunlisted).related.weaken fun s hs => ?_⟩
    refine ⟨hs.1, fun id' hid' => ?_⟩
    cases hid'
    exact hs.2

/-- The same store works on files that lack some corrupt ones of the cache, and the ids of records
among them are in use. -/
structure Trimmed (layout : Layout) (S : Slot → Prop) (w w' : Workspace) : Prop
    extends Purged layout S w w' where
  uses : ∀ id, Gone w.files w'.files ((Slot.entry id .record).location layout) → w.Uses id

namespace Trimmed

variable {layout : Layout} {S : Slot → Prop} {α : Type}

theorem weaken (h : Trimmed layout S w w') {S' : Slot → Prop}
    (hS : ∀ s, S s → Gone w.files w'.files (s.location layout) → S' s) : Trimmed layout S' w w' :=
  ⟨⟨h.store, h.layout_eq, h.files.restrict hS⟩, h.uses⟩

/-- What tells no workspaces apart, whatever files the second lacks, makes none of them lacking. So
what is lacking after a step was lacking before, and was not touched. -/
theorem step {x x' : α × Workspace} (h : Trimmed layout S w w') (kept : Slot → Prop)
    (hx : ∀ S, Purged layout S w w' → Alike (Purged layout fun s => S s ∧ kept s) x x')
    (huses : ∀ id, w.Uses id → w.store.layout.Settled w.files → kept (.entry id .record) →
      x.2.Uses id) : Alike (Trimmed layout S) x x' := by
  obtain ⟨hanswer, hrelated⟩ := hx _ (h.weaken fun s hs hgone =>
    show S s ∧ Gone w.files w'.files (s.location layout) from ⟨hs, hgone⟩).toPurged
  refine ⟨hanswer, hrelated.weaken fun s hs => hs.1.1, fun id hgone => ?_⟩
  obtain ⟨s, ⟨⟨-, hbefore⟩, hkept⟩, hs⟩ := hrelated.files.exists_slot hgone
  obtain rfl := Slot.location_injective hs
  have hsettled : w.store.layout.Settled w.files := by
    rw [h.layout_eq]
    exact .inl (h.files.spoiled _ hbefore).isOpen
  exact huses id (h.uses id hbefore) hsettled hkept

theorem respects_of_uses {x : Workspace → α × Workspace} (hx : ∀ S, Respects (Purged layout S) x)
    (huses : ∀ w id, w.Uses id → w.store.layout.Settled w.files → (x w).2.Uses id) :
    Respects (Trimmed layout S) x := fun w _ h =>
  h.step (fun _ => True)
    (fun S hS => ⟨(hx S hS).answer, (hx S hS).related.weaken fun _ hs => ⟨hs, trivial⟩⟩)
    fun id hid hsettled _ => huses w id hid hsettled

theorem respects_inward {x : Workspace → α × Workspace} (hx : ∀ S, Respects (Purged layout S) x)
    (hinward : ∀ w, Inward w (x w).2) (hlive : ∀ w id, w.Live id → (x w).2.Live id) :
    Respects (Trimmed layout S) x :=
  respects_of_uses hx fun w id h _ => h.inward (hinward w) (hlive w id h.live)

theorem respects_assignId (file : Path) : Respects (Trimmed layout S) (assignId file) := by
  refine respects_inward (fun S => Purged.primitives.assignId file) (inward_assignId file)
    fun w id hlive => ?_
  obtain ⟨f, hf⟩ := hlive
  rcases assignId_spec file w with ⟨e, -, hcurrent⟩ | ⟨id', -, hcurrent, -⟩ <;>
    rw [Live, hcurrent]
  · exact ⟨f, hf⟩
  · exact ⟨f, Books.get?_assign hf⟩

theorem respects_evict (file : Path) : Respects (Trimmed layout S) (evict file) := by
  intro w w' h
  refine h.step _ (fun S hS => hS.evict file) fun id hid _ hkept => hid.evict fun htracked => ?_
  exact hkept id htracked rfl

theorem steps : Steps (Trimmed layout S) where
  ids := respects_inward (fun _ => Purged.respects_ids) inward_ids fun _ _ hlive => hlive
  dependents :=
    respects_inward (fun _ => Purged.respects_dependents) inward_dependents fun _ _ hlive => hlive
  record? id := respects_inward (fun _ => Purged.respects_record? id) (inward_record? id)
    fun w id' hlive => by rwa [Live, current_record?]
  artifact? id :=
    respects_inward (fun _ => Purged.respects_artifact? id) .refl fun _ _ hlive => hlive
  changeDependents change := respects_inward (fun _ => Purged.respects_changeDependents change)
    (inward_changeDependents change) fun _ _ hlive => hlive
  putRecord id r := respects_inward (fun _ => Purged.respects_putRecord id r)
    (inward_putRecord id r) fun _ _ hlive => hlive
  writeArtifact id a := respects_of_uses (fun _ => Purged.respects_writeArtifact id a)
    fun w _ h hsettled => h.builds hsettled (builds_writeArtifact id a w)
  assignId := respects_assignId
  evict := respects_evict
  save := respects_of_uses (fun _ => Purged.respects_save) fun _ _ h hsettled => h.save hsettled

theorem collectGarbage (h : Trimmed layout S w w') :
    Alike (Trimmed layout S) (collectGarbage w) (collectGarbage w') := by
  have hhoused : w.store.layout.Housed w.files := h.layout_eq ▸ h.files.housed
  refine h.step (fun _ => True) (fun S hS => ?_) fun id hid hsettled _ =>
    hid.collects hsettled (collects_collectGarbage hhoused)
  have hids := Purged.respects_ids hS
  have hlive := (steps.liveIds h).answer
  obtain ⟨hstore, hlayout, hfiles⟩ := hS
  subst hlayout
  obtain ⟨r, t, t', hleft, hright, hcollected⟩ := (hfiles.collect w.store.debug fun id hgone =>
    mem_liveIds (h.uses id hgone).live).parts
  rw [collectGarbage_eq w hleft, collectGarbage_eq w' (by rw [hstore, hlive, hright])]
  refine ⟨rfl, hids.related.store, rfl, hcollected.restrict fun s hs _ => ⟨hs, trivial⟩⟩

end Trimmed

section Opening

variable {dir : Path} {S : Slot → Prop} {t t' : FileTree} {version : String} {debug : Bool}

/-- The marker is never lacking, so that both are opened as they are or both are cleared. -/
theorem fst_openAt_of_purged (h : (Layout.mk dir).Purged S t t') :
    (Store.openAt t' dir version debug).1 = (Store.openAt t dir version debug).1 := by
  rw [Store.openAt, Store.openAt, h.readText?_marker]
  split
  · rfl
  · split
    · rfl
    · obtain ⟨r, t₁, t₁', hleft, hright, -⟩ := h.mirrors_clear.parts
      rw [hleft, hright]
      cases r <;> rfl

theorem trimmed_of_openAt (h : (Layout.mk dir).Purged S t t')
    (htracked : ∀ id, Gone t t' ((Slot.entry id .record).location ⟨dir⟩) →
      ∃ f, (t.tableAt (Layout.mk dir).ids : IdTable).get? f = some id) {s : Store}
    {t₁ t₁' : FileTree} (hopen : Store.openAt t dir version debug = (.ok s, t₁))
    (hopen' : Store.openAt t' dir version debug = (.ok s, t₁')) :
    Trimmed ⟨dir⟩ S ⟨t₁, s⟩ ⟨t₁', s⟩ := by
  have hmarker := h.readText?_marker
  rw [Slot.path_marker] at hmarker
  obtain ⟨unmarked, rfl, hleft⟩ := Store.openAt_cases hopen
  obtain ⟨-, -, hright⟩ := Store.openAt_cases hopen'
  rw [hmarker] at hright
  rcases hleft with ⟨rfl, hsame⟩ | ⟨x, hx, hversion, hclear⟩
  · rcases hright with ⟨rfl, -⟩ | ⟨x, hx, hversion, -⟩
    · exact ⟨⟨rfl, rfl, h⟩, fun id hgone => .fresh (htracked id hgone)⟩
    · exact absurd (hsame x hx) hversion
  · rcases hright with ⟨-, hsame⟩ | ⟨-, -, -, hclear'⟩
    · exact absurd (hsame x hx) hversion
    · obtain ⟨hcleared, hthere⟩ := h.clear_ok (by rw [hclear])
      rw [hclear, hclear'] at hcleared hthere
      exact ⟨⟨rfl, rfl, hcleared⟩, fun id hgone => absurd hgone (hthere _)⟩

theorem Trimmed.reopen {layout : Layout} (h : Trimmed layout S w w')
    (hok : (reopen version debug w).1.isOk = true) :
    Alike (Trimmed layout S) (reopen version debug w) (reopen version debug w') := by
  obtain ⟨hstore, rfl, hfiles⟩ := h.toPurged
  have hfst : (Store.openAt w'.files w.store.layout.dir version debug).1 =
    (Store.openAt w.files w.store.layout.dir version debug).1 := fst_openAt_of_purged hfiles
  rw [Workspace.reopen] at hok ⊢
  rw [Workspace.reopen, hstore]
  cases hopen : Store.openAt w.files w.store.layout.dir version debug with
  | mk r t₁ => cases hopen' : Store.openAt w'.files w.store.layout.dir version debug with
    | mk r' t₁' =>
      rw [hopen, hopen'] at hfst
      obtain rfl : r' = r := hfst
      rw [hopen] at hok
      cases r' with
      | error e => cases hok
      | ok s =>
        exact ⟨rfl, trimmed_of_openAt hfiles (fun id hgone => (h.uses id hgone).saved) hopen hopen'⟩

/-- What keeps a cache from being opened anew does not depend on what is lacking. -/
theorem Trimmed.reopen_error {layout : Layout} (h : Trimmed layout S w w')
    (hfails : (Workspace.reopen version debug w).1.isOk = false) :
    ∃ e t₁ t₁', Workspace.reopen version debug w = (.error e, { w with files := t₁ }) ∧
      Workspace.reopen version debug w' = (.error e, { w' with files := t₁' }) := by
  obtain ⟨hstore, rfl, hfiles⟩ := h.toPurged
  have hfst : (Store.openAt w'.files w.store.layout.dir version debug).1 =
    (Store.openAt w.files w.store.layout.dir version debug).1 := fst_openAt_of_purged hfiles
  rw [Workspace.reopen] at hfails ⊢
  rw [Workspace.reopen, hstore]
  cases hopen : Store.openAt w.files w.store.layout.dir version debug with
  | mk r t₁ => cases hopen' : Store.openAt w'.files w.store.layout.dir version debug with
    | mk r' t₁' =>
      rw [hopen, hopen'] at hfst
      obtain rfl : r' = r := hfst
      rw [hopen] at hfails
      cases r' with
      | error e => exact ⟨e, t₁, t₁', rfl, by rw [← hstore]⟩
      | ok s => cases hfails

end Opening

end BuildCache.Workspace
