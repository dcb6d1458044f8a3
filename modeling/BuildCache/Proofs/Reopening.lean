import BuildCache.Proofs.Consistency
import BuildCache.Proofs.Standing
import BuildCache.Proofs.Workspace.Tidy
import BuildCache.Proofs.Workspace.Twins

/-!
# Saving and opening anew

Once a cache was saved, it makes no difference whether one goes on with it or opens it anew: every
question and every step is answered the same from then on, and as much waits for the next save.
-/

namespace BuildCache

open FileTree Workspace

/-- What a cache answers. -/
inductive Answer where
  | done
  | tracked (is : Bool)
  | id (id : CacheId)
  | id? (id? : Option CacheId)
  | ids (ids : List CacheId)
  | record? (record? : Option CacheRecord)
  | artifact? (artifact? : Option Artifact)
  | paths (paths : List Path)
  | freshness (freshness : Freshness)
  | outcome (outcome : CommitOutcome)
  | report (report : SweepReport)
  | count (n : Nat)
deriving DecidableEq

/-- A question that changes nothing of what a cache knows. -/
inductive Query where
  | tracked
  | isTracked (file : Path)
  | idOf (file : Path)
  | liveIds
  | recordOf (file : Path)
  | artifactOf (file : Path)
  | dependentsOf (dependency : Path)
  | dependencies
  | staleFiles (s : Session) (files : List Path)

def Query.ask : Query → StateM Workspace Answer
  | .tracked => return .paths (← Workspace.tracked)
  | .isTracked file => return .tracked (← Workspace.isTracked file)
  | .idOf file => return .id? (← Workspace.idOf file)
  | .liveIds => return .ids (← Workspace.liveIds)
  | .recordOf file => return .record? (← Workspace.recordOf file)
  | .artifactOf file => return .artifact? (← Workspace.artifactOf file)
  | .dependentsOf dependency => return .paths (← Workspace.dependentsOf dependency).toList
  | .dependencies => return .paths (← Workspace.dependencies)
  | .staleFiles s files => return .paths (← s.staleFiles files)

/-- A step of a run with its answer. -/
def Operation.answer : Operation → Action Answer
  | .commit s file specifiers artifact => return .outcome (← s.commit file specifiers artifact)
  | .commitRecord file record => return .id (← Workspace.commitRecord file record)
  | .assignId file => return .id (← Workspace.assignId file)
  | .setDependencies file dependencies => do
    Workspace.setDependencies file dependencies
    return .done
  | .evict file => return .tracked (← Workspace.evict file)
  | .evictDependents dependency => return .paths (← Workspace.evictDependents dependency)
  | .sweep => return .report (← Workspace.sweep)
  | .collectGarbage => return .count (← Workspace.collectGarbage)
  | .save => do
    Workspace.save
    return .done
  | .check s file => return .freshness (← s.check file)
  | .reopen version debug => do
    Workspace.reopen version debug
    return .done
  | .edit files => do
    modify fun w => { w with files }
    return .done

inductive Request where
  | ask (query : Query)
  | perform (op : Operation)

def Request.answer : Request → Action Answer
  | .ask query => query.ask
  | .perform op => op.answer

/-- What shows of the changes that wait: whether any do, whether those of either table do, and how
many records. -/
structure Flags where
  dirty : Bool
  ids : Bool
  dependents : Bool
  records : Nat
deriving DecidableEq

namespace Workspace

def flags (w : Workspace) : Flags :=
  ⟨w.store.isDirty, w.store.ids.dirty, w.store.dependents.dirty, w.store.records.unsaved.size⟩

/-- All that a run of requests is answered, with the flags after each. -/
def transcript (w : Workspace) : List Request → List (Except StoreError Answer × Flags)
  | [] => []
  | request :: requests =>
    let (answer, w') := request.answer w
    (answer, w'.flags) :: w'.transcript requests

end Workspace

/-- A request that opens the cache opens it with success, and edits stay outside of its
directory. -/
def Request.Usual (w : Workspace) : Request → Prop
  | .ask _ => True
  | .perform op => op.Usual (fun _ => True) w

instance (w : Workspace) : (request : Request) → Decidable (request.Usual w)
  | .ask _ => .isTrue trivial
  | .perform op => inferInstanceAs (Decidable (op.Usual _ w))

namespace Workspace

def Hears (w : Workspace) : List Request → Prop
  | [] => True
  | request :: requests => request.Usual w ∧ (request.answer w).2.Hears requests

instance decidableHears (w : Workspace) : (requests : List Request) → Decidable (w.Hears requests)
  | [] => .isTrue trivial
  | request :: requests =>
    have := decidableHears (request.answer w).2 requests
    inferInstanceAs (Decidable (_ ∧ _))

variable {w w' : Workspace}

theorem answering_apply {α : Type} (x : Action α) (answer : α → Answer) (w : Workspace) :
    (do return answer (← x) : Action Answer) w = ((x w).1.map answer, (x w).2) := by
  rw [bind_apply]
  cases x w with
  | mk r w' => cases r <;> rfl

theorem snd_answer (op : Operation) (w : Workspace) : (op.answer w).2 = (op.run w).2 := by
  have hmap {α : Type} (x : Action α) (answer : α → Answer) :
      ((do return answer (← x) : Action Answer) w).2 = (x w).2 := by rw [answering_apply]
  cases op with
  | commit s file specifiers artifact => exact hmap (s.commit file specifiers artifact) .outcome
  | commitRecord file record => exact hmap (Workspace.commitRecord file record) .id
  | assignId file => exact hmap (Workspace.assignId file) .id
  | setDependencies file dependencies =>
    exact hmap (Workspace.setDependencies file dependencies) fun _ => .done
  | sweep => exact hmap Workspace.sweep .report
  | collectGarbage => exact hmap Workspace.collectGarbage .count
  | save => exact hmap Workspace.save fun _ => .done
  | reopen version debug => exact hmap (Workspace.reopen version debug) fun _ => .done
  | evict | evictDependents | check | edit => rfl

theorem Tidy.run {S : Path → Prop} (h : Tidy w) {op : Operation} (husual : op.Usual S w) :
    Tidy (op.run w).2 := by
  cases op with
  | commit s file specifiers artifact => exact h.commit s file specifiers artifact
  | commitRecord file record => exact h.commitRecord file record
  | assignId file => exact h.assignId file
  | setDependencies file dependencies => exact h.setDependencies file dependencies
  | evict file => exact h.evict file
  | evictDependents dependency => exact evictionClosed_tidy.evictDependents dependency w h
  | sweep =>
    rw [Operation.snd_run_sweep]
    exact h.sweep
  | collectGarbage => exact h.collects (collects_collectGarbage h.grounded.housed)
  | save => exact h.save
  | check s file => exact h.check s.fingerprint file
  | reopen version debug => exact h.reopen husual
  | edit files => exact h.builds (builds_edit husual)

theorem Tidy.dependents (h : Tidy w) : Tidy (dependents w).2 :=
  h.recalls (inward_dependents w) (recalls_dependents w)

theorem Tidy.staleFiles (h : Tidy w) (fingerprint : Fingerprint) (files : List Path) :
    Tidy (staleFiles fingerprint files w).2 := by
  induction files generalizing w with
  | nil => exact h
  | cons file rest ih => exact ih (h.check fingerprint file)

theorem Tidy.recordOf (h : Tidy w) (file : Path) : Tidy (recordOf file w).2 := by
  rw [recordOf_eq]
  cases hid : w.current.ids.get? file with
  | some id => exact h.ids.record? ⟨file, hid⟩
  | none => exact h.ids

theorem Tidy.artifactOf (h : Tidy w) (file : Path) : Tidy (artifactOf file w).2 := by
  rw [artifactOf_eq]
  cases w.current.ids.get? file <;> exact h.ids

theorem Tidy.ask (h : Tidy w) (query : Query) : Tidy (query.ask w).2 := by
  cases query with
  | tracked | isTracked | idOf | liveIds => exact h.ids
  | recordOf file => exact h.recordOf file
  | artifactOf file => exact h.artifactOf file
  | dependentsOf | dependencies => exact h.dependents
  | staleFiles s files => exact h.staleFiles s.fingerprint files

theorem Tidy.answer (h : Tidy w) {request : Request} (husual : request.Usual w) :
    Tidy (request.answer w).2 := by
  cases request with
  | ask query => exact h.ask query
  | perform op =>
    show Tidy (op.answer w).2
    rw [snd_answer]
    exact h.run husual

theorem Steps.ask {R : Workspace → Workspace → Prop} (h : Steps R) (hw : R w w') {query : Query}
    (hstale : ∀ s files, query = .staleFiles s files →
      Alike R (s.staleFiles files w) (s.staleFiles files w')) :
    Alike R (query.ask w) (query.ask w') := by
  cases query with
  | tracked => exact h.tracked.bind (fun _ => .pure _) hw
  | isTracked file => exact (h.isTracked file).bind (fun _ => .pure _) hw
  | idOf file => exact (h.idOf file).bind (fun _ => .pure _) hw
  | liveIds => exact h.liveIds.bind (fun _ => .pure _) hw
  | recordOf file => exact (h.recordOf file).bind (fun _ => .pure _) hw
  | artifactOf file => exact (h.artifactOf file).bind (fun _ => .pure _) hw
  | dependentsOf dependency =>
    exact (h.evictions.dependentsOf dependency).bind (fun _ => .pure _) hw
  | dependencies => exact h.dependencies.bind (fun _ => .pure _) hw
  | staleFiles s files =>
    obtain ⟨hanswer, hrelated⟩ := hstale s files rfl
    exact ⟨congrArg Answer.paths hanswer, hrelated⟩

theorem Twin.flags (h : Twin w w') : w'.flags = w.flags := by
  simp only [Workspace.flags, Store.isDirty, h.store.unmarked, h.store.ids.dirty,
    h.store.dependents.dirty, h.store.unsaved]

theorem Twin.usual (h : Twin w w') {request : Request} (husual : request.Usual w) :
    request.Usual w' := by
  cases request with
  | ask query => trivial
  | perform op =>
    cases op with
    | reopen version debug =>
      have hok : (Workspace.reopen version debug w).1.isOk = true := husual
      show (Workspace.reopen version debug w').1.isOk = true
      rw [Workspace.reopen] at hok ⊢
      rw [h.files, h.store.layout]
      cases hopen : Store.openAt w.files w.store.layout.dir version debug with
      | mk r t =>
        rw [hopen] at hok
        cases r with
        | ok s => rfl
        | error e => cases hok
    | edit files =>
      have hout : w.store.layout.Outside w.files files := husual
      show w'.store.layout.Outside w'.files files
      rwa [h.store.layout, h.files]
    | _ => exact husual

/-- Both keep memory true to the disk, so that they lose the same files. -/
theorem Twin.collectGarbage (h : Twin w w') (htidy : Tidy w) (htidy' : Tidy w') :
    Alike Twin (Workspace.collectGarbage w) (Workspace.collectGarbage w') := by
  have hcollected := htidy.collects (collects_collectGarbage htidy.grounded.housed)
  have hcollected' := htidy'.collects (collects_collectGarbage htidy'.grounded.housed)
  have heq (w : Workspace) : Workspace.collectGarbage w =
      ((w.store.artifacts.collect w.files (liveIds w).1).1,
        { files := (w.store.artifacts.collect w.files (liveIds w).1).2
          store := (Workspace.ids w).2.store }) := rfl
  have hcollect : w'.store.artifacts.collect w'.files (liveIds w').1 =
      w.store.artifacts.collect w.files (liveIds w).1 := by
    rw [h.store.artifacts, h.files, (steps_twin.liveIds h).answer]
  have hsettled := hcollected.grounded.settled
  have hlinked := hcollected.linked
  have hlinked' := hcollected'.linked
  rw [heq] at hsettled hlinked hlinked' ⊢
  rw [heq]
  exact ⟨congrArg (·.1) hcollect, congrArg (·.2) hcollect, (steps_twin.ids h).related.store,
    hsettled, hlinked, hlinked'⟩

theorem Twin.reopen (h : Twin w w') (htidy : Tidy w) {version : String} {debug : Bool}
    (hok : (Workspace.reopen version debug w).1.isOk = true) :
    Alike Twin (Workspace.reopen version debug w) (Workspace.reopen version debug w') := by
  have htidy := htidy.reopen hok
  have hsame : Workspace.reopen version debug w' = Workspace.reopen version debug w := by
    rw [Workspace.reopen] at hok ⊢
    rw [Workspace.reopen, h.files, h.store.layout]
    cases hopen : Store.openAt w.files w.store.layout.dir version debug with
    | mk r t =>
      rw [hopen] at hok
      cases r with
      | ok s => rfl
      | error e => cases hok
  rw [hsame]
  exact ⟨rfl, .refl htidy.grounded.settled htidy.linked⟩

theorem Twin.commit (h : Twin w w') (s : Session) (file : Path) (specifiers : List String)
    (artifact : Artifact) :
    Alike Twin (s.commit file specifiers artifact w) (s.commit file specifiers artifact w') :=
  steps_twin.commit h s file specifiers artifact (by rw [h.files]) (by rw [h.files])
    fun _ _ => by rw [h.files]

theorem respects_check_twin (fingerprint : Fingerprint) (file : Path) :
    Respects Twin (check fingerprint file) :=
  respects_check (steps_twin.recordOf file) fun _ _ _ _ _ => reads_twin _

theorem respects_sweep_twin : Respects Twin sweep :=
  respects_sweep steps_twin.ids
    (steps_twin.evictions.sweepPasses fun _ _ _ _ _ => reads_twin _) steps_twin.save

theorem Twin.answer (h : Twin w w') (htidy : Tidy w) (htidy' : Tidy w') {request : Request}
    (husual : request.Usual w) : Alike Twin (request.answer w) (request.answer w') := by
  cases request with
  | ask query =>
    have hasked : Alike Twin (query.ask w) (query.ask w') := steps_twin.ask h fun s files _ =>
      respects_staleFiles s.fingerprint (fun file _ => respects_check_twin s.fingerprint file) h
    exact ⟨congrArg Except.ok hasked.answer, hasked.related⟩
  | perform op =>
    cases op with
    | commit s file specifiers artifact =>
      exact (h.commit s file specifiers artifact).answering Answer.outcome
    | commitRecord file record => exact (steps_twin.commitRecord file record h).answering Answer.id
    | assignId file => exact (steps_twin.assignId file h).answering Answer.id
    | setDependencies file dependencies =>
      exact (steps_twin.setDependencies file (reads_twin _) h).answering fun _ => Answer.done
    | evict file => exact (steps_twin.evict file).ok.andThen (fun _ => .done _) h
    | evictDependents dependency =>
      exact (steps_twin.evictions.evictDependents dependency).ok.andThen (fun _ => .done _) h
    | sweep => exact (respects_sweep_twin h).answering Answer.report
    | collectGarbage => exact (h.collectGarbage htidy htidy').answering Answer.count
    | save => exact (steps_twin.save h).answering fun _ => Answer.done
    | check s file => exact (respects_check_twin s.fingerprint file).ok.andThen (fun _ => .done _) h
    | reopen version debug => exact (h.reopen htidy husual).answering fun _ => Answer.done
    | edit files =>
      have hedited := htidy.builds (builds_edit husual)
      have hedited' := htidy'.builds (builds_edit (h.usual husual))
      exact ⟨rfl, rfl, h.store, hedited.grounded.settled, hedited.linked, hedited'.linked⟩

theorem transcript_cons (request : Request) (requests : List Request) (w : Workspace) :
    w.transcript (request :: requests) =
      ((request.answer w).1, (request.answer w).2.flags) ::
        (request.answer w).2.transcript requests := rfl

theorem Twin.transcript (h : Twin w w') (htidy : Tidy w) (htidy' : Tidy w')
    {requests : List Request} (hrequests : w.Hears requests) :
    w'.transcript requests = w.transcript requests := by
  induction requests generalizing w w' with
  | nil => rfl
  | cons request requests ih =>
    obtain ⟨husual, hrequests⟩ := hrequests
    obtain ⟨hanswer, htwin⟩ := h.answer htidy htidy' husual
    have hrest := ih htwin (htidy.answer husual) (htidy'.answer (h.usual husual)) hrequests
    rw [transcript_cons, transcript_cons, hanswer, htwin.flags, hrest]

/-- A cache where nothing waits is not to be told from the same cache opened anew. -/
theorem Tidy.twin_reopen (h : Tidy w) (hclean : w.store.isDirty = false)
    (htrim : trimBlanks w.store.version = w.store.version) :
    ∃ w', Workspace.reopen w.store.version w.store.debug w = (.ok (), w') ∧ Twin w w' ∧
      Tidy w' := by
  obtain ⟨hreopen, htidy, -⟩ := h.reopen_of_clean hclean htrim w.store.debug
  simp only [Store.isDirty, Bool.or_eq_false_iff, Bool.not_eq_false'] at hclean
  obtain ⟨⟨⟨hunmarked, hids⟩, hdependents⟩, hrecords⟩ := hclean
  have hunsaved : w.store.records.unsaved = .empty := by
    refine OrderedMap.ext_entries ?_
    rwa [OrderedMap.isEmpty, List.isEmpty_iff] at hrecords
  refine ⟨_, hreopen, ⟨rfl, ?_, h.grounded.settled, h.linked, htidy.linked⟩, htidy⟩
  exact ⟨rfl, rfl, rfl, hunmarked.symm, ⟨hids.symm, by simp [hids]⟩,
    ⟨hdependents.symm, by simp [hdependents]⟩, hunsaved.symm⟩

end Workspace

/-- After a save, whoever opens the cache anew and whoever goes on with it are told the same from
then on, whatever they ask and do and whatever is edited around the cache. What was in the cache
directory before, and what failed since, makes no difference. -/
theorem transcript_reopen {dir : Path} {version : String} {debug : Bool} {t : FileTree}
    (hsettled : (Layout.mk dir).Settled t) (hhoused : (Layout.mk dir).Housed t) {w₀ w : Workspace}
    (hopen : Store.openAt t dir version debug = (.ok w₀.store, w₀.files)) {before : List Operation}
    (hbefore : w₀.Permits (fun w op => op.Usual (fun _ => True) w) before)
    (hsave : save (w₀.after before) = (.ok (), w))
    (htrim : trimBlanks w.store.version = w.store.version) :
    ∃ w', reopen w.store.version w.store.debug w = (.ok (), w') ∧ w'.flags = w.flags ∧
      ∀ requests, w.Hears requests → w'.transcript requests = w.transcript requests := by
  have htidy : Tidy (w₀.after before) :=
    after_of_step (fun w op h hop => h.run hop) (tidy_of_openAt hsettled hhoused hopen) hbefore
  have hclean := isDirty_save htidy.linked.ids.loaded htidy.linked.dependents.loaded
    (by rw [hsave]; rfl)
  have hsaved := htidy.save
  rw [hsave] at hclean hsaved
  obtain ⟨w', hreopen, htwin, htidy'⟩ := hsaved.twin_reopen hclean htrim
  exact ⟨w', hreopen, htwin.flags, fun requests hrequests =>
    htwin.transcript hsaved htidy' hrequests⟩

namespace Sample

def imported : List Operation :=
  [.commitRecord importer record, .commitRecord other plainRecord, .evict other]

/-- A session that saves its cache. -/
def kept : Workspace := (save ((started cacheDir).after imported)).2

/-- A session that cannot see the cache that another one saved. -/
def blind : List Operation :=
  [.commitRecord importer record, .save, .edit closedWay, restart, .commitRecord other plainRecord]

def unseeing : Workspace := (save ((started detour).after blind)).2

end Sample

open Sample

theorem transcript_reopen_of_import :
    ∃ w', reopen kept.store.version kept.store.debug kept = (.ok (), w') ∧ w'.flags = kept.flags ∧
      ∀ requests, kept.Hears requests → w'.transcript requests = kept.transcript requests := by
  have hfacts : (save ((started cacheDir).after imported)).1.isOk = true ∧
      (started cacheDir).Permits (fun w op => op.Usual (fun _ => True) w) imported ∧
      trimBlanks kept.store.version = kept.store.version := by
    decide +kernel
  obtain ⟨hok, himported, htrim⟩ := hfacts
  have hsave : save ((started cacheDir).after imported) = (.ok (), kept) := by
    obtain ⟨u, hu⟩ := exists_ok_of_isOk hok
    exact Prod.ext hu rfl
  exact transcript_reopen vacant_cacheDir.settled vacant_cacheDir.housed (openAt_cacheDir _)
    himported hsave htrim

/-- Where the way to the cache directory was closed for a while, a save may bring to light what an
earlier session wrote, and only whoever opens the cache anew is told of it. -/
theorem transcript_reopen_ne_of_closed_way :
    (Layout.mk detour).Vacant tree ∧
      Store.openAt tree detour Session.defaultVersion false =
        (.ok (started detour).store, tree) ∧
      (started detour).Permits (fun w op => op.Orderly Named w) blind ∧
      (save ((started detour).after blind)).1.isOk = true ∧
      (reopen Session.defaultVersion false unseeing).1.isOk = true ∧
      ((Query.dependentsOf dependency).ask unseeing).1 = .paths [] ∧
      ((Query.dependentsOf dependency).ask
        (reopen Session.defaultVersion false unseeing).2).1 = .paths [importer] := by
  refine ⟨vacant_detour, openAt_of_vacant vacant_detour _ _, ?_⟩
  decide +kernel

end BuildCache
