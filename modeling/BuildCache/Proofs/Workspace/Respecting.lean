import BuildCache.Proofs.Workspace.Current
import BuildCache.Session

/-!
# What no step tells apart

A relation between workspaces that none of the primitive steps tells apart is told apart by none of
the steps that are put together from them. A step that looks at files of its own tells as much as
these files do.
-/

namespace BuildCache

open FileTree

namespace Workspace

variable {R : Workspace → Workspace → Prop} {α β γ : Type}

/-- The same answer with related workspaces. -/
structure Alike (R : Workspace → Workspace → Prop) (x x' : α × Workspace) : Prop where
  answer : x'.1 = x.1
  related : R x.2 x'.2

/-- A step that answers the same from related workspaces, and leaves them related. -/
def Respects (R : Workspace → Workspace → Prop) (x : Workspace → α × Workspace) : Prop :=
  ∀ ⦃w w'⦄, R w w' → Alike R (x w) (x w')

/-- A view of the files that is the same from related workspaces. -/
def Reads (R : Workspace → Workspace → Prop) (g : FileTree → γ) : Prop :=
  ∀ ⦃w w'⦄, R w w' → g w'.files = g w.files

theorem Alike.answering {x : Action α} {w w' : Workspace} (h : Alike R (x w) (x w'))
    (answer : α → β) : Alike R ((do return answer (← x) : Action β) w)
      ((do return answer (← x) : Action β) w') := by
  obtain ⟨hanswer, hrelated⟩ := h
  rw [bind_apply, bind_apply]
  cases hw : x w with
  | mk r v => cases hw' : x w' with
    | mk r' v' =>
      rw [hw, hw'] at hanswer hrelated
      obtain rfl : r' = r := hanswer
      cases r' <;> exact ⟨rfl, hrelated⟩

namespace Respects

protected theorem pure (a : α) : Respects R (pure a : StateM Workspace α) := fun _ _ h => ⟨rfl, h⟩

theorem done (a : α) : Respects R (pure a : Action α) := fun _ _ h => ⟨rfl, h⟩

protected theorem throw (e : StoreError) : Respects R (throw e : Action α) := fun _ _ h => ⟨rfl, h⟩

/-- The second step may rely on what the first can answer. -/
theorem bindOf {P : α → Prop} {x : StateM Workspace α} {f : α → StateM Workspace β}
    (hx : Respects R x) (hP : ∀ ⦃w w'⦄, R w w' → P (x w).1) (hf : ∀ a, P a → Respects R (f a)) :
    Respects R (x >>= f) := by
  intro w w' h
  obtain ⟨hanswer, hrelated⟩ := hx h
  show Alike R (f (x w).1 (x w).2) (f (x w').1 (x w').2)
  rw [hanswer]
  exact hf _ (hP h) hrelated

theorem bind {x : StateM Workspace α} {f : α → StateM Workspace β} (hx : Respects R x)
    (hf : ∀ a, Respects R (f a)) : Respects R (x >>= f) :=
  hx.bindOf (P := fun _ => True) (fun _ _ _ => trivial) fun a _ => hf a

theorem ok {x : StateM Workspace α} (hx : Respects R x) : Respects R (x : Action α) :=
  fun _ _ h => ⟨congrArg Except.ok (hx h).answer, (hx h).related⟩

theorem lift {x : StateM Workspace α} {f : α → Action β} (hx : Respects R x)
    (hf : ∀ a, Respects R (f a)) : Respects R ((x : Action α) >>= f) := by
  intro w w' h
  obtain ⟨hanswer, hrelated⟩ := hx h
  rw [lift_bind_apply, lift_bind_apply, hanswer]
  exact hf _ hrelated

theorem andThen {x : Action α} {f : α → Action β} (hx : Respects R x)
    (hf : ∀ a, Respects R (f a)) : Respects R (x >>= f) := by
  intro w w' h
  obtain ⟨hanswer, hrelated⟩ := hx h
  rw [bind_apply, bind_apply]
  cases hw : x w with
  | mk r v => cases hw' : x w' with
    | mk r' v' =>
      rw [hw, hw'] at hanswer hrelated
      obtain rfl : r' = r := hanswer
      cases r' with
      | ok a => exact hf a hrelated
      | error e => exact ⟨rfl, hrelated⟩

theorem unlessError (x : Except StoreError α) {f : α → Action β} (hf : ∀ a, Respects R (f a)) :
    Respects R ((x : Action α) >>= f) := by
  intro w w' h
  rw [except_bind_apply, except_bind_apply]
  cases x with
  | ok a => exact hf a h
  | error e => exact ⟨rfl, h⟩

theorem view {f : FileTree → StateM Workspace β} (hreads : Reads R f)
    (hf : ∀ t, Respects R (f t)) : Respects R (currentFiles >>= f) := by
  intro w w' h
  show Alike R (f w.files w) (f w'.files w')
  rw [hreads h]
  exact hf _ h

theorem viewing_at {f : FileTree → Action β} {w w' : Workspace} (h : R w w')
    (hreads : f w'.files = f w.files) (hf : ∀ t, Respects R (f t)) :
    Alike R (((currentFiles : Action FileTree) >>= f) w)
      (((currentFiles : Action FileTree) >>= f) w') := by
  rw [lift_bind_apply, lift_bind_apply]
  show Alike R (f w.files w) (f w'.files w')
  rw [hreads]
  exact hf _ h

theorem viewing {f : FileTree → Action β} (hreads : Reads R f) (hf : ∀ t, Respects R (f t)) :
    Respects R ((currentFiles : Action FileTree) >>= f) :=
  fun _ _ h => viewing_at h (hreads h) hf

/-- What a step keeps of the first workspace may be part of the relation. -/
theorem keeping {P : Workspace → Prop} {x : Workspace → α × Workspace} (hx : Respects R x)
    (hP : ∀ ⦃w⦄, P w → P (x w).2) : Respects (fun w w' => R w w' ∧ P w) x :=
  fun _ _ h => ⟨(hx h.1).answer, (hx h.1).related, hP h.2⟩

end Respects

/-- No primitive step tells related workspaces apart. -/
structure Primitives (R : Workspace → Workspace → Prop) : Prop where
  ids : Respects R ids
  dependents : Respects R dependents
  record? : ∀ id, Respects R (record? id)
  artifact? : ∀ id, Respects R (artifact? id)
  changeIds : ∀ change, Respects R (changeIds change)
  changeDependents : ∀ change, Respects R (changeDependents change)
  putRecord : ∀ id r, Respects R (putRecord id r)
  removeRecord : ∀ id, Respects R (removeRecord id)
  removeArtifact : ∀ id, Respects R (removeArtifact id)
  writeArtifact : ∀ id a, Respects R (writeArtifact id a)
  save : Respects R save

/-- No step tells related workspaces apart that either looks something up, changes the reverse
index, gives or takes an id, or writes. -/
structure Steps (R : Workspace → Workspace → Prop) : Prop where
  ids : Respects R ids
  dependents : Respects R dependents
  record? : ∀ id, Respects R (record? id)
  artifact? : ∀ id, Respects R (artifact? id)
  changeDependents : ∀ change, Respects R (changeDependents change)
  putRecord : ∀ id r, Respects R (putRecord id r)
  writeArtifact : ∀ id a, Respects R (writeArtifact id a)
  assignId : ∀ file, Respects R (assignId file)
  evict : ∀ file, Respects R (evict file)
  save : Respects R save

/-- No step tells related workspaces apart that a sweep is made of. -/
structure Evictions (R : Workspace → Workspace → Prop) : Prop where
  ids : Respects R ids
  dependents : Respects R dependents
  dropDependency : ∀ dependency, Respects R (changeDependents (·.erase dependency))
  evict : ∀ file, Respects R (evict file)

section Index

variable (hdependents : Respects R dependents)
  (hchange : ∀ change, Respects R (changeDependents change))

include hdependents hchange in
theorem respects_forgetFile (file : Path) : Respects R (forgetFile file) := by
  refine hdependents.bind fun d => ?_
  split
  · exact hchange _
  · exact .pure ()

include hchange in
theorem respects_moveFile (file : Path) (previous next : PathSet) :
    Respects R (moveFile file previous next) := by
  rw [moveFile]
  split
  · exact hchange _
  · exact .pure ()

end Index

namespace Primitives

variable (h : Primitives R)

include h

theorem assignId (file : Path) : Respects R (assignId file) := by
  have hid : Respects R (idOf file) := h.ids.bind fun _ => .pure _
  refine hid.lift fun id? => ?_
  cases id? with
  | some id => exact .done id
  | none => exact .unlessError _ fun _ => (h.changeIds _).lift fun _ => .done _

theorem evict (file : Path) : Respects R (evict file) := by
  have hid : Respects R (idOf file) := h.ids.bind fun _ => .pure _
  refine hid.bind fun id? => (h.changeIds _).bind fun _ => ?_
  cases id? with
  | none => exact .pure false
  | some id =>
    refine (h.removeRecord id).bind fun record? => ?_
    have hremove : Respects R (do Workspace.removeArtifact id; return true : StateM Workspace Bool) :=
      (h.removeArtifact id).bind fun _ => .pure true
    cases record? with
    | some record => exact (respects_moveFile h.changeDependents file _ _).bind fun _ => hremove
    | none =>
      exact (respects_forgetFile h.dependents h.changeDependents file).bind fun _ => hremove

theorem steps : Steps R :=
  ⟨h.ids, h.dependents, h.record?, h.artifact?, h.changeDependents, h.putRecord, h.writeArtifact,
    h.assignId, h.evict, h.save⟩

end Primitives

namespace Evictions

variable (h : Evictions R)

include h

theorem dependentsOf (dependency : Path) : Respects R (dependentsOf dependency) :=
  h.dependents.bind fun _ => .pure _

theorem evictAll (files : List Path) : Respects R (evictAll files) := by
  induction files with
  | nil => exact .pure []
  | cons file rest ih => exact (h.evict file).bind fun _ => ih.bind fun _ => .pure _

theorem evictDependents (dependency : Path) : Respects R (evictDependents dependency) :=
  (h.dependentsOf dependency).bind fun _ => (h.dropDependency dependency).bind fun _ =>
    h.evictAll _

theorem evictMissing {files : List Path} (hreads : ∀ file ∈ files, Reads R (·.isMissing file)) :
    Respects R (evictMissing files) := by
  induction files with
  | nil => exact .pure []
  | cons file rest ih =>
    obtain ⟨hfile, hrest⟩ := List.forall_mem_cons.mp hreads
    have hothers (evicted : Bool) : Respects R (do
        let others ← Workspace.evictMissing rest
        return if evicted then file :: others else others : StateM Workspace (List Path)) :=
      (ih hrest).bind fun _ => .pure _
    refine Respects.view (fun w w' hw => by simp only [hfile hw]) fun t => ?_
    cases t.isMissing file with
    | true => exact (h.evict file).bind hothers
    | false => exact (Respects.pure false).bind hothers

theorem cascade (n : Nat) (c : Cascade) : Respects R (cascade n c) := by
  induction n generalizing c with
  | zero => exact .pure c
  | succ n ih =>
    obtain ⟨pending, evicted⟩ := c
    cases pending with
    | nil => exact .pure _
    | cons dependency pending => exact (h.evictDependents dependency).bind fun _ => ih _

theorem sweepOnce (hreads : ∀ ⦃w w'⦄, R w w' →
      ∀ p ∈ w.current.ids.keys ++ w.current.dependents.keys, Reads R (·.isMissing p)) :
    Respects R sweepOnce := by
  have htracked : Respects R tracked := h.ids.bind fun _ => .pure _
  have hdependencies : Respects R dependencies := h.dependents.bind fun _ => .pure _
  refine htracked.bindOf (P := fun files => ∀ file ∈ files, Reads R (·.isMissing file))
    (fun w w' hw file hfile => hreads hw file (List.mem_append_left _ hfile)) fun files hfiles => ?_
  refine (h.evictMissing hfiles).bind fun gone => ?_
  refine hdependencies.bindOf (P := fun ds => ∀ d ∈ ds, Reads R (·.isMissing d))
    (fun w w' hw d hd => hreads hw d (List.mem_append_right _ hd)) fun ds hds => ?_
  have hfilter ⦃w w'⦄ (hw : R w w') :
      ds.filter w'.files.isMissing = ds.filter w.files.isMissing :=
    List.filter_congr fun d hd => hds d hd hw
  exact Respects.view (fun w w' hw => by simp only [hfilter hw]) fun t => h.ids.bind fun _ =>
    (h.cascade _ _).bind fun _ => .pure _

theorem sweepPasses (hreads : ∀ ⦃w w'⦄, R w w' →
      ∀ p ∈ w.current.ids.keys ++ w.current.dependents.keys, Reads R (·.isMissing p))
    (n : Nat) (report : SweepReport) : Respects R (sweepPasses n report) := by
  induction n generalizing report with
  | zero => exact .pure report
  | succ n ih =>
    refine (h.sweepOnce hreads).bind fun evicted => ?_
    show Respects R (if evicted.isEmpty then _ else _ : StateM Workspace SweepReport)
    split
    · exact .pure _
    · exact ih _

end Evictions

namespace Steps

variable (h : Steps R)

include h

theorem evictions : Evictions R :=
  ⟨h.ids, h.dependents, fun _ => h.changeDependents _, h.evict⟩

theorem idOf (file : Path) : Respects R (idOf file) := h.ids.bind fun _ => .pure _

theorem isTracked (file : Path) : Respects R (isTracked file) := h.ids.bind fun _ => .pure _

theorem tracked : Respects R tracked := h.ids.bind fun _ => .pure _

theorem liveIds : Respects R liveIds := h.ids.bind fun _ => .pure _

theorem recordOf (file : Path) : Respects R (recordOf file) := by
  refine (h.idOf file).bind fun id? => ?_
  cases id? with
  | some id => exact h.record? id
  | none => exact .pure none

theorem artifactOf (file : Path) : Respects R (artifactOf file) := by
  refine (h.idOf file).bind fun id? => ?_
  cases id? with
  | some id => exact h.artifact? id
  | none => exact .pure none

theorem dependencies : Respects R dependencies := h.dependents.bind fun _ => .pure _

theorem commitRecord (file : Path) (record : CacheRecord) :
    Respects R (commitRecord file record) := by
  refine .unlessError _ fun _ => (h.assignId file).andThen fun id =>
    (h.record? id).lift fun previous? => ?_
  have hput : Respects R (do Workspace.putRecord id record; return id : Action CacheId) :=
    (h.putRecord id record).lift fun _ => .done id
  have hmove := respects_moveFile h.changeDependents file
  cases previous? with
  | some previous => exact (hmove _ _).lift fun _ => hput
  | none =>
    exact (respects_forgetFile h.dependents h.changeDependents file).lift fun _ =>
      (hmove _ _).lift fun _ => hput

theorem setDependencies (file : Path) {dependencies : PathSet}
    (hreads : Reads R (·.snapshot dependencies)) :
    Respects R (setDependencies file dependencies) := by
  refine .unlessError _ fun _ => (h.idOf file).lift fun id? => ?_
  cases id? with
  | none => exact .throw _
  | some id =>
    refine Respects.viewing (fun w w' hw => by simp only [hreads hw]) fun t =>
      (h.record? id).lift fun record? => ?_
    cases record? with
    | none => exact .throw _
    | some record =>
      exact (respects_moveFile h.changeDependents file _ _).lift fun _ => (h.putRecord id _).ok

/-- A commit looks at the file, at what its specifiers may lead to and at what they do lead to, and
at all of it before it changes anything. -/
theorem commit {w w' : Workspace} (hw : R w w') (s : Session) (file : Path)
    (specifiers : List String) (artifact : Artifact)
    (himports : s.config.resolver.imports w'.files file specifiers =
      s.config.resolver.imports w.files file specifiers)
    (hstamp : w'.files.stamp file = w.files.stamp file)
    (hsnapshot : ∀ dependencies : PathSet, dependencies = .ofList
        (s.config.resolver.imports w.files file specifiers).dependencies →
      w'.files.snapshot dependencies = w.files.snapshot dependencies) :
    Alike R (s.commit file specifiers artifact w) (s.commit file specifiers artifact w') := by
  refine Respects.viewing_at hw ?_ fun t => ?_
  · simp only [himports, hstamp, hsnapshot _ rfl]
  · exact .unlessError _ fun _ => .unlessError _ fun stamp => (h.assignId file).andThen fun id =>
      (h.writeArtifact id artifact).andThen fun _ => (h.commitRecord file _).andThen fun _ =>
        .done _

end Steps

theorem respects_check {fingerprint : Fingerprint} {file : Path}
    (hrecordOf : Respects R (recordOf file))
    (hreads : ∀ ⦃w w'⦄, R w w' → ∀ record, (recordOf file w).1 = some record →
      Reads R (·.staleReason? fingerprint file record)) : Respects R (check fingerprint file) := by
  refine hrecordOf.bindOf (P := fun record? => ∀ record, record? = some record →
    Reads R (·.staleReason? fingerprint file record)) hreads fun record? hrecord => ?_
  cases record? with
  | some record =>
    exact Respects.view (fun w w' hw => by simp only [hrecord record rfl hw]) fun _ => .pure _
  | none => exact .pure _

theorem respects_staleFiles (fingerprint : Fingerprint) {files : List Path}
    (hcheck : ∀ file ∈ files, Respects R (check fingerprint file)) :
    Respects R (staleFiles fingerprint files) := by
  induction files with
  | nil => exact .pure []
  | cons file rest ih =>
    obtain ⟨hfile, hrest⟩ := List.forall_mem_cons.mp hcheck
    exact hfile.bind fun _ => (ih hrest).bind fun _ => .pure _

theorem respects_sweep (hids : Respects R ids)
    (hpasses : ∀ n report, Respects R (sweepPasses n report)) (hsave : Respects R save) :
    Respects R sweep :=
  hids.lift fun _ => (hpasses _ _).lift fun _ => hsave.andThen fun _ => .done _

end Workspace

end BuildCache
