import BuildCache.Proofs.Layout.Corrupt
import BuildCache.Proofs.Reopening
import BuildCache.Proofs.Workspace.Bypassing

/-!
# Corrupt is as good as absent

A cache with corrupt files and the same cache without them give the same answers, and know the
same, in a run that looks at these files only as its cache, and not as sources, dependencies or
imports. What such a run finds in them is nothing, and no step fails because of them.
-/

namespace BuildCache

open FileTree BuildCache.Path Workspace

/-- A change of files from outside. -/
inductive Edit where
  | write (p : Path) (content : Bytes)
  | removeFile (p : Path)
  | makeDirectories (p : Path)
  | touch (p : Path) (modified : Int)
  | wait (nanoseconds : Int)

namespace Edit

/-- A change that fails leaves the files as they are, but for directories it has made. -/
def apply (t : FileTree) : Edit → FileTree
  | write p content => (t.write p content).toOption.getD t
  | removeFile p => t.discard p
  | makeDirectories p => (t.prepare p).2
  | touch p modified => (t.touch p modified).toOption.getD t
  | wait nanoseconds => t.wait nanoseconds

def paths : Edit → List Path
  | write p _ | removeFile p | makeDirectories p | touch p _ => [p]
  | wait _ => []

end Edit

/-- What happens in a run: something is asked of the cache or done to it, or files change. -/
inductive Event where
  | request (request : Request)
  | edit (edit : Edit)

namespace Workspace

def respond (w : Workspace) : Event → Except StoreError Answer × Workspace
  | .request asked => asked.answer w
  | .edit change => (.ok .done, { w with files := change.apply w.files })

/-- All that a run is answered, with all that is in memory after each step. -/
def history (w : Workspace) : List Event → List (Except StoreError Answer × Store)
  | [] => []
  | event :: events =>
    let (answer, w') := w.respond event
    (answer, w'.store) :: w'.history events

end Workspace

/-- All that a run on a cache directory is answered, and what is in memory from opening it on. -/
def FileTree.chronicle (t : FileTree) (dir : Path) (version : String) (debug : Bool)
    (events : List Event) :
    Except StoreError (Store × List (Except StoreError Answer × Store)) :=
  match Store.openAt t dir version debug with
  | (.ok store, files) => .ok (store, Workspace.history ⟨files, store⟩ events)
  | (.error e, _) => .error e

namespace Event

/-- The paths that are looked at as those of sources, of dependencies or of what imports resolve to,
or that are changed. -/
def looked (w : Workspace) : Event → List Path
  | .request (.ask (.staleFiles _ files)) => files.flatMap w.checked
  | .request (.perform (.check _ file)) => w.checked file
  | .request (.perform (.commit s file specifiers _)) =>
    file :: s.config.resolver.targets w.files file specifiers
  | .request (.perform (.setDependencies _ dependencies)) => dependencies.toList
  | .request (.perform .sweep) => w.current.ids.keys ++ w.current.dependents.keys
  | .edit change => change.paths
  | .request _ => []

/-- The paths whose times are compared with those of a record. -/
def timed (w : Workspace) : Event → List Path
  | .request (.ask (.staleFiles _ files)) => files.flatMap w.checked
  | .request (.perform (.check _ file)) => w.checked file
  | _ => []

/-- The places whose manifests may be read. -/
def searched (w : Workspace) : Event → List Path
  | .request (.perform (.commit s file specifiers _)) =>
    s.config.resolver.searched w.files file specifiers
  | _ => []

/-- Whether a request to open the cache anew fails, so that none is open. -/
def closes (w : Workspace) : Event → Bool
  | .request (.perform (.reopen version debug)) => !(reopen version debug w).1.isOk
  | _ => false

/-- Files change one by one, and outside of the cache directory unless the cache changes them. -/
def Usual (w : Workspace) : Event → Prop
  | .request (.perform (.edit _)) => False
  | .request _ => True
  | .edit change => w.store.layout.Outside w.files (change.apply w.files)

/-- An event that looks at no file among some that is corrupt by then, neither by a path that leads
to it or through it nor as a manifest, and compares no time of a directory that holds one. -/
structure Shuns (ss : List Slot) (w : Workspace) (event : Event) : Prop where
  usual : event.Usual w
  paths : ∀ s ∈ ss, s.Corrupt w.store.layout w.files →
    ∀ p ∈ event.looked w, ¬OnWay p.segments (s.location w.store.layout)
  manifests : ∀ s ∈ ss, s.Corrupt w.store.layout w.files → ∀ p ∈ event.searched w,
    (p.joinString Resolver.manifestName).location ≠ s.location w.store.layout
  times : ∀ p ∈ event.timed w,
    p.location ≠ w.store.layout.dir.location ∧ p.location ≠ w.store.layout.files.location

instance (w : Workspace) : (event : Event) → Decidable (event.Usual w)
  | .request (.perform (.edit _)) => .isFalse id
  | .request (.ask _) | .request (.perform (.reopen ..)) | .request (.perform (.commit ..))
  | .request (.perform (.commitRecord ..)) | .request (.perform (.assignId _))
  | .request (.perform (.setDependencies ..)) | .request (.perform (.evict _))
  | .request (.perform (.evictDependents _)) | .request (.perform .sweep)
  | .request (.perform .collectGarbage) | .request (.perform .save)
  | .request (.perform (.check ..)) => .isTrue trivial
  | .edit _ => inferInstanceAs (Decidable (Layout.Outside _ _ _))

instance (ss : List Slot) (w : Workspace) (event : Event) : Decidable (event.Shuns ss w) :=
  decidable_of_iff (event.Usual w ∧
    (∀ s ∈ ss, s.Corrupt w.store.layout w.files →
      ∀ p ∈ event.looked w, ¬OnWay p.segments (s.location w.store.layout)) ∧
    (∀ s ∈ ss, s.Corrupt w.store.layout w.files → ∀ p ∈ event.searched w,
      (p.joinString Resolver.manifestName).location ≠ s.location w.store.layout) ∧
    ∀ p ∈ event.timed w,
      p.location ≠ w.store.layout.dir.location ∧ p.location ≠ w.store.layout.files.location)
    ⟨fun ⟨husual, hpaths, hmanifests, htimes⟩ => ⟨husual, hpaths, hmanifests, htimes⟩,
      fun ⟨husual, hpaths, hmanifests, htimes⟩ => ⟨husual, hpaths, hmanifests, htimes⟩⟩

end Event

/-- Every event of the run shuns the corrupt ones of the files, and the run ends where the cache
cannot be opened anew. -/
def Workspace.Shuns (ss : List Slot) (w : Workspace) : List Event → Prop
  | [] => True
  | event :: events => event.Shuns ss w ∧ (event.closes w = true → events.isEmpty = true) ∧
    (w.respond event).2.Shuns ss events

instance Workspace.decidableShuns (ss : List Slot) (w : Workspace) :
    (events : List Event) → Decidable (w.Shuns ss events)
  | [] => .isTrue trivial
  | event :: events =>
    have := decidableShuns ss (w.respond event).2 events
    inferInstanceAs (Decidable (_ ∧ _ ∧ _))

theorem Edit.lacks {gone loose : Location → Prop} {t t' : FileTree} (h : Lacks gone loose t t')
    {edit : Edit} (hpaths : ∀ p ∈ edit.paths, Avoids p.segments gone) :
    Lacks gone loose (edit.apply t) (edit.apply t') := by
  have hkept {x x' : Except FileError FileTree} (hx : Matches (Lacks gone loose) x x') :
      Lacks gone loose (x.toOption.getD t) (x'.toOption.getD t') := by
    cases hx with
    | error e => exact h
    | ok hx => exact hx
  cases edit with
  | write p content => exact hkept (h.write (hpaths p (List.mem_singleton_self p)) content)
  | removeFile p =>
    have hp := hpaths p (List.mem_singleton_self p)
    exact h.discard hp.dropLast fun hgone => absurd hgone hp.location
  | makeDirectories p => exact (h.prepare (hpaths p (List.mem_singleton_self p))).files
  | touch p modified => exact hkept (h.touch (hpaths p (List.mem_singleton_self p)) modified)
  | wait nanoseconds => exact h.wait nanoseconds

namespace Workspace

theorem Trimmed.edit {layout : Layout} {S : Slot → Prop} {w w' : Workspace}
    (h : Trimmed layout S w w') {edit : Edit}
    (houtside : w.store.layout.Outside w.files (edit.apply w.files))
    (hpaths : ∀ p ∈ edit.paths, layout.Bypassed S p) :
    Alike (Trimmed layout S) (w.respond (.edit edit)) (w'.respond (.edit edit)) := by
  refine h.step (fun _ => True) (fun S' hS => ⟨rfl, hS.store, hS.layout_eq, ?_⟩)
    fun id hid hsettled _ => hid.builds hsettled (builds_edit houtside)
  have hedited : Lacks (Gone w.files w'.files) layout.Holder (edit.apply w.files)
      (edit.apply w'.files) := Edit.lacks h.files.lacking fun p hp k hk hgone =>
    hpaths p hp k hk (h.files.exists_slot hgone)
  have hchanges := houtside.changes
  rw [h.layout_eq] at hchanges
  exact (hS.files.step hedited hchanges fun _ => False.elim).restrict fun _ hs _ => ⟨hs, trivial⟩

/-- A question or an operation that bypasses what is lacking is answered the same. -/
private theorem Trimmed.answer {layout : Layout} {S : Slot → Prop} {w w' : Workspace}
    (h : Trimmed layout S w w') {request : Request} (husual : (Event.request request).Usual w)
    (hopen : (Event.request request).closes w = false)
    (hpaths : ∀ p ∈ (Event.request request).looked w, layout.Bypassed S p)
    (hmanifests : ∀ p ∈ (Event.request request).searched w, ∀ s, S s →
      (p.joinString Resolver.manifestName).location ≠ s.location layout)
    (htimes : ∀ p ∈ (Event.request request).timed w, ¬layout.Holder p.location) :
    Alike (Trimmed layout S) (request.answer w) (request.answer w') := by
  have hsteps : Steps (Trimmed layout S) := Trimmed.steps
  cases request with
  | ask query =>
    have hasked : Alike (Trimmed layout S) (query.ask w) (query.ask w') := by
      refine hsteps.ask h fun s files hquery => ?_
      subst hquery
      exact h.staleFiles s.fingerprint fun p hp => ⟨hpaths p hp, htimes p hp⟩
    exact ⟨congrArg Except.ok hasked.answer, hasked.related⟩
  | perform op =>
    cases op with
    | commit s file specifiers artifact =>
      exact (h.commit s artifact hmanifests hpaths).answering Answer.outcome
    | commitRecord file record => exact (hsteps.commitRecord file record h).answering Answer.id
    | assignId file => exact (hsteps.assignId file h).answering Answer.id
    | setDependencies file dependencies =>
      exact (h.setDependencies file hpaths).answering fun _ => Answer.done
    | evict file => exact (hsteps.evict file).ok.andThen (fun _ => .done _) h
    | evictDependents dependency =>
      exact (hsteps.evictions.evictDependents dependency).ok.andThen (fun _ => .done _) h
    | sweep => exact (h.sweep hpaths).answering Answer.report
    | collectGarbage => exact h.collectGarbage.answering Answer.count
    | save => exact (hsteps.save h).answering fun _ => Answer.done
    | check s file =>
      have hchecked := h.check s.fingerprint fun p hp => ⟨hpaths p hp, htimes p hp⟩
      exact ⟨congrArg (Except.ok ∘ Answer.freshness) hchecked.answer, hchecked.related⟩
    | reopen version debug =>
      exact (h.reopen (by simpa [Event.closes] using hopen)).answering fun _ => Answer.done
    | edit files => exact husual.elim

private theorem Trimmed.corrupt {layout : Layout} {ss : List Slot} {w w' : Workspace}
    (h : Trimmed layout (· ∈ ss) w w') :
    Trimmed layout (fun s => s ∈ ss ∧ s.Corrupt layout w.files) w w' := by
  refine h.weaken fun s hs hgone => ⟨hs, ?_⟩
  obtain ⟨hopen, hfits, hgarbled⟩ := h.files.spoiled s hgone
  have hsome := h.files.lacks.isSome_contentAt hgone
  refine ⟨Slot.isFile_path_iff.mpr ⟨hfits, hopen, hsome⟩, hgarbled, ?_⟩
  match s with
  | .entry id .record =>
    obtain ⟨f, hf⟩ := (h.uses id hgone).saved
    obtain ⟨k, hk, -⟩ := OrderedMap.get?_eq_some_iff.mp hf
    rw [← h.layout_eq]
    exact List.mem_map_of_mem hk
  | .marker | .ids | .dependents | .entry _ (.code _) | .entry _ (.sourceMap _) => trivial

theorem Trimmed.respond {layout : Layout} {ss : List Slot} {w w' : Workspace}
    (h : Trimmed layout (· ∈ ss) w w') {event : Event} (hshuns : event.Shuns ss w)
    (hopen : event.closes w = false) :
    Alike (Trimmed layout (· ∈ ss)) (w.respond event) (w'.respond event) := by
  obtain ⟨husual, hpaths, hmanifests, htimes⟩ := hshuns
  rw [h.layout_eq] at hpaths hmanifests htimes
  have hbypassed : ∀ p ∈ event.looked w,
      layout.Bypassed (fun s => s ∈ ss ∧ s.Corrupt layout w.files) p := by
    rintro p hp k hk ⟨s, ⟨hs, hcorrupt⟩, rfl⟩
    exact hpaths s hs hcorrupt p hp hk
  have hresponded : Alike (Trimmed layout fun s => s ∈ ss ∧ s.Corrupt layout w.files)
      (w.respond event) (w'.respond event) := by
    cases event with
    | request request =>
      exact h.corrupt.answer husual hopen hbypassed (fun p hp s hs => hmanifests s hs.1 hs.2 p hp)
        fun p hp => not_or.mpr (htimes p hp)
    | edit edit => exact h.corrupt.edit husual hbypassed
  exact ⟨hresponded.answer, hresponded.related.weaken fun _ hs _ => hs.1⟩

/-- A cache that cannot be opened anew cannot without what is lacking, for the same reason. -/
theorem Trimmed.respond_closes {layout : Layout} {S : Slot → Prop} {w w' : Workspace}
    (h : Trimmed layout S w w') {event : Event} (hcloses : event.closes w = true) :
    (w'.respond event).1 = (w.respond event).1 ∧
      (w'.respond event).2.store = (w.respond event).2.store := by
  match event with
  | .request (.perform (.reopen version debug)) =>
    obtain ⟨e, t₁, t₁', hleft, hright⟩ := h.reopen_error (by simpa [Event.closes] using hcloses)
    simp only [Workspace.respond, Request.answer, Operation.answer, answering_apply, hleft, hright]
    exact ⟨trivial, h.store⟩

theorem history_cons (event : Event) (events : List Event) (w : Workspace) :
    w.history (event :: events) = ((w.respond event).1, (w.respond event).2.store) ::
      (w.respond event).2.history events := rfl

theorem Trimmed.history {layout : Layout} {ss : List Slot} {w w' : Workspace}
    (h : Trimmed layout (· ∈ ss) w w') {events : List Event} (hshuns : w.Shuns ss events) :
    w'.history events = w.history events := by
  induction events generalizing w w' with
  | nil => rfl
  | cons event events ih =>
    obtain ⟨hevent, hlast, hevents⟩ := hshuns
    rw [history_cons, history_cons]
    cases hcloses : event.closes w with
    | false =>
      obtain ⟨hanswer, hrelated⟩ := h.respond hevent hcloses
      rw [hanswer, hrelated.store, ih hrelated hevents]
    | true =>
      obtain ⟨hanswer, hstore⟩ := h.respond_closes hcloses
      obtain rfl := List.isEmpty_iff.mp (hlast hcloses)
      rw [hanswer, hstore]
      rfl

end Workspace

/-- A run on a cache directory, and the same run on the directory without some corrupt files of it,
go the same way: the cache is opened alike, every step is answered the same, and as much is in
memory after it. -/
theorem chronicle_without {dir : Path} {version : String} {debug : Bool} {t : FileTree}
    {ss : List Slot} (hhoused : (Layout.mk dir).Housed t)
    (hcorrupt : ∀ s ∈ ss, s.Corrupt ⟨dir⟩ t) {events : List Event}
    (hshuns : ∀ store files, Store.openAt t dir version debug = (.ok store, files) →
      Workspace.Shuns ss ⟨files, store⟩ events) :
    (t.without ⟨dir⟩ ss).chronicle dir version debug events =
      t.chronicle dir version debug events := by
  have hpurged := Layout.purged_without hhoused hcorrupt
  have htracked (id : CacheId)
      (hgone : Gone t (t.without ⟨dir⟩ ss) ((Slot.entry id .record).location ⟨dir⟩)) :
      ∃ f, (t.tableAt (Layout.mk dir).ids : IdTable).get? f = some id := by
    obtain ⟨s, hs, heq⟩ := hpurged.exists_slot hgone
    obtain rfl := Slot.location_injective heq
    obtain ⟨e, he, rfl⟩ := List.mem_map.mp (hcorrupt _ hs).tracked
    exact ⟨e.1, OrderedMap.get?_eq_some_iff.mpr ⟨e.1, he, Std.ReflCmp.compare_self⟩⟩
  have hfst : (Store.openAt (t.without ⟨dir⟩ ss) dir version debug).1 =
      (Store.openAt t dir version debug).1 := fst_openAt_of_purged hpurged
  rw [FileTree.chronicle, FileTree.chronicle]
  cases hopen : Store.openAt t dir version debug with
  | mk r files => cases hopen' : Store.openAt (t.without ⟨dir⟩ ss) dir version debug with
    | mk r' files' =>
      rw [hopen, hopen'] at hfst
      obtain rfl : r' = r := hfst
      cases r' with
      | error e => rfl
      | ok store =>
        have htrimmed := trimmed_of_openAt hpurged htracked hopen hopen'
        simp only [htrimmed.history (hshuns store files hopen)]

namespace Sample

def layout : Layout := ⟨cacheDir⟩

/-- A cache that knows an importer, whose record cannot be read. -/
def cutShort (t : FileTree) : FileTree :=
  let listed := withContent t layout.ids
    ("\x7b\"/src/f.js\":\"" ++ (CacheId.forPath importer).text ++ "\"\x7d")
  withContent listed ((Slot.entry (.forPath importer) .record).path layout) "\x7b"

def damaged : FileTree := withContent (cutShort tree) layout.dependents "[]"

def damage : List Slot := [.entry (.forPath importer) .record, .dependents]

/-- A session that finds the damage and mends it, and another that finds it mended. -/
def mending : List Event :=
  [.request (.ask (.recordOf importer)), .request (.perform (.check session importer)),
    .request (.perform (.commit session importer ["./y.js"] { code := "f" })),
    .request (.perform .save), .edit (.touch dependency 5000000000),
    .request (.perform restart), .request (.perform (.check session importer)),
    .request (.perform .sweep), .request (.ask (.dependentsOf dependency))]

/-- What of a run on the cache directory is answered. -/
def answers (t : FileTree) (version : String) (events : List Event) :
    Option (List (Option Answer)) :=
  (t.chronicle cacheDir version false events).toOption.map fun run =>
    run.2.map fun step => step.1.toOption

end Sample

open Sample in
theorem chronicle_without_damage :
    (damaged.without ⟨cacheDir⟩ damage).chronicle cacheDir Session.defaultVersion false mending =
      damaged.chronicle cacheDir Session.defaultVersion false mending := by
  have hfacts : (Layout.mk cacheDir).Housed damaged ∧
      (∀ s ∈ damage, s.Corrupt ⟨cacheDir⟩ damaged) ∧
      damaged.readText? (Layout.mk cacheDir).marker = none ∧
      Workspace.Shuns damage ⟨damaged, .fresh ⟨cacheDir⟩ Session.defaultVersion false true⟩
        mending := by
    decide +kernel
  obtain ⟨hhoused, hcorrupt, hmarker, hshuns⟩ := hfacts
  refine chronicle_without hhoused hcorrupt fun store files hopen => ?_
  rw [Store.openAt, hmarker] at hopen
  cases hopen
  exact hshuns

namespace Sample

/-- A cache whose id table cannot be read. -/
def unreadable : FileTree := withContent tree layout.ids "\x7b"

/-- An id table compiled as a source. -/
def compiling : List Event :=
  [.request (.perform (.commit session layout.ids [] { code := "" }))]

/-- A cache that cannot be cleared. -/
def unclearable : FileTree :=
  withDirectory (cutShort (withContent tree layout.marker "1")) layout.dependents

/-- Another version opens the cache and fails, opens it again, and collects garbage. -/
def insisting : List Event :=
  [.request (.perform (.reopen "2" false)), .request (.perform (.reopen "2" false)),
    .request (.perform .collectGarbage)]

/-- The directory of the records is tracked with its time, and a record in it is removed. -/
def timing : List Event :=
  [.edit (.touch layout.files 5000000000),
    .request (.perform (.commitRecord layout.files
      { stamp := ⟨.ofBytes [], 5000⟩, fingerprint := session.fingerprint })),
    .request (.perform (.evict importer)), .request (.perform (.check session layout.files))]

end Sample

open Sample in
/-- Told from absent ones are a table that is itself compiled, a record that is left over when a
cache could not be cleared, and a record whose removal stamps a directory that is checked. -/
theorem answers_ne_of_compiled_table_failed_clearing_and_timed_directory :
    (Slot.ids.Corrupt ⟨cacheDir⟩ unreadable ∧
      ((answers unreadable "1" compiling).map fun run => run.map Option.isSome) = some [true] ∧
      answers (unreadable.without ⟨cacheDir⟩ [.ids]) "1" compiling = some [none]) ∧
    ((Slot.entry (.forPath importer) .record).Corrupt ⟨cacheDir⟩ unclearable ∧
      answers unclearable "1" insisting = some [none, some .done, some (.count 1)] ∧
      answers (unclearable.without ⟨cacheDir⟩ [.entry (.forPath importer) .record]) "1" insisting =
        some [none, some .done, some (.count 0)]) ∧
    (Slot.entry (.forPath importer) .record).Corrupt ⟨cacheDir⟩ (cutShort tree) ∧
      (answers (cutShort tree) "1" timing).bind List.getLast? =
        some (some (.freshness (.stale .sourceChanged))) ∧
      (answers ((cutShort tree).without ⟨cacheDir⟩ [.entry (.forPath importer) .record]) "1"
        timing).bind List.getLast? = some (some (.freshness (.stale .sourceUnreadable))) := by
  decide +kernel

end BuildCache
