import BuildCache.Proofs.Layout.Writing
import BuildCache.Session

/-!
# Writes that fail

A write may fail for reasons that no tree shows, such as a full disk. Each step that writes is
given again here with such faults: a write that is at fault fails and leaves its file as it was.
Without faults the steps are those of the cache.
-/

namespace BuildCache

/-- The files of a layout that cannot be written, with the error each gives. -/
abbrev Faults := Slot → Option StoreError

def Faults.none : Faults := fun _ => .none

theorem Faults.none_apply (s : Slot) : Faults.none s = .none := rfl

namespace FileTree

def replaceUnless (fault : Option StoreError) (t : FileTree) (p : Path) (content : Bytes) :
    Except StoreError Unit × FileTree :=
  match fault with
  | some e => (.error e, t)
  | none => t.replace p content

def writeJsonUnless {α : Type} [JsonForm α] (fault : Option StoreError) (t : FileTree)
    (pretty : Bool) (p : Path) (a : α) : Except StoreError Unit × FileTree :=
  match fault with
  | some e => (.error e, t)
  | none => t.writeJson pretty p a

end FileTree

namespace Slot

variable {layout : Layout} {s : Slot} {t t' : FileTree} {fault : Option StoreError}

theorem changes_of_replaceUnless_ok {x : String}
    (h : t.replaceUnless fault (s.path layout) (.ofString x) = (.ok (), t')) :
    layout.Changes (· = s) t t' ∧ t'.readText? (s.path layout) = some x := by
  cases fault with
  | none => exact changes_of_replace_ok h
  | some e => cases h

theorem changes_of_replaceUnless_error {touched : Slot → Prop} {p : Path} {c : Bytes}
    {e : StoreError} (h : t.replaceUnless fault p c = (.error e, t')) :
    layout.Changes touched t t' := by
  cases fault with
  | none => exact changes_of_replace_error h
  | some e' =>
    cases h
    exact .refl _ _ _

theorem changes_of_replaceUnless {x : String} {r : Except StoreError Unit}
    (h : t.replaceUnless fault (s.path layout) (.ofString x) = (r, t')) :
    layout.Changes (· = s) t t' := by
  cases r with
  | ok u => exact (changes_of_replaceUnless_ok h).1
  | error e => exact changes_of_replaceUnless_error h

variable {α : Type} [JsonForm α] {a : α} {pretty : Bool}

theorem changes_of_writeJsonUnless_ok
    (h : t.writeJsonUnless fault pretty (s.path layout) a = (.ok (), t')) :
    layout.Changes (· = s) t t' ∧
      ∃ text, JsonForm.render? pretty a = some text ∧
        t'.readText? (s.path layout) = some text := by
  cases fault with
  | none => exact changes_of_writeJson_ok h
  | some e => cases h

theorem changes_of_writeJsonUnless_error {p : Path} {touched : Slot → Prop} {e : StoreError}
    (h : t.writeJsonUnless fault pretty p a = (.error e, t')) : layout.Changes touched t t' := by
  cases fault with
  | none => exact changes_of_writeJson_error h
  | some e' =>
    cases h
    exact .refl _ _ _

end Slot

def Table.saveUnless {α : Type} [JsonForm α] (fault : Option StoreError) (table : Table α)
    (t : FileTree) (pretty : Bool) (p : Path) : Except StoreError Bool × FileTree × Table α :=
  match table.value, table.dirty with
  | some a, true =>
    match t.writeJsonUnless fault pretty p a with
    | (.ok (), t) => (.ok true, t, { table with dirty := false })
    | (.error e, t) => (.error e, t, table)
  | _, _ => (.ok false, t, table)

theorem Table.saveUnless_none {α : Type} [JsonForm α] (table : Table α) (t : FileTree)
    (pretty : Bool) (p : Path) : table.saveUnless none t pretty p = table.save t pretty p := rfl

namespace RecordTable

def writeAllUnless (faults : CacheId → Option StoreError) (table : RecordTable) (t : FileTree)
    (pretty : Bool) (dir : Path) (count : Nat) :
    List (CacheId × CacheRecord) → Except StoreError Nat × FileTree × RecordTable
  | [] => (.ok count, t, table)
  | (id, record) :: rest =>
    if table.holds id then
      match t.writeJsonUnless (faults id) pretty (path dir id) record with
      | (.ok (), t) => table.writeAllUnless faults t pretty dir (count + 1) rest
      | (.error e, t) =>
        let waiting := ((id, record) :: rest).filter fun entry => table.holds entry.1
        (.error e, t, { table with unsaved := .ofList waiting })
    else table.writeAllUnless faults t pretty dir count rest

def saveUnless (faults : CacheId → Option StoreError) (table : RecordTable) (t : FileTree)
    (pretty : Bool) (dir : Path) : Except StoreError Nat × FileTree × RecordTable :=
  ({ table with unsaved := .empty }).writeAllUnless faults t pretty dir 0 table.unsaved.entries

theorem writeAllUnless_none (table : RecordTable) (t : FileTree) (pretty : Bool) (dir : Path)
    (count : Nat) (entries : List (CacheId × CacheRecord)) :
    table.writeAllUnless (fun _ => none) t pretty dir count entries =
      table.writeAll t pretty dir count entries := by
  induction entries generalizing t count with
  | nil => rfl
  | cons e rest ih =>
    obtain ⟨id, record⟩ := e
    rw [writeAllUnless, writeAll]
    split
    · cases hwrite : t.writeJson pretty (path dir id) record with
      | mk r t' =>
        have hunless : t.writeJsonUnless none pretty (path dir id) record = (r, t') := hwrite
        rw [hunless]
        cases r with
        | ok u => exact ih t' (count + 1)
        | error e => rfl
    · exact ih t count

theorem saveUnless_none (table : RecordTable) (t : FileTree) (pretty : Bool) (dir : Path) :
    table.saveUnless (fun _ => none) t pretty dir = table.save t pretty dir :=
  writeAllUnless_none _ t pretty dir 0 table.unsaved.entries

end RecordTable

namespace Store

def writeMarkerUnless (fault : Option StoreError) (s : Store) (t : FileTree) :
    Except StoreError Unit × FileTree :=
  match fault with
  | some e => (.error e, t)
  | none => s.writeMarker t

def saveMarkerUnless (fault : Option StoreError) (s : Store) (t : FileTree) :
    Except StoreError Unit × FileTree × Store :=
  if s.unmarked then
    match s.writeMarkerUnless fault t with
    | (.ok (), t) => (.ok (), t, { s with unmarked := false })
    | (.error e, t) => (.error e, t, s)
  else (.ok (), t, s)

theorem saveMarkerUnless_none (s : Store) (t : FileTree) :
    s.saveMarkerUnless none t = s.saveMarker t := rfl

def saveUnless (faults : Faults) (s : Store) (t : FileTree) :
    Except StoreError Unit × FileTree × Store :=
  let (marked, t, s) := s.saveMarkerUnless (faults .marker) t
  let (idsSaved, t, ids) := s.ids.saveUnless (faults .ids) t s.debug s.layout.ids
  let (dependentsSaved, t, dependents) :=
    s.dependents.saveUnless (faults .dependents) t s.debug s.layout.dependents
  let (recordsSaved, t, records) :=
    s.records.saveUnless (fun id => faults (.entry id .record)) t s.debug s.layout.files
  let result : Except StoreError Unit := do
    marked
    let _ ← idsSaved
    let _ ← dependentsSaved
    let _ ← recordsSaved
  (result, t, { s with ids, dependents, records })

theorem saveUnless_none (s : Store) (t : FileTree) : s.saveUnless .none t = s.save t := by
  simp only [saveUnless, save, saveMarkerUnless_none, Faults.none_apply,
    Table.saveUnless_none, RecordTable.saveUnless_none]

end Store

/-- Writes an artifact where the code or the source map may be at fault. -/
def ArtifactStore.writeUnless (codeFault mapFault : Option StoreError) (s : ArtifactStore)
    (t : FileTree) (id : CacheId) (a : Artifact) : Except StoreError Unit × FileTree :=
  match t.replaceUnless codeFault (s.path id) (.ofString a.code) with
  | (.error e, t) => (.error e, t)
  | (.ok (), t) =>
    match a.sourceMap with
    | some sourceMap => t.replaceUnless mapFault (s.sourceMapPath id) (.ofString sourceMap)
    | none => (.ok (), t.discard (s.sourceMapPath id))

theorem ArtifactStore.writeUnless_none (s : ArtifactStore) (t : FileTree) (id : CacheId)
    (a : Artifact) : s.writeUnless none none t id a = s.write t id a := by
  rw [writeUnless, write]
  cases hcode : t.replace (s.path id) (.ofString a.code) with
  | mk r t' =>
    have hunless : t.replaceUnless none (s.path id) (.ofString a.code) = (r, t') := hcode
    rw [hunless]
    cases r with
    | error e => rfl
    | ok u => cases a.sourceMap <;> rfl

namespace Slot

variable {layout : Layout} {t t' : FileTree} {codeFault mapFault : Option StoreError}
  {debug : Bool} {id : CacheId} {a : Artifact}

theorem changes_of_writeArtifactUnless_in {r : Except StoreError Unit}
    (h : ArtifactStore.writeUnless codeFault mapFault ⟨layout.files, debug⟩ t id a = (r, t')) :
    layout.Changes (ArtifactIn id debug) t t' := by
  rw [ArtifactStore.writeUnless, path_code, path_sourceMap] at h
  split at h
  · next hcode =>
    cases h
    exact changes_of_replaceUnless_error hcode
  · next t₁ hcode =>
    have hcode : layout.Changes (ArtifactIn id debug) t t₁ :=
      (changes_of_replaceUnless hcode).mono fun _ => .inl
    refine hcode.trans ?_
    split at h
    · exact (changes_of_replaceUnless h).mono fun _ => .inr
    · cases h
      exact (changes_discard layout _ t₁).mono fun _ => .inr

theorem changes_of_writeArtifactUnless {r : Except StoreError Unit}
    (h : ArtifactStore.writeUnless codeFault mapFault ⟨layout.files, debug⟩ t id a = (r, t')) :
    layout.Changes (ArtifactOf id) t t' :=
  (changes_of_writeArtifactUnless_in h).mono fun _ => ArtifactIn.artifactOf

theorem read?_of_writeArtifactUnless
    (h : ArtifactStore.writeUnless codeFault mapFault ⟨layout.files, debug⟩ t id a =
      (.ok (), t')) :
    ArtifactStore.read? ⟨layout.files, debug⟩ t' id = some a := by
  have hne : ¬(entry id (.code debug) = entry id (.sourceMap debug)) := by simp
  rw [ArtifactStore.writeUnless, path_code, path_sourceMap] at h
  split at h
  · simp at h
  · next t₁ hcode =>
    obtain ⟨-, hcode⟩ := changes_of_replaceUnless_ok hcode
    have hsettled : layout.Settled t₁ := .inl (open_of_readText? hcode)
    rw [read?_artifact]
    obtain ⟨code, sourceMap⟩ := a
    split at h
    · next hmap =>
      obtain ⟨hchanges, hread⟩ := changes_of_replaceUnless_ok h
      rw [hchanges.readText? hsettled hne, hcode, hread]
      exact congrArg some (congrArg _ hmap.symm)
    · next hmap =>
      cases h
      rw [readText?_discard layout hne, hcode, readText?_discard_self]
      exact congrArg some (congrArg _ hmap.symm)

/-- Of an artifact that could not be written, at most the code is there, and only if a source map
was to follow. -/
theorem changes_of_writeArtifactUnless_error {e : StoreError}
    (h : ArtifactStore.writeUnless codeFault mapFault ⟨layout.files, debug⟩ t id a =
      (.error e, t')) :
    layout.Changes (fun _ => False) t t' ∨
      a.sourceMap.isSome = true ∧ layout.Changes (· = entry id (.code debug)) t t' ∧
        t'.readText? ((entry id (.code debug)).path layout) = some a.code := by
  rw [ArtifactStore.writeUnless, path_code, path_sourceMap] at h
  split at h
  · next hcode =>
    cases h
    exact .inl (changes_of_replaceUnless_error hcode)
  · next t₁ hcode =>
    obtain ⟨hchanges, hread⟩ := changes_of_replaceUnless_ok hcode
    have hsettled : layout.Settled t₁ := .inl (open_of_readText? hread)
    split at h
    · next sourceMap hmap =>
      have hkept : layout.Changes (fun _ => False) t₁ t' := changes_of_replaceUnless_error h
      refine .inr ⟨by rw [hmap]; rfl, hchanges.trans (hkept.mono fun _ => False.elim), ?_⟩
      rw [hkept.readText? hsettled fun h => h, hread]
    · cases h

end Slot

namespace Workspace

def writeArtifactUnless (faults : Faults) (id : CacheId) (a : Artifact) : Action Unit := fun w =>
  onFiles (w.store.artifacts.writeUnless (faults (.entry id (.code w.store.debug)))
    (faults (.entry id (.sourceMap w.store.debug))) · id a) w

theorem writeArtifactUnless_none : writeArtifactUnless .none = writeArtifact := by
  funext id a w
  simp only [writeArtifactUnless, writeArtifact, Faults.none_apply,
    ArtifactStore.writeUnless_none]

def saveUnless (faults : Faults) : Action Unit := fun w =>
  let (result, files, store) := w.store.saveUnless faults w.files
  (result, { files, store })

theorem saveUnless_none : saveUnless .none = save := by
  funext w
  simp only [saveUnless, save, Store.saveUnless_none]

def sweepUnless (faults : Faults) : Action SweepReport := do
  let report ← sweepPasses ((← ids).size + 1) ⟨[], 0⟩
  saveUnless faults
  return report

theorem sweepUnless_none : sweepUnless .none = sweep := by
  simp only [sweepUnless, sweep, saveUnless_none]

end Workspace

def Session.commitUnless (faults : Faults) (s : Session) (file : Path) (specifiers : List String)
    (artifact : Artifact) : Action CommitOutcome := do
  let t ← Workspace.currentFiles
  let imports := s.config.resolver.imports t file specifiers
  StoreError.ensureText (file :: imports.dependencies)
  let stamp ← (t.stamp file).mapError (StoreError.io file)
  let snapshot := t.snapshot (.ofList imports.dependencies)
  let id ← Workspace.assignId file
  Workspace.writeArtifactUnless faults id artifact
  let record : CacheRecord := { stamp, fingerprint := s.fingerprint }
  let _ ← Workspace.commitRecord file (record.withDependencies snapshot)
  return ⟨id, imports⟩

theorem Session.commitUnless_none (s : Session) (file : Path) (specifiers : List String)
    (artifact : Artifact) :
    s.commitUnless .none file specifiers artifact = s.commit file specifiers artifact := by
  simp only [commitUnless, commit, Workspace.writeArtifactUnless_none]

end BuildCache
