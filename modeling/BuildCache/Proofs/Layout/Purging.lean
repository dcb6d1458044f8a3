import BuildCache.Proofs.Layout.Temporary
import BuildCache.Store.Basic

/-!
# Cache directories without their corrupt files

A file that does not hold a value of its type reads as if it were not there. So a cache directory
and the same one without such files read the same, and whatever is done to both of them leaves them
so. A corrupt file goes from the first when it is replaced, discarded or cleared.
-/

namespace BuildCache

open FileTree BuildCache.Path

namespace Slot

/-- Whether the file of a table or of a record holds no value of its type. -/
def Garbled (layout : Layout) (t : FileTree) : Slot → Prop
  | ids => (t.readJson? layout.ids : Option IdTable) = none
  | dependents => (t.readJson? layout.dependents : Option Dependents) = none
  | entry id .record => (t.readJson? (RecordTable.path layout.files id) : Option CacheRecord) = none
  | _ => False

instance (layout : Layout) (t : FileTree) : (s : Slot) → Decidable (s.Garbled layout t)
  | ids => inferInstanceAs (Decidable (_ = none))
  | dependents => inferInstanceAs (Decidable (_ = none))
  | entry _ .record => inferInstanceAs (Decidable (_ = none))
  | marker | entry _ (.code _) | entry _ (.sourceMap _) => .isFalse fun h => h

/-- A file that can be looked up and is garbled. -/
structure Spoiled (layout : Layout) (t : FileTree) (s : Slot) : Prop where
  isOpen : layout.Open t
  fits : s.Fits layout
  garbled : s.Garbled layout t

variable {layout : Layout} {s : Slot} {t t' : FileTree}

theorem Garbled.congr (h : s.Garbled layout t)
    (htext : t'.readText? (s.path layout) = t.readText? (s.path layout)) :
    s.Garbled layout t' := by
  have hread {α : Type} [JsonForm α] (hnone : (t.readJson? (s.path layout) : Option α) = none) :
      (t'.readJson? (s.path layout) : Option α) = none := by
    rwa [readJson?, htext]
  match s with
  | .ids | .dependents | .entry _ .record => exact hread h
  | .marker | .entry _ (.code _) | .entry _ (.sourceMap _) => exact h

theorem location_ne_files (s : Slot) : s.location layout ≠ layout.files.location := by
  rw [location, location_files]
  intro h
  obtain ⟨hname, hdir⟩ := List.cons.inj h
  cases s with
  | entry id part =>
    rw [dir, location_files] at hdir
    simpa using congrArg List.length hdir
  | _ => exact absurd (Bytes.ofString_injective hname) (by decide)

end Slot

namespace Layout

variable {layout : Layout} {t t' : FileTree}

theorem Open.isDirectoryAt_of_onWay (h : layout.Open t) {k : Location}
    (hk : OnWay layout.dir.segments k) : t.isDirectoryAt k = true := by
  obtain ⟨front, ⟨rest, hrest⟩, rfl⟩ := hk
  have hwalk := h.walk
  rw [← hrest, walk_append] at hwalk
  cases hfront : t.walk [] front with
  | error e => simp [hfront, Except.bind] at hwalk
  | ok m =>
    obtain rfl := eq_follow_of_walk hfront
    rw [hfront] at hwalk
    cases rest with
    | nil =>
      rw [List.append_nil] at hrest
      rw [hrest]
      exact h.isDirectoryAt
    | cons n rest =>
      rw [Except.bind, FileTree.walk] at hwalk
      rw [← Bool.not_eq_false]
      intro hdir
      simp [hdir] at hwalk

/-- The directories that hold the files of the layout. -/
def Holder (layout : Layout) (k : Location) : Prop :=
  k = layout.dir.location ∨ k = layout.files.location

theorem holder_dir (layout : Layout) (s : Slot) : layout.Holder (s.dir layout).location := by
  cases s with
  | entry id part => exact .inr rfl
  | _ => exact .inl rfl

/-- The second tree lacks some files of slots that are garbled in the first. -/
structure Purged (layout : Layout) (S : Slot → Prop) (t t' : FileTree) : Prop where
  lacks : Lacks (fun k => ∃ s, S s ∧ k = s.location layout) layout.Holder t t'
  spoiled : ∀ s : Slot, Gone t t' (s.location layout) → s.Spoiled layout t
  housed : layout.Housed t

namespace Purged

variable {S : Slot → Prop} {touched : Slot → Prop} {t₁ t₁' : FileTree} {s : Slot}

theorem exists_slot (h : layout.Purged S t t') {k : Location} (hk : Gone t t' k) :
    ∃ s, S s ∧ k = s.location layout := h.lacks.of_gone hk

theorem restrict {S' : Slot → Prop} (h : layout.Purged S t t')
    (hS : ∀ s, S s → Gone t t' (s.location layout) → S' s) : layout.Purged S' t t' := by
  refine ⟨h.lacks.of_forall fun k hk => ?_, h.spoiled, h.housed⟩
  obtain ⟨s, hs, rfl⟩ := h.exists_slot hk
  exact ⟨s, hS s hs hk, rfl⟩

theorem lacking (h : layout.Purged S t t') : Lacks (Gone t t') layout.Holder t t' :=
  h.lacks.of_forall fun _ => id

/-- The ways to the files of the layout do not pass what is lacking. -/
theorem avoids_files (h : layout.Purged S t t') : Avoids layout.files.segments (Gone t t') := by
  rintro k ⟨front, hfront, rfl⟩ hgone
  obtain ⟨s, -, hs⟩ := h.exists_slot hgone
  rw [Slot.segments_files] at hfront
  rcases List.prefix_concat_iff.mp hfront with rfl | hfront
  · rw [← Slot.segments_files] at hs
    exact s.location_ne_files hs.symm
  · have hopen := (h.spoiled s (hs ▸ hgone)).isOpen
    have hdir := hopen.isDirectoryAt_of_onWay ⟨front, hfront, rfl⟩
    rw [← h.lacks.isDirectoryAt, (entry?_eq_none_iff.mp hgone.2).1] at hdir
    cases hdir

theorem avoids_dir (h : layout.Purged S t t') (s : Slot) :
    Avoids (s.dir layout).segments (Gone t t') := by
  cases s with
  | entry id part => exact h.avoids_files
  | _ =>
    refine h.avoids_files.mono ?_
    rw [Slot.segments_files]
    exact List.prefix_append _ _

/-- What is done to both trees alike leaves them so, if a slot that it touches is there after it. -/
theorem step (h : layout.Purged S t t') (hlacks : Lacks (Gone t t') layout.Holder t₁ t₁')
    (hchanges : layout.Changes touched t t₁)
    (htouched : ∀ s, touched s → ¬Gone t₁ t₁' (s.location layout)) : layout.Purged S t₁ t₁' := by
  refine ⟨hlacks.of_forall fun k hk => h.exists_slot (hlacks.of_gone hk), fun s hs => ?_,
    hchanges.housed h.housed⟩
  obtain ⟨hopen, hfits, hgarbled⟩ := h.spoiled s (hlacks.of_gone hs)
  have hsettled := hchanges.settled (.inl hopen)
  refine ⟨hsettled.resolve_right fun hnone => ?_, hfits, hgarbled.congr
    (hchanges.readText? (.inl hopen) fun htouch => htouched s htouch hs)⟩
  have hsome := hlacks.isSome_contentAt hs
  rw [hnone s] at hsome
  cases hsome

theorem readText? (h : layout.Purged S t t') (hs : ¬Gone t t' (s.location layout)) :
    t'.readText? (s.path layout) = t.readText? (s.path layout) :=
  Slot.readText?_path_of_same_directories (fun k hk => (h.lacks.isDirectoryAt k).trans hk)
    (fun k hk => (h.lacks.isDirectoryAt k).symm.trans hk) (h.lacking.contentAt hs)

private theorem readJson? {α : Type} [JsonForm α] (h : layout.Purged S t t')
    (hs : s.Garbled layout t → (t.readJson? (s.path layout) : Option α) = none) :
    (t'.readJson? (s.path layout) : Option α) = t.readJson? (s.path layout) := by
  by_cases hgone : Gone t t' (s.location layout)
  · have hnone : t'.contentAt (s.location layout) = none :=
      (entry?_eq_none_iff.mp hgone.2).2
    rw [hs (h.spoiled s hgone).garbled, FileTree.readJson?, Slot.readText?_path_eq_none hnone,
      Option.bind_none]
  · rw [FileTree.readJson?, FileTree.readJson?, h.readText? hgone]

theorem readJson?_ids (h : layout.Purged S t t') :
    (t'.readJson? layout.ids : Option IdTable) = t.readJson? layout.ids :=
  h.readJson? (s := .ids) id

theorem readJson?_dependents (h : layout.Purged S t t') :
    (t'.readJson? layout.dependents : Option Dependents) = t.readJson? layout.dependents :=
  h.readJson? (s := .dependents) id

theorem readJson?_record (h : layout.Purged S t t') (id : CacheId) :
    (t'.readJson? (RecordTable.path layout.files id) : Option CacheRecord) =
      t.readJson? (RecordTable.path layout.files id) :=
  h.readJson? (s := .entry id .record) fun hnone => hnone

theorem readText?_marker (h : layout.Purged S t t') :
    t'.readText? layout.marker = t.readText? layout.marker :=
  h.readText? (s := .marker) fun hgone => (h.spoiled _ hgone).garbled

theorem read?_artifact (h : layout.Purged S t t') (debug : Bool) (id : CacheId) :
    ArtifactStore.read? ⟨layout.files, debug⟩ t' id =
      ArtifactStore.read? ⟨layout.files, debug⟩ t id := by
  rw [Slot.read?_artifact, Slot.read?_artifact,
    h.readText? (s := .entry id (.code debug)) fun hgone => (h.spoiled _ hgone).garbled,
    h.readText? (s := .entry id (.sourceMap debug)) fun hgone => (h.spoiled _ hgone).garbled]

theorem mirrors {α : Type} {x x' : α × FileTree} (h : layout.Purged S t t')
    (hx : Mirrors (Lacks (Gone t t') layout.Holder) x x') (hchanges : layout.Changes touched t x.2)
    (htouched : ∀ s, touched s → ¬Gone x.2 x'.2 (s.location layout)) :
    Mirrors (layout.Purged S) x x' :=
  ⟨hx.result, h.step hx.files hchanges htouched⟩

theorem prepare (h : layout.Purged S t t') {p : Path} (s : Slot)
    (hp : ∀ k, OnWay p.segments k → OnWay (s.dir layout).segments k) :
    Mirrors (layout.Purged S) (t.prepare p) (t'.prepare p) :=
  have hchanges : layout.Changes (fun _ => False) t (t.prepare p).2 :=
    changes_of_addsDirectories (addsDirectories_prepare (Prod.eta _).symm)
  h.mirrors (h.lacking.prepare fun k hk => h.avoids_dir s k (hp k hk)) hchanges
    fun _ => False.elim

private theorem not_gone_of_readText? {x : String} (h : t'.readText? (s.path layout) = some x) :
    ¬Gone t t' (s.location layout) := by
  rintro ⟨-, hnone⟩
  rw [Slot.readText?_path_eq_none (entry?_eq_none_iff.mp hnone).2] at h
  cases h

theorem replace (h : layout.Purged S t t') (s : Slot) (x : String) :
    Mirrors (layout.Purged S) (t.replace (s.path layout) (.ofString x))
      (t'.replace (s.path layout) (.ofString x)) := by
  have hboth := h.lacking.replace (h.avoids_dir s)
    (fun k hk => (h.exists_slot hk).imp fun _ => And.right) (.ofString x)
  obtain ⟨r, t₁, t₁', hleft, hright, -⟩ := hboth.parts
  rw [hleft, hright] at hboth ⊢
  cases r with
  | ok u =>
    refine h.mirrors hboth (Slot.changes_of_replace_ok hleft).1 ?_
    rintro _ rfl
    exact not_gone_of_readText? (Slot.changes_of_replace_ok hright).2
  | error e =>
    have hchanges : layout.Changes (fun _ => False) t t₁ := Slot.changes_of_replace_error hleft
    exact h.mirrors hboth hchanges fun _ => False.elim

theorem write (h : layout.Purged S t t') (x : String) :
    Matches (layout.Purged S) (t.write layout.marker (.ofString x))
      (t'.write layout.marker (.ofString x)) := by
  have hmarker : Avoids layout.marker.segments (Gone t t') := by
    rintro k ⟨front, hfront, rfl⟩ hgone
    rw [Slot.path_marker, Slot.segments_path] at hfront
    rcases List.prefix_concat_iff.mp hfront with rfl | hfront
    · rw [← Slot.segments_path] at hgone
      have hslot : Gone t t' (Slot.marker.location layout) := Slot.location_path layout .marker ▸ hgone
      exact (h.spoiled _ hslot).garbled
    · exact h.avoids_dir .marker _ ⟨front, hfront, rfl⟩ hgone
  have hboth := h.lacking.write hmarker (.ofString x)
  generalize hleft : t.write layout.marker (.ofString x) = y at *
  generalize t'.write layout.marker (.ofString x) = y' at *
  cases hboth with
  | error e => exact .error e
  | @ok t₁ t₁' hfiles =>
    refine .ok (h.step hfiles (Slot.changes_of_write (s := .marker) hleft).1 ?_)
    rintro _ rfl hgone
    exact (h.spoiled _ (hfiles.of_gone hgone)).garbled

theorem discard (h : layout.Purged S t t') (s : Slot) :
    layout.Purged S (t.discard (s.path layout)) (t'.discard (s.path layout)) ∧
      ¬Gone (t.discard (s.path layout)) (t'.discard (s.path layout)) (s.location layout) := by
  have hfiles : Lacks (Gone t t') layout.Holder (t.discard (s.path layout))
      (t'.discard (s.path layout)) := by
    refine h.lacking.discard ?_ fun _ => ⟨s.not_endsInSlash_path layout, ?_⟩
    · rw [Slot.segments_path, List.dropLast_concat]
      exact h.avoids_dir s
    · rw [Slot.holder_path]
      exact layout.holder_dir s
  have hgone : ¬Gone (t.discard (s.path layout)) (t'.discard (s.path layout))
      (s.location layout) := by
    intro hgone
    obtain ⟨hopen, hfits, -⟩ := h.spoiled s (hfiles.of_gone hgone)
    have hsome := hfiles.isSome_contentAt hgone
    rw [Slot.contentAt_discard_self hopen hfits] at hsome
    cases hsome
  refine ⟨h.step hfiles (Slot.changes_discard layout s t) ?_, hgone⟩
  rintro _ rfl
  exact hgone

theorem removeArtifact (h : layout.Purged S t t') (debug : Bool) (id : CacheId) :
    layout.Purged S (ArtifactStore.remove ⟨layout.files, debug⟩ t id)
      (ArtifactStore.remove ⟨layout.files, debug⟩ t' id) := by
  simp only [ArtifactStore.remove, Slot.path_code, Slot.path_sourceMap]
  exact ((h.discard _).1.discard _).1

theorem writeArtifact (h : layout.Purged S t t') (debug : Bool) (id : CacheId) (a : Artifact) :
    Mirrors (layout.Purged S) (ArtifactStore.write ⟨layout.files, debug⟩ t id a)
      (ArtifactStore.write ⟨layout.files, debug⟩ t' id a) := by
  rw [ArtifactStore.write, ArtifactStore.write, Slot.path_code, Slot.path_sourceMap]
  obtain ⟨r, t₁, t₁', hleft, hright, hfiles⟩ := (h.replace (.entry id (.code debug)) a.code).parts
  rw [hleft, hright]
  cases r with
  | error e => exact ⟨rfl, hfiles⟩
  | ok u =>
    cases a.sourceMap with
    | some sourceMap => exact hfiles.replace (.entry id (.sourceMap debug)) sourceMap
    | none => exact ⟨rfl, (hfiles.discard (.entry id (.sourceMap debug))).1⟩

private theorem mirrors_clearFiles {gone loose : Location → Prop} (h : Lacks gone loose t t')
    {ps : List Path} (hps : ∀ p ∈ ps, Avoids p.segments.dropLast gone ∧ p.endsInSlash = false ∧
      loose p.holder) : Mirrors (Lacks gone loose) (clearFiles t ps) (clearFiles t' ps) := by
  induction ps generalizing t t' with
  | nil => exact ⟨rfl, h⟩
  | cons p rest ih =>
    obtain ⟨⟨hp, hslash, hloose⟩, hrest⟩ := List.forall_mem_cons.mp hps
    rw [clearFiles, clearFiles]
    rcases h.removeFile_or hp fun _ => ⟨hslash, hloose⟩ with hboth | ⟨-, t₁, hleft, hright, hfiles⟩
    · generalize t.removeFile p = x at hboth
      generalize t'.removeFile p = x' at hboth
      cases hboth with
      | ok hfiles => exact ih hfiles hrest
      | error e =>
        cases e with
        | notFound => exact ih h hrest
        | _ => exact ⟨rfl, h⟩
    · rw [hleft, hright]
      exact ih hfiles hrest

theorem mirrors_clear (h : layout.Purged S t t') :
    Mirrors (Lacks (Gone t t') layout.Holder) (layout.clear t) (layout.clear t') := by
  have hslot (s : Slot) : Avoids (s.path layout).segments.dropLast (Gone t t') ∧
      (s.path layout).endsInSlash = false ∧ layout.Holder (s.path layout).holder := by
    rw [Slot.segments_path, List.dropLast_concat, Slot.holder_path]
    exact ⟨h.avoids_dir s, s.not_endsInSlash_path layout, layout.holder_dir s⟩
  have hparts : ∀ p ∈ [layout.marker, layout.ids, layout.dependents],
      Avoids p.segments.dropLast (Gone t t') ∧ p.endsInSlash = false ∧ layout.Holder p.holder := by
    simp only [List.forall_mem_cons]
    exact ⟨hslot .marker, hslot .ids, hslot .dependents, List.forall_mem_nil _⟩
  obtain ⟨r, t₁, t₁', hleft, hright, hfiles⟩ := (mirrors_clearFiles h.lacking hparts).parts
  rw [clear, clear, hleft, hright]
  cases r with
  | error e => exact ⟨rfl, hfiles⟩
  | ok u =>
    obtain ⟨r, t₂, t₂', hleft, hright, hfiles⟩ :=
      (hfiles.removeTree h.avoids_files (.inr rfl)).parts
    simp only [hleft, hright]
    rcases r with e | u
    · cases e <;> exact ⟨rfl, hfiles⟩
    · exact ⟨rfl, hfiles⟩

theorem clear_ok (h : layout.Purged S t t') (hok : (layout.clear t).1 = .ok ()) :
    layout.Purged S (layout.clear t).2 (layout.clear t').2 ∧
      ∀ k, ¬Gone (layout.clear t).2 (layout.clear t').2 k := by
  have hfiles := h.mirrors_clear.files
  have hgone (k : Location) : ¬Gone (layout.clear t).2 (layout.clear t').2 k := by
    intro hk
    obtain ⟨s, -, rfl⟩ := h.exists_slot (hfiles.of_gone hk)
    have hopen := (h.spoiled s (hfiles.of_gone hk)).isOpen
    have hsome := hfiles.isSome_contentAt hk
    rw [(contentAt_of_clear hopen (Prod.ext hok rfl)).1 s] at hsome
    cases hsome
  exact ⟨⟨hfiles.of_forall fun k hk => absurd hk (hgone k), fun s hs => absurd hs (hgone _),
    (confined_clear (Prod.eta _).symm).housed h.housed⟩, hgone⟩

/-- Names that are lacking are passed over, for they are live. -/
private theorem mirrors_collectNames {gone loose : Location → Prop} (h : Lacks gone loose t t')
    (hway : Avoids layout.files.segments gone) (debug : Bool) (live : List CacheId)
    (there : Name → Bool) {names : List Name} (hplain : ∀ n ∈ names, Plain n)
    (hthere : ∀ n ∈ names, there n = true → ¬gone (n :: layout.files.location))
    (hlive : ∀ n ∈ names, there n = false → ∀ text, Bytes.text? n = some text →
      ArtifactStore.isLiveName live text = true) (count : Nat) :
    Mirrors (Lacks gone loose)
      (ArtifactStore.collectNames ⟨layout.files, debug⟩ live count t names)
      (ArtifactStore.collectNames ⟨layout.files, debug⟩ live count t' (names.filter there)) := by
  induction names generalizing t t' count with
  | nil => exact ⟨rfl, h⟩
  | cons n names ih =>
    obtain ⟨hn, hplain⟩ := List.forall_mem_cons.mp hplain
    obtain ⟨hgone, hthere⟩ := List.forall_mem_cons.mp hthere
    obtain ⟨hskip, hlive⟩ := List.forall_mem_cons.mp hlive
    have hrest {t t' : FileTree} (h : Lacks gone loose t t') (count : Nat) :=
      ih h hplain hthere hlive count
    cases hpresent : there n with
    | false =>
      rw [List.filter_cons_of_neg (by simp [hpresent]), ArtifactStore.collectNames]
      cases htext : Bytes.text? n with
      | none => exact hrest h count
      | some text =>
        simp only [hskip hpresent text htext, Bool.true_or, if_true]
        exact hrest h count
    | true =>
      have hp : Avoids (layout.files.join ⟨n⟩).segments gone := by
        rintro k ⟨front, hfront, rfl⟩ hk
        rw [hn.segments_join] at hfront
        rcases List.prefix_concat_iff.mp hfront with rfl | hfront
        · rw [← hn.segments_join] at hk
          exact hgone hpresent (hn.location_join layout.files ▸ hk)
        · exact hway _ ⟨front, hfront, rfl⟩ hk
      rw [List.filter_cons_of_pos hpresent, ArtifactStore.collectNames, ArtifactStore.collectNames]
      cases htext : Bytes.text? n with
      | none => exact hrest h count
      | some text =>
        have hboth := h.removeFile hp
        simp only [h.isFile hp]
        split
        · exact hrest h count
        · generalize t.removeFile (layout.files.join ⟨n⟩) = x at hboth
          generalize t'.removeFile (layout.files.join ⟨n⟩) = x' at hboth
          cases hboth with
          | ok hfiles => exact hrest hfiles (count + 1)
          | error e => exact ⟨rfl, h⟩

/-- A collection counts the same in both, if the ids of all records that are lacking are live. -/
theorem collect (h : layout.Purged S t t') (debug : Bool) {live : List CacheId}
    (hlive : ∀ id, Gone t t' ((Slot.entry id .record).location layout) → id ∈ live) :
    Mirrors (layout.Purged S) (ArtifactStore.collect ⟨layout.files, debug⟩ t live)
      (ArtifactStore.collect ⟨layout.files, debug⟩ t' live) := by
  have hrecord {n : Name} (hgone : Gone t t' (n :: layout.files.location)) :
      ∃ id, n = Bytes.ofString (Slot.entry id .record).name ∧ id ∈ live := by
    obtain ⟨s, -, hs⟩ := h.exists_slot hgone
    rw [hs] at hgone
    have hgarbled := (h.spoiled s hgone).garbled
    obtain ⟨rfl, hdir⟩ := List.cons.inj hs
    cases s with
    | entry id part =>
      cases part with
      | record => exact ⟨id, rfl, hlive id hgone⟩
      | code | sourceMap => exact hgarbled.elim
    | _ =>
      rw [Slot.location_files] at hdir
      simpa [Slot.dir] using congrArg List.length hdir
  have hboth : Mirrors (Lacks (Gone t t') layout.Holder)
      (ArtifactStore.collect ⟨layout.files, debug⟩ t live)
      (ArtifactStore.collect ⟨layout.files, debug⟩ t' live) := by
    rw [ArtifactStore.collect, ArtifactStore.collect, h.lacking.locate h.avoids_files]
    cases hl : t.locate layout.files with
    | error e => exact ⟨rfl, h.lacking⟩
    | ok l =>
      obtain rfl := location_of_locate hl
      simp only [h.lacks.isDirectoryAt]
      split
      · rw [h.lacks.childrenAt]
        refine mirrors_collectNames h.lacking h.avoids_files debug live _ (fun n hn => ?_)
          (fun n hn hthere hgone => ?_) (fun n hn hthere text htext => ?_) 0
        · exact h.housed n (entry?_isSome_of_mem_childrenAt hn)
        · rw [hgone.2] at hthere
          cases hthere
        · have hgone : Gone t t' (n :: layout.files.location) :=
            ⟨entry?_isSome_of_mem_childrenAt hn, by simpa using hthere⟩
          obtain ⟨id, rfl, hid⟩ := hrecord hgone
          rw [Bytes.text?_ofString, Option.some.injEq] at htext
          rw [← htext, Slot.isLiveName_name]
          exact List.contains_iff_mem.mpr hid
      · exact ⟨rfl, h.lacking⟩
  refine h.mirrors hboth (changes_of_collect h.housed (Prod.eta _).symm).1 ?_
  rintro s ⟨id, part, rfl, hid⟩ hgone
  have hbefore := hboth.files.of_gone hgone
  have hgarbled := (h.spoiled _ hbefore).garbled
  cases part with
  | record => exact hid (hlive id hbefore)
  | code | sourceMap => exact hgarbled

end Purged

end Layout

end BuildCache
