import BuildCache.Proofs.FileTree.Lookup
import BuildCache.Proofs.Path.Text
import BuildCache.Store.Artifact
import BuildCache.Store.Layout
import BuildCache.Store.Table

/-!
# The files of a cache directory

Every file of the layout has a plain name, and no two of them share a location: ids have no dot, so
a name tells its id and what it holds of it.
-/

namespace BuildCache

theorem Path.plain_ofString {s : String} (hne : s ≠ "") (hslash : '/' ∉ s.toList) (hdot : s ≠ ".")
    (hdots : s ≠ "..") : Path.Plain (Bytes.ofString s) where
  ne_nil h := hne (Bytes.ofString_injective (h.trans (by decide : [] = Bytes.ofString "")))
  noSlash h := hslash (Bytes.slash_mem_ofString h)
  ne_dot h := hdot (Bytes.ofString_injective (h.trans (by decide : dot = Bytes.ofString ".")))
  ne_dotDot h :=
    hdots (Bytes.ofString_injective (h.trans (by decide : dotDot = Bytes.ofString "..")))

theorem Bytes.ofString_append (a b : String) :
    Bytes.ofString (a ++ b) = Bytes.ofString a ++ Bytes.ofString b := by
  simp [Bytes.ofString, String.toUTF8]

theorem Path.withSuffix_joinString (base : Path) {s suffix : String}
    (hs : (ofString s).isAbsolute = false) (hsuffix : (ofString (s ++ suffix)).isAbsolute = false) :
    (base.joinString s).withSuffix suffix = base.joinString (s ++ suffix) := by
  rw [joinString, joinString, join, join, hs, hsuffix, if_neg Bool.false_ne_true,
    if_neg Bool.false_ne_true, withSuffix, ofString, ofString, Bytes.ofString_append]
  by_cases hb : (base.bytes.isEmpty || base.endsInSlash) = true
  · rw [if_pos hb, if_pos hb, List.append_assoc]
  · rw [if_neg hb, if_neg hb, List.append_assoc, List.cons_append]

/-- What is kept of an id. -/
inductive Part where
  | record
  | code (debug : Bool)
  | sourceMap (debug : Bool)
deriving DecidableEq

/-- A file of the layout. -/
inductive Slot where
  | marker
  | ids
  | dependents
  | entry (id : CacheId) (part : Part)
deriving DecidableEq

namespace Part

def suffix : Part → String
  | record => ".json"
  | code true => ".js"
  | code false => ""
  | sourceMap true => ".js.map"
  | sourceMap false => ".map"

theorem suffix_injective {p q : Part} (h : p.suffix = q.suffix) : p = q := by
  revert h
  rcases p with _ | (_ | _) | (_ | _) <;> rcases q with _ | (_ | _) | (_ | _) <;> simp [suffix]

theorem slash_not_mem_suffix (p : Part) : '/' ∉ p.suffix.toList := by
  rcases p with _ | (_ | _) | (_ | _) <;> decide

theorem suffix_eq_nil_or (p : Part) :
    p.suffix.toList = [] ∨ ∃ rest, p.suffix.toList = '.' :: rest := by
  rcases p with _ | (_ | _) | (_ | _)
  · exact .inr ⟨"json".toList, by decide⟩
  · exact .inl (by decide)
  · exact .inr ⟨"js".toList, by decide⟩
  · exact .inr ⟨"map".toList, by decide⟩
  · exact .inr ⟨"js.map".toList, by decide⟩

end Part

namespace CacheId

theorem isAlphanum_of_mem {id : CacheId} {c : Char} (h : c ∈ id.text.toList) :
    c.isAlphanum = true := by
  have hvalid := id.valid
  simp only [Bool.and_eq_true, List.all_eq_true] at hvalid
  exact hvalid.2 c h

theorem text_ne_nil (id : CacheId) : id.text.toList ≠ [] := by
  have hvalid := id.valid
  simp only [Bool.and_eq_true, Bool.not_eq_true', List.isEmpty_eq_false_iff] at hvalid
  exact hvalid.1

theorem ext_text {id id' : CacheId} (h : id.text = id'.text) : id = id' := by
  cases id
  cases id'
  simpa using h

theorem compare_eq_iff {id id' : CacheId} : compare id id' = .eq ↔ id = id' := by
  have hcompare : compare id id' = compare id.text id'.text := rfl
  rw [hcompare, Std.LawfulEqCmp.compare_eq_iff_eq]
  exact ⟨ext_text, congrArg text⟩

theorem get?_insert {α : Type} (m : OrderedMap CacheId α) (id id' : CacheId) (a : α) :
    (m.insert id a).get? id' = if id' = id then some a else m.get? id' := by
  rw [OrderedMap.get?_insert]
  by_cases h : id' = id
  · rw [if_pos h, if_pos (compare_eq_iff.mpr h)]
  · rw [if_neg h, if_neg (mt compare_eq_iff.mp h)]

theorem get?_erase {α : Type} (m : OrderedMap CacheId α) (id id' : CacheId) :
    (m.erase id).get? id' = if id' = id then none else m.get? id' := by
  simp only [OrderedMap.get?_erase, compare_eq_iff]

end CacheId

namespace Slot

/-- The name of a file of the layout in its directory. -/
def name : Slot → String
  | marker => "version"
  | ids => "cache_id_map.json"
  | dependents => "dependents_data.json"
  | entry id part => id.text ++ part.suffix

/-- The directory that holds a file of the layout. -/
def dir (layout : Layout) : Slot → Path
  | entry _ _ => layout.files
  | _ => layout.dir

def path (layout : Layout) (s : Slot) : Path := (s.dir layout).joinString s.name

def location (layout : Layout) (s : Slot) : Location :=
  Bytes.ofString s.name :: (s.dir layout).location

/-- The part of a name before its first dot is its id. -/
theorem takeWhile_name (id : CacheId) (part : Part) :
    (name (entry id part)).toList.takeWhile (· != '.') = id.text.toList := by
  have hid : ∀ c ∈ id.text.toList, (c != '.') = true := by
    intro c hc
    rw [bne_iff_ne]
    rintro rfl
    exact absurd (CacheId.isAlphanum_of_mem hc) (by decide)
  rw [name, String.toList_append, List.takeWhile_append_of_pos hid]
  rcases part.suffix_eq_nil_or with h | ⟨rest, h⟩ <;> simp [h]

theorem entry_injective {id id' : CacheId} {part part' : Part}
    (h : name (entry id part) = name (entry id' part')) : id = id' ∧ part = part' := by
  have hid : id = id' := by
    apply CacheId.ext_text
    rw [← String.toList_inj, ← takeWhile_name id part, ← takeWhile_name id' part', h]
  refine ⟨hid, Part.suffix_injective ?_⟩
  have hlist := congrArg String.toList h
  rw [name, name, String.toList_append, String.toList_append, hid,
    List.append_cancel_left_eq] at hlist
  exact String.toList_inj.mp hlist

theorem slash_not_mem_name (s : Slot) : '/' ∉ s.name.toList := by
  cases s with
  | entry id part =>
    rw [name, String.toList_append, List.mem_append, not_or]
    refine ⟨fun h => ?_, part.slash_not_mem_suffix⟩
    exact absurd (CacheId.isAlphanum_of_mem h) (by decide)
  | _ => decide

theorem plain_name (s : Slot) : Path.Plain (Bytes.ofString s.name) := by
  cases s with
  | marker => exact Path.plain_ofString (by decide) (by decide) (by decide) (by decide)
  | ids => exact Path.plain_ofString (by decide) (by decide) (by decide) (by decide)
  | dependents => exact Path.plain_ofString (by decide) (by decide) (by decide) (by decide)
  | entry id part =>
    obtain ⟨c, rest, hid⟩ := List.exists_cons_of_ne_nil id.text_ne_nil
    have hc : c.isAlphanum = true := CacheId.isAlphanum_of_mem (hid ▸ List.mem_cons_self)
    have hlist : (name (entry id part)).toList = c :: (rest ++ part.suffix.toList) := by
      rw [name, String.toList_append, hid, List.cons_append]
    have hother (s : String) (hs : s.toList.head?.any Char.isAlphanum = false) :
        name (entry id part) ≠ s := by
      rintro rfl
      rw [hlist, List.head?_cons, Option.any_some, hc] at hs
      contradiction
    exact Path.plain_ofString (hother "" (by decide)) (slash_not_mem_name _) (hother "." (by decide))
      (hother ".." (by decide))

theorem segments_path (layout : Layout) (s : Slot) :
    (s.path layout).segments = (s.dir layout).segments ++ [Bytes.ofString s.name] :=
  s.plain_name.segments_join _

theorem not_endsInSlash_path (layout : Layout) (s : Slot) :
    (s.path layout).endsInSlash = false :=
  s.plain_name.not_endsInSlash_join _

theorem plain_files : Path.Plain (Bytes.ofString "files") :=
  Path.plain_ofString (by decide) (by decide) (by decide) (by decide)

theorem location_files (layout : Layout) :
    layout.files.location = Bytes.ofString "files" :: layout.dir.location :=
  plain_files.location_join _

theorem segments_files (layout : Layout) :
    layout.files.segments = layout.dir.segments ++ [Bytes.ofString "files"] :=
  plain_files.segments_join _

theorem dir_location_suffix_dir (layout : Layout) (s : Slot) :
    layout.dir.location <:+ (s.dir layout).location := by
  cases s with
  | entry id part =>
    rw [dir, location_files]
    exact List.suffix_cons _ _
  | _ => exact List.suffix_refl _

theorem location_injective {layout : Layout} {s s' : Slot}
    (h : s.location layout = s'.location layout) : s = s' := by
  obtain ⟨hname, hdir⟩ := List.cons.inj h
  have hname := Bytes.ofString_injective hname
  have hlen := congrArg List.length hdir
  cases s with
  | entry id part =>
    cases s' with
    | entry id' part' =>
      obtain ⟨rfl, rfl⟩ := entry_injective hname
      rfl
    | _ => simp [dir, location_files] at hlen
  | _ =>
    cases s' with
    | entry id' part' => simp [dir, location_files] at hlen
    | _ => first | rfl | simp [name] at hname

theorem path_marker (layout : Layout) : layout.marker = marker.path layout := rfl

theorem path_ids (layout : Layout) : layout.ids = ids.path layout := rfl

theorem path_dependents (layout : Layout) : layout.dependents = dependents.path layout := rfl

theorem path_record (layout : Layout) (id : CacheId) :
    RecordTable.path layout.files id = (entry id .record).path layout := rfl

theorem path_code (layout : Layout) (debug : Bool) (id : CacheId) :
    ArtifactStore.path ⟨layout.files, debug⟩ id = (entry id (.code debug)).path layout := by
  cases debug <;> simp [ArtifactStore.path, path, dir, name, Part.suffix]

theorem path_sourceMap (layout : Layout) (debug : Bool) (id : CacheId) :
    ArtifactStore.sourceMapPath ⟨layout.files, debug⟩ id =
      (entry id (.sourceMap debug)).path layout := by
  have hname : name (entry id (.sourceMap debug)) = name (entry id (.code debug)) ++ ".map" := by
    cases debug <;> simp [name, Part.suffix, String.append_assoc]
  rw [ArtifactStore.sourceMapPath, path_code, path, path, hname, dir, dir]
  refine Path.withSuffix_joinString _ (plain_name _).not_isAbsolute ?_
  rw [← hname]
  exact (plain_name _).not_isAbsolute

end Slot

end BuildCache
