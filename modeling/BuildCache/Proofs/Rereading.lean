import BuildCache.Proofs.Record.RoundTrip
import BuildCache.Proofs.Workspace.Writable

/-!
# Tables and records on disk

A file that a table or a record was written to reads back as the same table or record: every key and
member in its spelling and in its place, every value that is there, and none that is missing. Where
all paths are text, the files are all that can fail.
-/

namespace BuildCache

open FileTree TextForm BuildCache.Path

namespace FileTree

variable {α : Type} [JsonForm α] {a : α} {pretty : Bool} {t t' : FileTree} {p : Path}

theorem readText?_of_writeJson (h : t.writeJson pretty p a = (.ok (), t')) :
    ∃ text, JsonForm.render? pretty a = some text ∧ t'.readText? p = some text := by
  rw [writeJson] at h
  split at h
  · simp at h
  · split at h
    · simp at h
    · next text hrender =>
      refine ⟨text, hrender, ?_⟩
      rw [readText?, read_of_replace h]
      exact Bytes.text?_ofString text

theorem readJson?_of_writeJson [LawfulForm α] (h : t.writeJson pretty p a = (.ok (), t')) :
    t'.readJson? p = some a := by
  obtain ⟨text, hrender, hread⟩ := readText?_of_writeJson h
  rw [readJson?, hread, Option.bind_some, JsonForm.parse?_render? hrender]

end FileTree

/-- The value can be written in either layout, and reads back from what was written: from the text,
and from the file at any path where the files let it be written. -/
structure Rereads {α : Type} [JsonForm α] (a : α) : Prop where
  text : ∀ pretty, ∃ text, JsonForm.render? pretty a = some text ∧ JsonForm.parse? text = some a
  file : ∀ {t t' : FileTree} {pretty : Bool} {p : Path},
    t.writeJson pretty p a = (.ok (), t') → t'.readJson? p = some a
  error : ∀ {t t' : FileTree} {pretty : Bool} {p : Path} {e : StoreError},
    t.writeJson pretty p a = (.error e, t') → e.IsIo

theorem rereads_of_textual {α : Type} [JsonForm α] [LawfulForm α] [TextForm α] {a : α}
    (h : Textual a) : Rereads a where
  text pretty := by
    obtain ⟨text, htext⟩ := Option.isSome_iff_exists.mp (JsonForm.isSome_render?_iff.mpr h)
    exact ⟨text, htext, JsonForm.parse?_render? htext⟩
  file := readJson?_of_writeJson
  error := isIo_of_writeJson h

/-- The tables and the records whose paths are all text read back. -/
theorem rereads_of_text :
    (∀ ids : IdTable, (∀ p ∈ ids.keys, p.IsText) → Rereads ids) ∧
      (∀ dependents : Dependents, (∀ p ∈ dependents.keys, p.IsText) →
        (∀ files ∈ dependents.values, ∀ p ∈ files.toList, p.IsText) → Rereads dependents) ∧
      ∀ record : CacheRecord, (∀ p ∈ record.dependencyPaths, p.IsText) → Rereads record := by
  refine ⟨fun ids h => ?_, fun dependents h hfiles => ?_, fun record h => rereads_of_textual h⟩
  · have htextual : Textual ids := ⟨h, fun _ _ => trivial⟩
    exact rereads_of_textual htextual
  · have htextual : Textual dependents := ⟨h, hfiles⟩
    exact rereads_of_textual htextual

namespace Odd

def spelled : Path := .ofString "/s/.//\"q\"\\\u0001\n\té→.js"

def relative : Path := .ofString "../s/./"

def ids : IdTable := .ofList [(spelled, .forPath spelled), (relative, .forPath relative)]

def dependents : Dependents := .ofList [(relative, .ofList [spelled, relative]), (spelled, .empty)]

/-- The record has the largest time, and dependencies with and without hash and time. -/
def record : CacheRecord where
  stamp := ⟨.ofBytes [], 18446744073709551615⟩
  fingerprint := "a@1\u0000\"→\n"
  dependencies := some (.ofList [(spelled, ⟨none, some 0⟩), (relative, ⟨some (.ofBytes []), none⟩),
    (.ofString "", ⟨none, none⟩)])

def place : Path := .ofString "cache/files/a.json"

end Odd

theorem rereads_of_odd :
    Rereads Odd.ids ∧ Rereads Odd.dependents ∧ Rereads Odd.record ∧
      ∃ t', (FileTree.empty 0).writeJson true Odd.place Odd.record = (.ok (), t') ∧
        t'.readJson? Odd.place = some Odd.record := by
  obtain ⟨hids, hdependents, hrecords⟩ := rereads_of_text
  have htext {ps : List Path} (h : ∀ p ∈ ps, p.text?.isSome = true) : ∀ p ∈ ps, p.IsText :=
    fun p hp => isText_iff_text?.mpr (h p hp)
  have hrecord := hrecords Odd.record (htext (by decide +kernel))
  have hwritten : ((FileTree.empty 0).writeJson true Odd.place Odd.record).1 = .ok () := by
    rw [eq_ok_iff_toOption]
    decide +kernel
  have hfiles : ∀ files ∈ Odd.dependents.values, ∀ p ∈ files.toList, p.text?.isSome = true := by
    decide +kernel
  exact ⟨hids _ (htext (by decide +kernel)),
    hdependents _ (htext (by decide +kernel)) fun files hmem => htext (hfiles files hmem), hrecord,
    _, Prod.ext hwritten rfl, hrecord.file (Prod.ext hwritten rfl)⟩

end BuildCache
