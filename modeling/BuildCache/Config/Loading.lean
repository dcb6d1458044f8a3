import BuildCache.Config.Validation
import BuildCache.FileTree.Basic
import BuildCache.Toml.Reader

/-!
# Loading a configuration

A project's configuration is a TOML file in its root directory. A project without one has the
defaults.
-/

namespace BuildCache

inductive ConfigError where
  | unreadable (cause : FileError)
  | notText
  | malformed
  | invalid (violation : Violation)
deriving DecidableEq

/-- What an error says; of a malformed file it says nothing more. -/
def ConfigError.message? : ConfigError → Option String
  | .unreadable cause => some ("failed to read configuration: " ++ cause.message)
  | .notText => some "failed to read configuration: stream did not contain valid UTF-8"
  | .malformed => none
  | .invalid violation => some ("validation error: " ++ violation.message)

namespace Toml

/-- The key under which a date-time read as a table has its text. -/
def dateTimeKey : String := "$__toml_private_datetime"

/-- The entries of a table. -/
def entries? : Toml → Option Fields
  | .table _ fields => some fields
  | .dateTime text => some [(dateTimeKey, .string text)]
  | _ => none

/-- The values of the named fields of a record, given as a table or in order as an array. -/
def fields? (names : List String) : Toml → Option (List (Option Toml))
  | .array items => some (names.zipIdx.map fun (_, i) => items[i]?)
  | .tables items => some (names.zipIdx.map fun (_, i) => items[i]?.map (.table .header))
  | v => v.entries?.map fun fields => names.map (lookup · fields)

def string? : Toml → Option String
  | .string text => some text
  | _ => none

def boolean? : Toml → Option Bool
  | .boolean b => some b
  | _ => none

def strings? : Toml → Option (List String)
  | .array items => items.mapM string?
  | _ => none

/-- Reads a setting that may be missing. -/
def setting {α : Type} (read? : Toml → Option α) (default : α) : Option Toml → Option α
  | none => some default
  | some v => read? v

end Toml

namespace CacheSettings

def ofToml? (v : Toml) : Option CacheSettings := do
  match ← v.fields? ["dir", "debug"] with
  | [dir, debug] =>
    return {
      dir := ← Toml.setting (fun v => v.string?.map .ofString) ({} : CacheSettings).dir dir
      debug := ← Toml.setting Toml.boolean? ({} : CacheSettings).debug debug }
  | _ => none

end CacheSettings

namespace ResolveRules

def aliasesOfToml? (v : Toml) : Option (OrderedMap String String) := do
  let entries ← (← v.entries?).mapM fun (key, v) => v.string?.map (key, ·)
  return .ofList entries

def ofToml? (v : Toml) : Option ResolveRules := do
  let standard : ResolveRules := {}
  match ← v.fields? ["extensions", "alias", "modules", "main_files", "main_fields"] with
  | [extensions, aliases, modules, mainFiles, mainFields] =>
    return {
      extensions := ← Toml.setting Toml.strings? standard.extensions extensions
      aliases := ← Toml.setting aliasesOfToml? standard.aliases aliases
      modules := ← Toml.setting Toml.strings? standard.modules modules
      mainFiles := ← Toml.setting Toml.strings? standard.mainFiles mainFiles
      mainFields := ← Toml.setting Toml.strings? standard.mainFields mainFields }
  | _ => none

end ResolveRules

namespace ProjectConfig

def ofToml? (root : Path) (fields : Toml.Fields) : Option ProjectConfig := do
  return {
    root := root
    cache := ← Toml.setting CacheSettings.ofToml? {} (Toml.lookup "cache" fields)
    resolve := ← Toml.setting ResolveRules.ofToml? {} (Toml.lookup "resolve" fields) }

/-- Reads and validates the text of a configuration file. -/
def parse (text : String) (root : Path) : Except ConfigError ProjectConfig :=
  match (Toml.parse? text).bind (ofToml? root) with
  | none => .error .malformed
  | some c =>
    match c.violation? with
    | some v => .error (.invalid v)
    | none => .ok c

def fileName : String := "kiln.toml"

/-- The configuration of the project in a directory. -/
def load (t : FileTree) (root : Path) : Except ConfigError ProjectConfig :=
  let file := root.joinString fileName
  match t.stat file with
  | .error _ => .ok { root := root }
  | .ok _ =>
    match t.read file with
    | .error e => .error (.unreadable e)
    | .ok content =>
      match content.text? with
      | none => .error .notText
      | some text => parse text root

end ProjectConfig

end BuildCache
