import QueryAssist.Files.Tree
import QueryAssist.Json.Read
import QueryAssist.Json.Write
import QueryAssist.Settings.Basic

/-! # The settings store

Settings are kept as a JSON object in a file. Main definitions:

* **`SettingsStore`** — the file.
* **`SettingsStore.load`**, **`SettingsStore.save`** — read and write all settings.
* **`SettingsStore.get`**, **`SettingsStore.set`**, **`SettingsStore.delete`** — single settings. -/

namespace QueryAssist

/-- Why the store **cannot do** something. -/
inductive StoreError where
  /-- A value is not accepted. -/
  | setting (e : SettingsError)
  /-- The file cannot be read or written. -/
  | file (e : FileError)
  /-- The file is not a text. -/
  | notText
  /-- The file is beyond a limit of the reader. -/
  | limit (f : JsonFault)
  deriving DecidableEq, Repr, Inhabited

/-- A **settings store** is a file. -/
structure SettingsStore where
  /-- The path of the file. -/
  path : Path
  deriving DecidableEq, Repr, Inhabited

/-- What the store does with a file tree. -/
abbrev Stored := EStateM StoreError FileTree

namespace Settings

/-- The settings in a JSON value: of an object those members that have the name of a setting and a
text for it. Anything else is no setting. -/
def ofJson (v : JsonValue) : Settings :=
  (v.members?.getD []).filterMap fun (key, v) =>
    match Setting.ofName? key, v with
    | some s, .string text => some (s, text)
    | _, _ => none

/-- The settings as a JSON object. -/
def toJson (ss : Settings) : JsonValue := .object (ss.map fun (s, value) => (s.name, .string value))

/-- The settings that a text writes; a text that is no JSON writes none. One that is beyond a limit
of the reader may be JSON or not. -/
def ofText (text : List Char) : Except JsonFault Settings :=
  match JsonValue.read text with
  | .ok v => .ok (ofJson v)
  | .error e => if e.fault.isLimit then .error e.fault else .ok []

/-- The text of the settings. -/
def toText (ss : Settings) : String := String.ofList ss.toJson.write

end Settings

namespace SettingsStore

/-- The usual store in a folder. -/
def usual (folder : Path) : SettingsStore :=
  ⟨{ folder with names := folder.names ++ ["settings.json"] }⟩

/-- The store that the environment names, in which a tilde stands for a home folder, or else the
usual one. There is none in a home that is not known. -/
def choose? (homes : Homes) (folder : Path) (named : Option String) : Option SettingsStore :=
  let text := String.ofList (strip (named.getD "").toList)
  if text.isEmpty then some (usual folder)
  else ((Path.ofText text).expandHome? homes).map fun p => ⟨p⟩

/-- The settings in a file tree. Without the file there are none. -/
def loadFrom (s : SettingsStore) (t : FileTree) : Except StoreError Settings :=
  match t.read s.path with
  | .error .missing => .ok []
  | .error e => .error (.file e)
  | .ok content =>
    match FileTree.textOf content with
    | some text => (Settings.ofText text).mapError .limit
    | none => .error .notText

/-- **Load** the saved settings. -/
def load (s : SettingsStore) : Stored Settings := do
  match s.loadFrom (← get) with
  | .ok ss => pure ss
  | .error e => throw e

/-- Write some settings to the file. -/
def store (s : SettingsStore) (ss : Settings) : Stored Unit := fun t =>
  match Disk.replace s.path ss.toText.toUTF8 t with
  | .ok _ t => .ok () t
  | .error e t => .error (.file e) t

/-- **Save** some settings in place of the saved ones, if all their values are accepted. -/
def save (s : SettingsStore) (pairs : List (String × String)) : Stored Unit := do
  match Settings.ofPairs pairs with
  | .ok ss => s.store ss
  | .error e => throw (.setting e)

/-- The settings by their names. -/
def pairsOf (ss : Settings) : List (String × String) := ss.map fun (s, value) => (s.name, value)

/-- The value of a setting, or its default. There is none for an unknown name. -/
def get (s : SettingsStore) (name : String) : Stored (Option String) := do
  let ss ← s.load
  pure ((Setting.ofName? name).bind ss.valueOr)

/-- **Set** one setting. The saved ones must be acceptable too. -/
def set (s : SettingsStore) (name value : String) : Stored Unit := do
  match Setting.check name value with
  | .ok setting =>
    let ss ← s.load
    s.save (pairsOf (ss.put setting value))
  | .error e => throw (.setting e)

/-- **Delete** one setting, and tell whether it was saved. -/
def delete (s : SettingsStore) (name : String) : Stored Bool := do
  let ss ← s.load
  match Setting.ofName? name with
  | none => pure false
  | some setting =>
    if (ss.get? setting).isNone then pure false
    else
      s.save (pairsOf (ss.erase setting))
      pure true

end SettingsStore

end QueryAssist
