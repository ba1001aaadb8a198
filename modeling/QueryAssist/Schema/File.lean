import QueryAssist.Files.Tree
import QueryAssist.Schema.Source

/-! # Schema files

A schema is kept in a file: as its description in JSON, or else as its definitions. Main
definitions:

* **`SchemaFile`** — the file, and **`SchemaFile.named`** — the file of a written path.
* **`SchemaFile.text`** — its text.
* **`SchemaFile.load`** — its schema. -/

namespace QueryAssist

/-- Why a file gives **no schema**. -/
inductive SchemaFileError where
  /-- The file is in a home folder that is not known. -/
  | unknownHome
  /-- The file at a path cannot be read. -/
  | unreadable (p : Path) (e : FileError)
  /-- The file is not a text. -/
  | notText
  /-- The text gives no schema. -/
  | source (e : SchemaError)
  deriving DecidableEq, Repr, Inhabited

/-- The message for an error. A file that cannot be named or is not a text has none, and neither has
every fault of a source. -/
def SchemaFileError.message? : SchemaFileError → Option String
  | unknownHome => none
  | unreadable _ .unusable => none
  | unreadable p e => some ("Cannot read schema file '" ++ p.render ++ "': " ++ e.message p.render)
  | notText => none
  | source e => e.message?

/-- A **schema file**. -/
structure SchemaFile where
  /-- Its path. -/
  path : Path
  deriving DecidableEq, Repr, Inhabited

namespace SchemaFile

/-- The file of a written path, in which a tilde stands for a home folder. -/
def named (homes : Homes) (text : String) : Except SchemaFileError SchemaFile :=
  match (Path.ofText text).expandHome? homes with
  | some p => .ok ⟨p⟩
  | none => .error .unknownHome

/-- Whether the file holds a description in JSON. Its name tells. -/
def isDescription (f : SchemaFile) : Bool := f.path.hasSuffix ".json"

/-- The **text** of the file. -/
def text (f : SchemaFile) (t : FileTree) : Except SchemaFileError (List Char) :=
  match t.read f.path with
  | .error e => .error (.unreadable f.path e)
  | .ok content =>
    match FileTree.textOf content with
    | some cs => .ok cs
    | none => .error .notText

/-- What is reported once the text is read. -/
def report (f : SchemaFile) : String :=
  (if f.isDescription then "Loading introspection schema from " else "Loading SDL schema from ") ++
    f.path.render

/-- The schema that a text gives, as the name of the file wants it read. -/
def schemaOf (f : SchemaFile) (cs : List Char) (r : SchemaReader := {}) :
    Except SchemaFileError Schema :=
  match if f.isDescription then Schema.ofDescription cs r else Schema.ofDefinitions cs r with
  | .ok s => .ok s
  | .error e => .error (.source e)

/-- The **schema** in the file. -/
def load (f : SchemaFile) (t : FileTree) (r : SchemaReader := {}) :
    Except SchemaFileError Schema := do
  f.schemaOf (← f.text t) r

end SchemaFile

end QueryAssist
