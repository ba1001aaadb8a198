import QueryAssist.Entries
import QueryAssist.Text.Blank

/-! # Settings

The settings that can be saved, and the values that they accept. Main definitions:

* **`Setting`** — the known settings, with their defaults.
* **`SettingsError`** — why a value is not accepted.
* **`Setting.check`** — the setting of a name, if it accepts a value.
* **`Settings`** — some settings with their values. -/

namespace QueryAssist

/-- The known **settings**. -/
inductive Setting where
  /-- Where the schema is. -/
  | schemaPath
  /-- How suggestions are printed. -/
  | outputFormat
  deriving DecidableEq, Repr, Inhabited

namespace Setting

/-- All settings, in the order in which they are listed. -/
def all : List Setting := [schemaPath, outputFormat]

/-- The name of a setting. -/
def name : Setting → String
  | schemaPath => "schema_path"
  | outputFormat => "output_format"

/-- The setting of a given name. -/
def ofName? (n : String) : Option Setting := all.find? fun s => s.name == n

/-- The value of a setting that is not saved. -/
def default : Setting → Option String
  | schemaPath => none
  | outputFormat => some "table"

@[simp] theorem ofName?_name (s : Setting) : ofName? s.name = some s := by cases s <;> decide

end Setting

/-- The ways to print suggestions. -/
def outputFormats : List String := ["table", "json"]

/-- Why a value is **not accepted**. -/
inductive SettingsError where
  /-- There is no setting of that name. -/
  | unknown (name : String)
  /-- The output format is none of the known ones. -/
  | format
  /-- The path of the schema is blank. -/
  | blankPath
  deriving DecidableEq, Repr, Inhabited

/-- The message for an error. -/
def SettingsError.message : SettingsError → String
  | unknown name =>
    "Unknown setting '" ++ name ++ "'. Known settings: " ++
      String.intercalate ", " (Setting.all.map Setting.name)
  | format => "'output_format' must be one of: " ++ String.intercalate ", " outputFormats
  | blankPath => "'schema_path' must not be empty"

namespace Setting

/-- Why a setting does not accept a value, if so. -/
def rejects? (s : Setting) (value : String) : Option SettingsError :=
  match s with
  | schemaPath => if (strip value.toList).isEmpty then some .blankPath else none
  | outputFormat => if outputFormats.contains value then none else some .format

/-- The setting of a name, if it **accepts** a value. -/
def check (name value : String) : Except SettingsError Setting :=
  match ofName? name with
  | none => .error (.unknown name)
  | some s =>
    match s.rejects? value with
    | some e => .error e
    | none => .ok s

end Setting

/-- Some **settings** with their values, in the order in which they were first given. -/
abbrev Settings := Entries Setting String

namespace Settings

/-- The value of a setting, or its default. -/
def valueOr (ss : Settings) (s : Setting) : Option String := (ss.get? s).or s.default

/-- All settings with their values, or with their defaults. -/
def withDefaults (ss : Settings) : List (Setting × Option String) :=
  Setting.all.map fun s => (s, ss.valueOr s)

/-- The settings that some pairs of names and values give, if each value is accepted. -/
def ofPairs (ps : List (String × String)) : Except SettingsError Settings :=
  (Entries.ofPairs ps).mapM fun (name, value) => do
    pure (← Setting.check name value, value)

end Settings

end QueryAssist
