import QueryAssist.CommandLine.Arguments
import QueryAssist.CommandLine.Printout
import QueryAssist.Completion.Outcome
import QueryAssist.Schema.File
import QueryAssist.Settings.Store

/-! # Running the program

A run reads and writes files, prints and reports, and ends with an exit code. Main definitions:

* **`Surroundings`** — what a run finds.
* **`Session`** — what it has done.
* **`Run`** — a part of a run, which can break off.
* **`runComplete`**, **`runSettings`** — the commands.
* **`runWords`** — a run for the words of a command line. -/

namespace QueryAssist

/-- What a run **finds**. -/
structure Surroundings where
  /-- The home folders. -/
  home : Homes
  /-- The folder of the usual settings. -/
  folder : Path
  /-- The file of the settings that the environment names. -/
  settingsPath : Option String := none
  /-- What can be read from the input. -/
  input : ByteArray := .empty
  /-- Whether to report what is done. -/
  debug : Bool := false
  /-- What reads the sources of schemas. -/
  reader : SchemaReader := {}
  deriving Inhabited

/-- What a run has **done**. -/
structure Session where
  /-- The files. -/
  files : FileTree
  /-- What is printed. -/
  printed : String := ""
  /-- What is reported. -/
  reported : String := ""
  deriving Inhabited

/-- Why a run **breaks off** without a message of its own. -/
inductive Break where
  /-- The settings cannot be read or written. -/
  | store (e : StoreError)
  /-- A file or the input is not a text. -/
  | notText
  /-- A file is in a home folder that is not known. -/
  | unknownHome
  /-- A path has a name that no file can have. -/
  | unusablePath
  /-- The source of a schema cannot be gone through. -/
  | source (e : SchemaError)
  /-- A fault of the schema shows. -/
  | schema (f : SchemaFault)
  /-- There is no table of the suggestions. -/
  | table (f : TableFault)
  /-- The value of a setting is unwritten. -/
  | unwritten
  deriving DecidableEq, Repr, Inhabited

/-- A **part of a run**. -/
abbrev Run := ReaderT Surroundings (EStateM Break Session)

namespace Run

/-- Print a text. -/
def print (text : String) : Run Unit := modify fun s => { s with printed := s.printed ++ text }

/-- Print a line. -/
def printLine (text : String) : Run Unit := print (text ++ "\n")

/-- Report a text. -/
def report (text : String) : Run Unit := modify fun s => { s with reported := s.reported ++ text }

/-- Report what is done in a part of the program, if that is wanted. -/
def debug (source message : String) : Run Unit := do
  if (← read).debug then
    report ("DEBUG:gqlcomplete.domains." ++ source ++ ":" ++ message ++ "\n")

/-- Do something with the settings. -/
def stored {α : Type} (x : Stored α) : Run α := fun _ s =>
  match x s.files with
  | .ok a files => .ok a { s with files }
  | .error e files => .error (.store e) { s with files }

end Run

/-! ## Completing -/

/-- A text that is given and not empty. -/
def nonEmpty (s : Option String) : Option String := s.filter fun t => !t.isEmpty

/-- The text of some content. -/
def textOrBreak (content : ByteArray) : Run (List Char) :=
  match FileTree.textOf content with
  | some cs => pure cs
  | none => throw .notText

/-- The document to complete. If there is none, an error is printed. -/
def readDocument (o : CompleteOptions) : Run (Option (List Char)) := do
  match o.query, nonEmpty o.file with
  | some text, _ => pure (some text.toList)
  | none, some "-" => some <$> textOrBreak (← read).input
  | none, some path =>
    match (← get).files.readText path with
    | .ok content => some <$> textOrBreak content
    | .error .missing =>
      Run.printLine ("Error: File '" ++ path ++ "' not found.")
      pure none
    | .error .unusable => throw .unusablePath
    | .error e =>
      Run.printLine ("Error reading file: " ++ e.message path)
      pure none
  | none, none =>
    Run.printLine "Error: Either --query or --file must be provided."
    pure none

/-- Why a schema file without a message makes a run break off. -/
def SchemaFileError.toBreak : SchemaFileError → Break
  | unknownHome => .unknownHome
  | unreadable _ _ => .unusablePath
  | notText => .notText
  | source e => .source e

/-- The schema in a file. If there is none, an error is printed. -/
def readSchema (path : String) : Run (Option Schema) := do
  let env ← read
  let loaded ← match SchemaFile.named env.home path with
    | .error e => pure (.error e)
    | .ok f =>
      match f.text (← get).files with
      | .error e => pure (.error e)
      | .ok cs =>
        Run.debug "schema.loader" f.report
        pure (f.schemaOf cs env.reader)
  match loaded with
  | .ok s => pure (some s)
  | .error e =>
    match e.message? with
    | some m =>
      Run.printLine ("Error: " ++ m)
      pure none
    | none => throw e.toBreak

/-- The cursor that is asked for in a document; by default it is at the end. -/
def CompleteOptions.cursor (o : CompleteOptions) (document : List Char) : Cursor :=
  let last := Cursor.atEnd document
  ⟨o.row.getD last.row, o.column.getD last.column⟩

/-- The store of the settings. -/
def settingsStore : Run SettingsStore := do
  let env ← read
  match SettingsStore.choose? env.home env.folder env.settingsPath with
  | some store => pure store
  | none => throw .unknownHome

/-- Print suggestions in a format. Any format but JSON is a table. -/
def printSuggestions (format : Option String) (ss : List Suggestion) : Run Unit :=
  if format = some "json" then Run.print (printedJson ss)
  else
    match printedTable ss with
    | .ok text => Run.print text
    | .error f => throw (.table f)

/-- The command that **completes**. -/
def runComplete (o : CompleteOptions) : Run Nat := do
  let settings ← Run.stored (← settingsStore).load
  match (nonEmpty o.schema).or (nonEmpty (settings.valueOr .schemaPath)) with
  | none =>
    Run.printLine
      "Error: No schema given. Pass --schema or set 'schema_path' in settings."
    pure 1
  | some path =>
    match ← readDocument o with
    | none => pure 1
    | some document =>
      match ← readSchema path with
      | none => pure 1
      | some schema =>
        let c := o.cursor document
        match Outcome.atCursor schema document c with
        | .error f => throw (.schema f)
        | .ok outcome =>
          Run.debug "query.completion.completion" (outcome.report c)
          printSuggestions ((nonEmpty o.format).or (settings.valueOr .outputFormat))
            outcome.suggestions
          pure 0

/-! ## Settings -/

/-- A setting with its value, as it is printed. -/
def settingLine (name : String) (value : Option String) : String :=
  name ++ " = " ++ (value.map fun v => String.ofList (JsonValue.quote v)).getD "null"

/-- List all settings. -/
def runList : Run Nat := do
  let settings ← Run.stored (← settingsStore).load
  for (s, value) in settings.withDefaults do
    Run.printLine (settingLine (Setting.name s) value)
  pure 0

/-- Print an error in the settings. -/
def settingsFault (e : SettingsError) : Run Nat := do
  Run.printLine ("Error: " ++ e.message)
  pure 1

/-- Change a setting. -/
def runSet (name value : String) : Run Nat := do
  let store ← settingsStore
  tryCatch
    (do
      Run.stored (store.set name value)
      Run.printLine (settingLine name (some value))
      pure 0)
    fun e =>
      match e with
      | .store (.setting e) => settingsFault e
      | e => throw e

/-- Change a setting to an unwritten value, which is no output format and no path either. -/
def runSetUnwritten (name : String) : Run Nat :=
  match Setting.ofName? name with
  | none => settingsFault (.unknown name)
  | some .outputFormat => settingsFault .format
  | some .schemaPath => throw .unwritten

/-- Reset a setting. -/
def runUnset (name : String) : Run Nat := do
  if !(← Run.stored ((← settingsStore).delete name)) then
    Run.printLine ("Setting '" ++ name ++ "' is not set.")
  pure 0

/-- The commands for **settings**. -/
def runSettings : SettingsCommand → Run Nat
  | .list => runList
  | .set name (some value) => runSet name value
  | .set name none => runSetUnwritten name
  | .unset name => runUnset name

/-! ## The command line -/

/-- What happens when reading the command line ends early. -/
def runStop : Stop → Run Nat
  | .help c => do
    Run.print c.help
    pure 0
  | .misuse c message => do
    Run.report (c.usageText ++ c.program ++ ": error: " ++ message ++ "\n")
    pure 2

/-- What a command line asks for. -/
def runArguments (a : Arguments) : Run Nat :=
  withReader (fun env => { env with
      debug := a.debug
      settingsPath := (nonEmpty a.settings).or env.settingsPath })
    (match a.command with
    | .complete o => runComplete o
    | .settings (some c) => runSettings c
    | .settings none => do
      Run.printLine "Error: Choose a settings command: list, set, unset"
      pure 1
    | .none => do
      Run.print topCommand.help
      pure 1)

/-- A **run** for the words of a command line. -/
def runWords (words : List String) : Run Nat :=
  match Arguments.ofWords words with
  | .ok a => runArguments a
  | .error e => runStop e

end QueryAssist
