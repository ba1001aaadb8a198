import QueryAssist.CommandLine.Run

/-! # The program

The files that a run reads are fetched before it and those that it changes are stored after it, so
the run itself works on a file tree. Main definitions:

* **`neededPaths`** — the paths that a run reads.
* **`runProgram`** — a run with the files and the environment that are there. -/

namespace QueryAssist

/-- The paths that a run **reads**, as far as the files that are known tell. -/
def neededPaths (env : Surroundings) (a : Arguments) (files : FileTree) : List Path :=
  let named := (nonEmpty a.settings).or env.settingsPath
  match SettingsStore.choose? env.home env.folder named with
  | none => []
  | some store =>
    let saved := match store.loadFrom files with
      | .ok ss => ss.valueOr .schemaPath
      | .error _ => none
    match a.command with
    | .complete o =>
      store.path :: ((nonEmpty o.schema).or saved).toList.filterMap (fun t =>
        (Path.ofText t).expandHome? env.home) ++ (nonEmpty o.file).toList.map Path.ofText
    | _ => [store.path]

/-- The folders on the way to a path, and the path itself. -/
def Path.steps (p : Path) : List Path :=
  (List.range (p.names.length + 1)).map fun n => { p with names := p.names.take n }

/-- A place as a path. -/
def placePath (p : Place) : String :=
  match p with
  | "/" :: names => "/" ++ String.intercalate "/" names
  | names => "./" ++ String.intercalate "/" names

/-- Why a run broke off, in words. -/
def Break.message : Break → String
  | store (.setting e) => e.message
  | store (.file e) => "Cannot use the settings file: " ++ e.words
  | store .notText => "The settings file is not a text"
  | store (.limit f) => f.message ++ " in the settings file"
  | notText => "The input is not a text"
  | unknownHome => "The home folder is not known"
  | unusablePath => "A path has a character that no path can have"
  | source _ => "The schema cannot be read"
  | schema (.members _) => "The members of an enum cannot be read"
  | schema .unfitMember => "A union has a member that is neither an object nor an interface"
  | table .noText => "A description is not a text"
  | table .markup => "The markup in a description is not sound"
  | unwritten => "A value is missing"

/-- The tree with what is found at a path. -/
def fetchStep (files : FileTree) (p : Path) : IO FileTree := do
  match files.place (FileTree.startOf p) p.names with
  | .error _ => pure files
  | .ok place =>
    try
      let content ← IO.FS.readBinFile p.render
      pure { files with files := files.files.put place content }
    catch
      | .inappropriateType _ 21 _ => pure { files with folders := place :: files.folders }
      | _ => pure files

/-- The tree with what is found at some paths and on the way to them. -/
def fetch (files : FileTree) (paths : List Path) : IO FileTree :=
  (paths.flatMap Path.steps).foldlM fetchStep files

/-- Store what has changed in a tree. -/
def storeChanges (before after : FileTree) : IO Unit := do
  for folder in after.folders do
    unless before.folders.contains folder do IO.FS.createDirAll (placePath folder)
  for (place, content) in FileTree.changedSince before after do
    IO.FS.writeBinFile (placePath place) content

/-- The homes of all users, from the text of the list of users. -/
def homesOf (list : String) : List (String × String) :=
  (list.splitOn "\n").filterMap fun line =>
    match line.splitOn ":" with
    | [user, _, _, _, _, home, _] => some (user, home)
    | _ => none

/-- The homes of the users that are there. -/
def fetchHomes : IO Homes := do
  let users ← try pure (homesOf (← IO.FS.readFile "/etc/passwd")) catch _ => pure []
  pure ⟨← IO.getEnv "HOME", users⟩

/-- A run with the files and the environment that are there. -/
def runProgram (words : List String) : IO UInt32 := do
  let home ← fetchHomes
  let folder := (← IO.getEnv "GQLCOMPLETE_CONFIG_DIR").getD (home.own.getD "" ++ "/.gqlcomplete")
  let env : Surroundings :=
    { home, folder := Path.ofText folder, settingsPath := ← IO.getEnv "GQLCOMPLETE_SETTINGS_PATH" }
  let (input, before) ← match Arguments.ofWords words with
    | .error _ => pure (.empty, {})
    | .ok a => do
      let found ← fetch {} (neededPaths env a {})
      let before ← fetch found (neededPaths env a found)
      let input ← match a.command with
        | .complete o =>
          if o.query.isNone && o.file == some "-" then (← IO.getStdin).readBinToEnd
          else pure .empty
        | _ => pure .empty
      pure (input, before)
  let finish (code : UInt32) (s : Session) : IO UInt32 := do
    storeChanges before s.files
    (← IO.getStdout).putStr s.printed
    (← IO.getStderr).putStr s.reported
    pure code
  match runWords words { env with input } { files := before } with
  | .ok code s => finish code.toUInt32 s
  | .error e s => finish 1 { s with reported := s.reported ++ e.message ++ "\n" }

end QueryAssist

/-- The program. -/
def main (words : List String) : IO UInt32 := QueryAssist.runProgram words
