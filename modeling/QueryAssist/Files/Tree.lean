import QueryAssist.Entries
import QueryAssist.Files.Path
import QueryAssist.Text.Lines
import QueryAssist.Text.Quoted

/-! # File trees

Files and folders, and what can be done with them. Main definitions:

* **`FileTree`** — the files with their contents, and the folders.
* **`FileError`** — why something cannot be done.
* **`FileTree.read`** — the content at a path.
* **`Disk`** — an action on a file tree. It may fail, and what it did before that stays done.
* **`Disk.replace`** — write a file anew, so that it is never seen half written. -/

namespace QueryAssist

/-- A **place** in a tree: the names on the way from the working folder. The way of a place outside
it begins with a slash. -/
abbrev Place := List String

/-- A **file tree**. The folders on the way to a file or folder are there without being listed. -/
structure FileTree where
  /-- The files. -/
  files : Entries Place ByteArray := []
  /-- Folders that are there even if nothing is in them. -/
  folders : List Place := []
  deriving Inhabited

/-- Why something **cannot be done** with a path. -/
inductive FileError where
  /-- Something on the way, or the file itself, is not there. -/
  | missing
  /-- There is something already. -/
  | taken
  /-- Something on the way is a file. -/
  | notFolder
  /-- The path leads to a folder. -/
  | isFolder
  /-- The path leads to a folder that is in use. -/
  | busy
  /-- A name in the path is longer than any file's. -/
  | nameTooLong
  /-- The path has a name that no file can have. -/
  | unusable
  deriving DecidableEq, Repr, Inhabited

namespace FileError

/-- The number of an error. -/
def number : FileError → Nat
  | missing => 2
  | busy => 16
  | unusable => 22
  | taken => 17
  | notFolder => 20
  | isFolder => 21
  | nameTooLong => 36

/-- An error in words. -/
def words : FileError → String
  | missing => "No such file or directory"
  | busy => "Device or resource busy"
  | unusable => "Invalid argument"
  | taken => "File exists"
  | notFolder => "Not a directory"
  | isFolder => "Is a directory"
  | nameTooLong => "File name too long"

/-- The message for an error with a path. -/
def message (e : FileError) (path : String) : String :=
  "[Errno " ++ toString e.number ++ "] " ++ e.words ++ ": " ++ quoted path

end FileError

/-- What is at a place. -/
inductive FileNode where
  | file (content : ByteArray)
  | folder
  deriving Inhabited

namespace FileTree

/-- Whether one place is on the way to another, or the same. -/
def isOnWay (p q : Place) : Bool := p.isPrefixOf q

/-- Whether there is a folder at a place. -/
def isFolder (t : FileTree) (p : Place) : Bool :=
  p == [] || p == ["/"] || t.folders.any (isOnWay p) ||
    t.files.any fun f => isOnWay p f.1 && p != f.1

/-- What is **at a place**. -/
def node? (t : FileTree) (p : Place) : Option FileNode :=
  match t.files.get? p with
  | some content => some (.file content)
  | none => if t.isFolder p then some .folder else none

/-- The place of a name in a folder. Names have up to 255 bytes. -/
def entry (folder : Place) (name : String) : Except FileError Place :=
  if name.utf8ByteSize ≤ 255 then .ok (folder ++ [name]) else .error .nameTooLong

/-- One step of a way, which must lead to a folder. There is no way up from the working folder. -/
def step (t : FileTree) (p : Place) (name : String) : Except FileError Place :=
  if name = "." then .ok p
  else if name = ".." then
    match p with
    | [] => .error .missing
    | ["/"] => .ok ["/"]
    | _ => .ok p.dropLast
  else do
    let q ← entry p name
    match t.node? q with
    | some .folder => .ok q
    | some (.file _) => .error .notFolder
    | none => .error .missing

/-- The folder that a **way** leads to. -/
def walk (t : FileTree) (start : Place) (names : List String) : Except FileError Place :=
  names.foldlM t.step start

/-- The place at which a path starts. -/
def startOf (p : Path) : Place := if p.anchor.isEmpty then [] else ["/"]

/-- The place of a path. All names but the last must lead to folders. -/
def place (t : FileTree) (start : Place) (names : List String) : Except FileError Place := do
  match names.getLast? with
  | none => pure start
  | some last =>
    let folder ← t.walk start names.dropLast
    if last = "." ∨ last = ".." then t.step folder last else entry folder last

/-- The content of the file at a place. -/
def contentAt (t : FileTree) (p : Place) : Except FileError ByteArray :=
  match t.node? p with
  | some (.file content) => .ok content
  | some .folder => .error .isFolder
  | none => .error .missing

/-- The content **at a path**. -/
def read (t : FileTree) (p : Path) : Except FileError ByteArray := do
  if !Path.areUsable p.names then throw .unusable
  t.contentAt (← t.place (startOf p) p.names)

/-- The content at a path as it is written, where a slash at the end asks for a folder. -/
def readText (t : FileTree) (path : String) : Except FileError ByteArray := do
  let names := Path.parts path
  if !Path.areUsable names then throw .unusable
  let names := if path.endsWith "/" then names ++ ["."] else names
  t.contentAt (← t.place (startOf (Path.ofText path)) names)

/-- The text that a content writes, with each line break as a line feed. -/
def textOf (content : ByteArray) : Option (List Char) :=
  (String.fromUTF8? content).map fun s => unifyBreaks s.toList

/-- The files that a tree has and another has not, or has with another content. -/
def changedSince (before after : FileTree) : Entries Place ByteArray :=
  after.files.filter fun (p, content) => before.files.get? p != some content

end FileTree

/-- An **action** on a file tree, which can fail. -/
abbrev Disk := EStateM FileError FileTree

namespace Disk

/-- Find something out. -/
def ask {α : Type} (f : FileTree → Except FileError α) : Disk α := do
  match f (← get) with
  | .ok a => pure a
  | .error e => throw e

/-- Make one folder, whose way must be there. A folder that is there already will do. -/
def makeFolder (start : Place) (before : List String) (last : String) : Disk Unit := do
  if !Path.areUsable (last :: before) then throw .unusable
  let folder ← ask (·.walk start before)
  if last = "." ∨ last = ".." then pure ()
  else
    let place ← ask fun _ => FileTree.entry folder last
    match (← get).node? place with
    | some .folder => pure ()
    | some (.file _) => throw .taken
    | none => modify fun t => { t with folders := t.folders ++ [place] }

/-- Make a folder and the folders on the way to it, where they are missing. The names come last
first. -/
def makeFolders (start : Place) : List String → Disk Unit
  | [] => pure ()
  | last :: before =>
    tryCatch (makeFolder start before.reverse last) fun e => do
      if e = .missing then
        makeFolders start before
        makeFolder start before.reverse last
      else throw e

/-- A name that none of the given ones has: it is longer than all of them. -/
def freshName (names : List String) : String :=
  let longest := (names.map String.length).foldl max 0
  ".tmp_" ++ String.ofList (List.replicate longest '_') ++ ".json"

/-- The names in a folder. -/
def namesIn (t : FileTree) (folder : Place) : List String :=
  (t.files.map Prod.fst ++ t.folders).filterMap fun p =>
    if FileTree.isOnWay folder p then p[folder.length]? else none

/-- Give the file at a place a content. -/
def put (p : Place) (content : ByteArray) : Disk Unit :=
  modify fun t => { t with files := t.files.put p content }

/-- Remove the file at a place. -/
def remove (p : Place) : Disk Unit := modify fun t => { t with files := t.files.erase p }

/-- Move a file to a name in a folder, over the file that is there. -/
def move (source folder : Place) (name : Option String) : Disk Unit := do
  match name with
  | none | some "." | some ".." => throw .busy
  | some name =>
    if !Path.areUsable [name] then throw .unusable
    let content ← ask (·.contentAt source)
    let place ← ask fun _ => FileTree.entry folder name
    match (← get).node? place with
    | some .folder => throw .isFolder
    | _ =>
      remove source
      put place content

/-- Write a file **anew**, with the folders on the way to it: the content is written to a file of a
fresh name beside it, which is then moved to its path. Should that fail, the other file is removed
again. -/
def replace (p : Path) (content : ByteArray) : Disk Unit := do
  let start := FileTree.startOf p
  let names := p.names.dropLast
  makeFolders start names.reverse
  let folder ← ask (·.walk start names)
  let source := folder ++ [freshName (namesIn (← get) folder)]
  put source content
  tryCatch (move source folder p.names.getLast?) fun e => do
    remove source
    throw e

/-- Write a file in place, with the folders on the way to it. -/
def write (p : Path) (content : ByteArray) : Disk Unit := do
  let start := FileTree.startOf p
  makeFolders start p.names.dropLast.reverse
  let place ← ask (·.place start p.names)
  match (← get).node? place with
  | some .folder => throw .isFolder
  | _ => put place content

end Disk

end QueryAssist
