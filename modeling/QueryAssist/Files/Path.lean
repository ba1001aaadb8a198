/-! # Paths

The path of a file as a list of names. Main definitions:

* **`Path`** — a path from the working folder, or from the root of all files.
* **`Homes`** — the home folders of users.
* **`Path.ofText`** — the path that a text writes.
* **`Path.render`** — its written form, without parts that say nothing. -/

namespace QueryAssist

/-- The **home folders** of the users of a system. -/
structure Homes where
  /-- The home of the user who runs the program, if it is known. -/
  own : Option String
  /-- The homes of all users by their names. -/
  users : List (String × String)
  deriving DecidableEq, Repr, Inhabited

namespace Homes

/-- The home of a user; without a name, of the one who runs the program. -/
def of? (homes : Homes) (user : String) : Option String :=
  if user.isEmpty then homes.own else homes.users.lookup user

/-- A single home stands for a system with the superuser and one other user, whose home it is. -/
instance : Coe String Homes := ⟨fun home => { own := some home, users := [("root", "/root")] }⟩

end Homes

/-- A **path**: where it starts and the names on the way. -/
structure Path where
  /-- The slashes at the start of a path from the root; a path from the working folder has none. -/
  anchor : String := ""
  /-- The names. None is empty, and none is a single dot. -/
  names : List String
  deriving DecidableEq, Repr, Inhabited

namespace Path

/-- The slashes that a text begins with: none, one or two; more count as one. -/
def anchorOf : List Char → String
  | '/' :: '/' :: '/' :: _ => "/"
  | '/' :: '/' :: _ => "//"
  | '/' :: _ => "/"
  | _ => ""

/-- The parts of a text between its slashes. -/
def parts (text : String) : List String := (text.splitOn "/").filter fun n => !n.isEmpty

/-- The **path** that a text writes. -/
def ofText (text : String) : Path := ⟨anchorOf text.toList, (parts text).filter (· ≠ ".")⟩

/-- The written form. A path without names is the working folder, a dot. -/
def render (p : Path) : String :=
  let body := p.anchor ++ String.intercalate "/" p.names
  if body.isEmpty then "." else body

/-- The folder of a home. Slashes alone, or nothing at all, stand for the root of all files, and a
home is not known if its text begins with a tilde once more. -/
def ofHome? (home : String) : Option Path :=
  if home.startsWith "~" then none
  else if home.toList.all (· == '/') then some { anchor := "/", names := [] }
  else some (ofText home)

/-- The path with a home folder in place of a tilde and the name of a user at its start, if the home
is known. -/
def expandHome? (homes : Homes) (p : Path) : Option Path :=
  match p.names with
  | first :: rest =>
    if p.anchor.isEmpty && first.startsWith "~" then
      ((homes.of? (String.ofList (first.toList.drop 1))).bind ofHome?).map fun h =>
        { h with names := h.names ++ rest }
    else some p
  | [] => some p

/-- Whether some names can be those of files. None may have the character zero in it. -/
def areUsable (names : List String) : Bool := names.all fun n => !n.toList.contains '\x00'

/-- The folder that the path lies in. -/
def parent (p : Path) : Path := { p with names := p.names.dropLast }

/-- The last name. -/
def fileName (p : Path) : String := p.names.getLast?.getD ""

/-- The part of the last name from its last dot on. A dot at the start or the end of the name does
not count. -/
def suffix (p : Path) : String :=
  let cs := p.fileName.toList
  let after := (cs.reverse.takeWhile (· ≠ '.')).reverse
  let before := cs.length - after.length - 1
  if cs.contains '.' && 0 < before && !after.isEmpty then String.ofList ('.' :: after) else ""

/-- Whether the suffix is a given one, in capitals or not. -/
def hasSuffix (p : Path) (s : String) : Bool :=
  p.suffix.toList.map Char.toLower == s.toList

end Path

end QueryAssist
