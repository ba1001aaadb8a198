import QueryAssist.Json.Value
import QueryAssist.Text.Hexadecimal

/-! # Writing JSON

JSON texts hold ASCII characters only: every other character is written by its code units. Main
definitions:

* **`JsonValue.quote`** — a string in quotes.
* **`JsonValue.write`** — a value over several lines, each level indented by two spaces. -/

namespace QueryAssist

namespace JsonValue

/-- A code unit as an escape. -/
def unitText (n : Nat) : List Char := '\\' :: 'u' :: hexText4 n

/-- A character as it stands in quotes. -/
def escaped (c : Char) : List Char :=
  if c = '"' then ['\\', '"']
  else if c = '\\' then ['\\', '\\']
  else if c = '\n' then ['\\', 'n']
  else if c = '\r' then ['\\', 'r']
  else if c = '\t' then ['\\', 't']
  else if c = '\x08' then ['\\', 'b']
  else if c = '\x0c' then ['\\', 'f']
  else if 32 ≤ c.toNat ∧ c.toNat < 127 then [c]
  else (units c).flatMap unitText

/-- A string **in quotes**. -/
def quote (s : String) : List Char := '"' :: s.toList.flatMap escaped ++ ['"']

/-- A line break and the indentation of a level. -/
def newLine (level : Nat) : List Char := '\n' :: List.replicate (2 * level) ' '

/-- Some lines between two brackets. Without any there is only the pair of brackets. -/
def bracket (level : Nat) (opening closing : Char) (lines : List (List Char)) : List Char :=
  match lines with
  | [] => [opening, closing]
  | _ =>
    opening :: newLine (level + 1) ++ (',' :: newLine (level + 1)).intercalate lines ++
      newLine level ++ [closing]

mutual

/-- A value at a level of indentation. -/
def writeAt (level : Nat) : JsonValue → List Char
  | null => "null".toList
  | bool b => if b then "true".toList else "false".toList
  | number text => text.toList
  | string text => quote text
  | array vs => bracket level '[' ']' (writeItems (level + 1) vs)
  | object ms => bracket level '{' '}' (writeMembers (level + 1) ms)

/-- Each of some items. -/
def writeItems (level : Nat) : List JsonValue → List (List Char)
  | [] => []
  | v :: vs => writeAt level v :: writeItems level vs

/-- Each of some members. -/
def writeMembers (level : Nat) : List (String × JsonValue) → List (List Char)
  | [] => []
  | (key, v) :: ms => (quote key ++ ':' :: ' ' :: writeAt level v) :: writeMembers level ms

end

/-- A value **written** over several lines. -/
def write (v : JsonValue) : List Char := writeAt 0 v

end JsonValue

end QueryAssist
