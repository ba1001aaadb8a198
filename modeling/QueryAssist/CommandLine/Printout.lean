import QueryAssist.Completion.Suggestion
import QueryAssist.Json.Write
import QueryAssist.Text.Markup
import QueryAssist.Text.Table

/-! # Printed suggestions

Suggestions are printed as a JSON array or as a table. Main definitions:

* **`Suggestion.toJson`** — a suggestion as a JSON object.
* **`printedJson`** — the text of some suggestions as JSON.
* **`printedTable`** — the text of some suggestions as a table. -/

namespace QueryAssist

/-- Why there is **no table** of some suggestions. -/
inductive TableFault where
  /-- A remark is no text. -/
  | noText
  /-- A cell closes a tag that is not open. -/
  | markup
  deriving DecidableEq, Repr, Inhabited

namespace Suggestion

/-- A text in JSON, or null. -/
def jsonText (s : Option String) : JsonValue := (s.map JsonValue.string).getD .null

/-- A suggestion as a **JSON object**. -/
def toJson (s : Suggestion) : JsonValue :=
  .object [
    ("text", .string s.text),
    ("type", jsonText (s.type.map TypeRef.render)),
    ("description", s.description.getD .null),
    ("isDeprecated", .bool s.isDeprecated),
    ("deprecationReason", s.deprecationReason.getD .null)]

/-- What a remark says in a table. There is another text in place of one that says nothing. -/
def remarkText (other : String) (r : Option Remark) : Except TableFault String :=
  match Remark.spoken? r with
  | none => .ok other
  | some (.string text) => .ok text
  | some _ => .error .noText

/-- The cells of a suggestion, which can hold markup. About deprecation they tell the reason, or at
least that there is one. -/
def cells (s : Suggestion) : Except TableFault (List String) := do
  let description ← remarkText "" s.description
  let note ← if s.isDeprecated then remarkText "yes" s.deprecationReason else pure ""
  pure [s.text, (s.type.map TypeRef.render).getD "", description, note]

end Suggestion

/-- The text of some suggestions **as JSON**. -/
def printedJson (ss : List Suggestion) : String :=
  String.ofList ((JsonValue.array (ss.map Suggestion.toJson)).write ++ ['\n'])

/-- What is drawn of a cell. -/
def drawnCell (text : String) : Except TableFault (List Char) :=
  match plainText text.toList with
  | some cs => .ok (cs.filter isDrawn)
  | none => .error .markup

/-- The text of some suggestions **as a table**. All cells are known before the first is drawn. -/
def printedTable (ss : List Suggestion) : Except TableFault String := do
  let rows ← (← ss.mapM Suggestion.cells).mapM fun cells => cells.mapM drawnCell
  pure (String.ofList
    (Table.draw ⟨["Suggestion", "Type", "Description", "Deprecated"], rows⟩))

end QueryAssist
