import QueryAssist.Completion.Cursor
import QueryAssist.Schema.Basic
import QueryAssist.Text.Blank
import QueryAssist.Text.Word

/-! # Suggestions

What can be written at a cursor, narrowed by what is written there already. Main definitions:

* **`Suggestion`** — a text with its type and description.
* **`Cursor.typed`** — the part of a token to the left of a cursor.
* **`narrow`** — the suggestions that begin with what was typed.

Main statement: `narrow_sublist`, narrowing keeps the order and adds nothing. -/

namespace QueryAssist

/-- A **suggestion**. -/
structure Suggestion where
  /-- What to write. -/
  text : String
  /-- Its type. -/
  type : Option TypeRef := none
  /-- What it is for. -/
  description : Option Remark := none
  /-- Whether it should no longer be used. -/
  isDeprecated : Bool := false
  /-- Why it should no longer be used. -/
  deprecationReason : Option Remark := none
  deriving DecidableEq, Repr, Inhabited

namespace Suggestion

/-- The field of a type as a suggestion. -/
def ofField (f : Field) : Suggestion :=
  ⟨f.name, some f.type, f.description, f.deprecation.isSome, f.deprecation⟩

/-- A member of an enum as a suggestion. -/
def ofEnumMember (enum : String) (m : EnumMember) : Suggestion :=
  ⟨m.name, some (.named enum), m.description, m.deprecation.isSome, m.deprecation⟩

/-- An argument or a field of an input object as a suggestion. Its deprecation is not shown. -/
def ofInputValue (v : InputValue) : Suggestion :=
  { text := v.name, type := some v.type, description := v.description }

/-- A type as a suggestion. -/
def ofType (t : TypeDef) : Suggestion := { text := t.name, description := t.description }

/-- A directive as a suggestion. -/
def ofDirective (d : Directive) : Suggestion := { text := d.name, description := d.description }

end Suggestion

/-- What was **typed** of a token: on the row of the cursor the part to the left of the cursor, on
another row all of it, in both cases without the blanks around it. -/
def Cursor.typed (c : Cursor) (row start : Int) (text : String) : List Char :=
  strip (if row = c.row then text.toList.take (c.column - start).toNat else text.toList)

/-- A text **filters** if it holds a word character; blanks and punctuation alone do not. -/
def isFilterable (text : List Char) : Bool := text.any isWord

/-- The suggestions **narrowed** to those that begin with what was typed, if that can filter. -/
def narrow (typed : List Char) (ss : List Suggestion) : List Suggestion :=
  if isFilterable typed then ss.filter fun s => typed.isPrefixOf s.text.toList else ss

@[simp] theorem narrow_nil (typed : List Char) : narrow typed [] = [] := by
  simp [narrow]

/-- Without a word character nothing is left out. -/
theorem narrow_of_not_isFilterable {typed : List Char} (h : isFilterable typed = false)
    (ss : List Suggestion) : narrow typed ss = ss := by
  simp [narrow, h]

/-- Narrowing keeps the order and adds nothing. -/
theorem narrow_sublist (typed : List Char) (ss : List Suggestion) :
    (narrow typed ss).Sublist ss := by
  unfold narrow
  split
  · exact List.filter_sublist
  · exact List.Sublist.refl ss

end QueryAssist
