import QueryAssist.Parse.Scan

/-! # Cursors

A cursor is a place in a document, and the token that is completed there is found by a scan that
stops at the cursor. Main definitions:

* **`Cursor`** — a row and a column.
* **`Cursor.locate`** — the token at a cursor, with the chain right after it. -/

namespace QueryAssist

/-- A **cursor**: a row and a column, both counted from zero. It may lie outside the document. -/
structure Cursor where
  /-- The line. -/
  row : Int
  /-- The number of characters of the line to the left. -/
  column : Int
  deriving DecidableEq, Repr, Inhabited

namespace Cursor

/-- The written form of a cursor in reports. -/
def render (c : Cursor) : String :=
  "Cursor(row=" ++ toString c.row ++ ", column=" ++ toString c.column ++ ")"

/-- The cursor at the end of a document. -/
def atEnd (document : List Char) : Cursor :=
  let lines := splitLines document
  ⟨lines.length - 1, (lines.getLast?.getD []).length⟩

/-- The lines of a document that matter for a cursor: none after its own. -/
def linesUpTo (c : Cursor) (document : List Char) : List (List Char) :=
  (splitLines document).take (c.row.toNat + 1)

/-- What a scan for a cursor does with a token: on the row of the cursor it keeps the last token
that ends at the cursor or before it, and stops at the first one that ends past it. -/
def observe (c : Cursor) (kept : Option PlacedToken) (t : PlacedToken) :
    Option PlacedToken × Bool :=
  if (t.row : Int) ≠ c.row then (kept, false)
  else if (t.stop : Int) > c.column then (kept, true)
  else (some t, false)

/-- The **token at a cursor**: the last one of its row that ends at the cursor or before it, or else
the one at which the scan ended. That one can reach past the cursor. -/
def locate (c : Cursor) (document : List Char) : PlacedToken :=
  let p := Scan.visit c.observe none (c.linesUpTo document)
  p.gathered.getD p.last

end Cursor

end QueryAssist
