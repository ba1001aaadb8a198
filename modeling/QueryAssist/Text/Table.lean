import QueryAssist.Text.Blank
import QueryAssist.Text.Lines
import QueryAssist.Text.Width

/-! # Tables

A table with a header and borders, drawn with line characters. Main definitions:

* **`Table`** — a header and rows, all with the same number of cells.
* **`layOut`** — the lines of a text in a column of a given width.
* **`Table.widths`** — the widths of the columns, which are those of their widest lines.
* **`Table.draw`** — the table as a text. -/

namespace QueryAssist

/-! ## Columns -/

/-- Whether a character is drawn. The other ones would ring, go back or end the page. -/
def isDrawn (c : Char) : Bool := !([7, 8, 11, 12, 13].contains c.toNat)

/-- Whether a character ends a line for measuring. -/
def endsLine (c : Char) : Bool :=
  c.toNat == 10 || (28 ≤ c.toNat && c.toNat ≤ 30) || c.toNat == 0x85 || c.toNat == 0x2028 ||
    c.toNat == 0x2029

/-- The width of the widest line of a text. A tab counts nothing. -/
def naturalWidth (cs : List Char) : Nat := ((cs.splitOnP endsLine).map textWidth).foldl max 0

/-- A line with spaces in place of its tabs, each up to the next multiple of eight. -/
def expandTabs (column : Nat) : List Char → List Char
  | [] => []
  | c :: cs =>
    if c = '\t' then
      List.replicate (8 - column % 8) ' ' ++ expandTabs (column + (8 - column % 8)) cs
    else c :: expandTabs (column + charWidth c) cs

/-- The words of a line, each with the blanks after it; the first one also has those before it. -/
def lineWords (cs : List Char) : List (List Char) :=
  match cs.splitBy fun c d => !isBlank c || isBlank d with
  | blanks :: word :: words =>
    if blanks.all isBlank then (blanks ++ word) :: words else blanks :: word :: words
  | words => words

/-- Some words put into lines of a width, as many into each as fit. -/
def fillLines (width : Nat) (line : List Char) : List (List Char) → List (List Char)
  | [] => [line]
  | word :: words =>
    if line.isEmpty || textWidth line + textWidth (stripEnd word) ≤ width then
      fillLines width (line ++ word) words
    else line :: fillLines width word words

/-- The start of a line that fills a width. -/
def cutTo (width : Nat) : List Char → List Char
  | [] => List.replicate width ' '
  | c :: cs =>
    if charWidth c ≤ width then c :: cutTo (width - charWidth c) cs else List.replicate width ' '

/-- A line made to fill a width: it loses blanks at its end first, and then its end. -/
def fitLine (width : Nat) (line : List Char) : List Char :=
  let blanks := (line.reverse.takeWhile isBlank).length
  let line := line.take (line.length - min blanks (line.length - width))
  if textWidth line ≤ width then line ++ List.replicate (width - textWidth line) ' '
  else cutTo (width - 1) line ++ ['…']

/-- The **lines of a text** in a column of a width. -/
def layOut (width : Nat) (cs : List Char) : List (List Char) :=
  (splitLines cs).flatMap fun line =>
    (fillLines width [] (lineWords (expandTabs 0 line))).map (fitLine width)

/-! ## Tables -/

/-- A **table**. -/
structure Table where
  /-- The names of the columns. -/
  header : List String
  /-- The rows. -/
  rows : List (List (List Char))
  deriving DecidableEq, Repr, Inhabited

namespace Table

/-- The texts of the header. -/
def headerRow (t : Table) : List (List Char) := t.header.map String.toList

/-- The **widths** of the columns. -/
def widths (t : Table) : List Nat :=
  t.rows.foldl (fun ws row => List.zipWith max ws (row.map naturalWidth))
    (t.headerRow.map naturalWidth)

/-- A line between two rows. -/
def border (widths : List Nat) (left line cross right : Char) : List Char :=
  left :: [cross].intercalate (widths.map fun w => List.replicate (w + 2) line) ++ [right, '\n']

/-- A row, which takes as many lines as its longest cell. -/
def drawRow (widths : List Nat) (edge : Char) (row : List (List Char)) : List Char :=
  let cells := List.zipWith layOut widths row
  let height := (cells.map List.length).foldl max 0
  (List.range height).flatMap fun i =>
    let parts := List.zipWith (fun w lines => lines.getD i (List.replicate w ' ')) widths cells
    edge :: ' ' :: [' ', edge, ' '].intercalate parts ++ [' ', edge, '\n']

/-- The **drawing** of a table. -/
def draw (t : Table) : List Char :=
  let ws := t.widths
  border ws '┏' '━' '┳' '┓' ++ drawRow ws '┃' t.headerRow ++ border ws '┡' '━' '╇' '┩' ++
    t.rows.flatMap (drawRow ws '│') ++ border ws '└' '─' '┴' '┘'

end Table

end QueryAssist
