import QueryAssist.Parse.Reading
import QueryAssist.Text.Lines

/-! # Scanning a document

A document is read line by line and token by token, and a visitor sees every token with the chain
right after it. Main definitions:

* **`PlacedToken`** — a token with its place, its style and the chain after it.
* **`Scan.tokens`** — all tokens of a document.
* **`Scan.visit`** — the scan with a visitor that gathers a value and may stop the scan, and the
  token at which it ended. -/

namespace QueryAssist

/-- A **placed token**: where it stands, how it was read, and the chain right after it. -/
structure PlacedToken where
  /-- The column of its first character. -/
  start : Nat
  /-- The column after its last character. -/
  stop : Nat
  /-- Its text. -/
  text : String
  /-- The chain after it. -/
  chain : Chain
  /-- Its style. -/
  style : String
  /-- Its line. -/
  row : Nat
  deriving DecidableEq, Repr, Inhabited

namespace Scan

/-- The token last read of a stream, with the chain after it. -/
def place (s : Stream) (c : Chain) (style : String) (row : Nat) : PlacedToken :=
  ⟨s.start, s.position, s.current, c, style, row⟩

/-- The style of a reading. -/
def styleOf (r : Reading) : String :=
  match r.style with
  | .ok style => style
  | .error _ => "invalidchar"

/-- The chain with which the next line begins: a document whose chain is left begins anew. -/
def renew (c : Chain) : Chain := if c.top.kind.isNone then .start else c

/-- The tokens of a line from a place of it on. -/
def lineTokens (row : Nat) (s : Stream) (c : Chain) : List PlacedToken :=
  if _h : s.rest = [] then []
  else
    let r := Chain.read .standard s c
    place r.stream r.chain (styleOf r) row :: lineTokens row r.stream r.chain
termination_by s.rest.length
decreasing_by exact Chain.length_rest_read_lt _ c _h

/-- The chain that a list of tokens leaves, if it begins with a given one. -/
def chainAfter (c : Chain) (ts : List PlacedToken) : Chain := (ts.getLast?.map (·.chain)).getD c

/-- The tokens of some lines, from a row on, read from a given chain. -/
def tokensFrom (row : Nat) (c : Chain) : List (List Char) → List PlacedToken
  | [] => []
  | l :: ls =>
    let ts := lineTokens row (.ofLine l) c
    ts ++ tokensFrom (row + 1) (renew (chainAfter c ts)) ls

/-- All **tokens** of a document, in order, each with the chain right after it. -/
def tokens (document : List Char) : List PlacedToken := tokensFrom 0 .start (splitLines document)

/-- How far a scan has come: what the visitor gathered, whether it stopped the scan, and the last
token with the stream and the chain after it. -/
structure Progress (α : Type) where
  /-- What was gathered. -/
  gathered : α
  /-- The visitor wants no more tokens. -/
  stopped : Bool
  /-- The stream of the current line. -/
  stream : Stream
  /-- The chain after the last token. -/
  chain : Chain
  /-- The style of the last token. -/
  style : String
  /-- The current line. -/
  row : Nat
  deriving Inhabited

/-- The last token of a scan. On a line without tokens it is an empty one at its start. -/
def Progress.last {α : Type} (p : Progress α) : PlacedToken := place p.stream p.chain p.style p.row

/-- Scan the rest of the current line, unless the visitor stops the scan. -/
def visitLine {α : Type} (visit : α → PlacedToken → α × Bool) (p : Progress α) : Progress α :=
  if _h : p.stream.rest = [] then p
  else
    let r := Chain.read .standard p.stream p.chain
    let (gathered, stop) := visit p.gathered (place r.stream r.chain (styleOf r) p.row)
    if stop then ⟨gathered, true, r.stream, r.chain, styleOf r, p.row⟩
    else visitLine visit ⟨gathered, false, r.stream, r.chain, styleOf r, p.row⟩
termination_by p.stream.rest.length
decreasing_by exact Chain.length_rest_read_lt _ p.chain _h

/-- Scan some lines, from a row on, unless the visitor stops the scan. -/
def visitFrom {α : Type} (visit : α → PlacedToken → α × Bool) (row : Nat) (p : Progress α) :
    List (List Char) → Progress α
  | [] => p
  | l :: ls =>
    let p := visitLine visit { p with stream := .ofLine l, row := row }
    if p.stopped then p else visitFrom visit (row + 1) { p with chain := renew p.chain } ls

/-- **Scan** some lines with a visitor. -/
def visit {α : Type} (visit : α → PlacedToken → α × Bool) (gathered : α)
    (lines : List (List Char)) : Progress α :=
  visitFrom visit 0 ⟨gathered, false, .ofLine [], .start, "", 0⟩ lines

end Scan

end QueryAssist
