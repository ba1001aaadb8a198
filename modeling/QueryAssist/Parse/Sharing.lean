import QueryAssist.Parse.Reading

/-! # Shared chains

Chains that are kept while the parse goes on may share the links around them: what is later written
into a shared link shows in every chain that holds it. Main definitions:

* **`Held`** — a link with the cell of the link around it.
* **`Store`** — the cells, the live chain, and the chains kept under keys.
* **`Store.act`** — change the live chain; links that it still holds are written in place.
* **`Store.keepShared`**, **`Store.keepApart`** — keep the live chain, with the links around it
  shared, or all copied to cells of their own.
* **`Store.restore`** — go on from a kept chain, and share its links. -/

namespace QueryAssist

/-- A link with the cell of the link **around** it. -/
structure Held where
  /-- The link itself. -/
  link : Link
  /-- The cell of the link around it; the outermost link has none. -/
  parent : Option Nat
  deriving DecidableEq, Repr, Inhabited

/-- The links from a cell outwards, each with its cell. A link is always younger than the link
around it. -/
def Held.linksFrom (cells : Array Held) (i : Nat) : List Link :=
  match cells[i]? with
  | none => []
  | some h =>
    { h.link with cell := some i } ::
      match h.parent with
      | none => []
      | some p => if p < i then linksFrom cells p else []
termination_by i

/-- The chain of a held link, with the cells of the links around it. -/
def Held.chain (cells : Array Held) (h : Held) : Chain :=
  ⟨{ h.link with cell := none }, (h.parent.map (linksFrom cells)).getD []⟩

/-- Write links to cells, outermost first: a link that has a cell is written there, and any other
gets a new one. Gives the cells and the cell of the innermost link. -/
def Held.write (cells : Array Held) : List Link → Array Held × Option Nat
  | [] => (cells, none)
  | l :: ls =>
    let (cells, parent) := write cells ls
    let h : Held := ⟨{ l with cell := none }, parent⟩
    match l.cell with
    | some i => (cells.setIfInBounds i h, some i)
    | none => (cells.push h, some cells.size)

/-- A **store** of shared links with the live chain and the chains that are kept. -/
structure Store where
  /-- The links that some chain holds around its innermost one. -/
  cells : Array Held
  /-- The innermost link of the live chain. -/
  live : Held
  /-- The innermost links of the kept chains, by key. -/
  kept : List (String × Held)
  deriving Repr, Inhabited

namespace Store

/-- The store whose live chain is a given one and which keeps none. -/
def ofChain (c : Chain) : Store :=
  let (cells, parent) := Held.write #[] c.outer
  ⟨cells, ⟨c.top, parent⟩, []⟩

/-- The **live** chain. -/
def chain (s : Store) : Chain := s.live.chain s.cells

/-- Make a chain the live one. -/
def commit (s : Store) (c : Chain) : Store :=
  let (cells, parent) := Held.write s.cells c.outer
  { s with cells := cells, live := ⟨c.top, parent⟩ }

/-- Change the live chain. -/
def act (s : Store) (f : Chain → Chain) : Store := s.commit (f s.chain)

/-- The chain kept under a key. -/
def kept? (s : Store) (key : String) : Option Held := s.kept.lookup key

/-- Keep the live chain under a key and share the links around its innermost one. -/
def keepShared (s : Store) (key : String) : Store := { s with kept := (key, s.live) :: s.kept }

/-- Keep the live chain under a key with all its links copied. -/
def keepApart (s : Store) (key : String) : Store :=
  let (cells, parent) := Held.write s.cells (s.chain.outer.map ({ · with cell := none }))
  { s with cells := cells, kept := (key, ⟨s.live.link, parent⟩) :: s.kept }

/-- Go on from the chain kept under a key, if there is one. -/
def restore (s : Store) (key : String) : Store :=
  match s.kept? key with
  | some h => { s with live := h }
  | none => s

/-- The chain kept under a key, as it is now. -/
def keptChain? (s : Store) (key : String) : Option Chain :=
  (s.kept? key).map (Held.chain s.cells)

end Store

end QueryAssist
