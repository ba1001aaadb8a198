import QueryAssist.Completion.Position
import QueryAssist.Parse.Scan

/-! # Fragments of a document

The named fragments of a document, wherever they are defined. Main definitions:

* **`FragmentHead`** — the name of a fragment and the type that it is on.
* **`fragmentHeads`** — those of a document, the first of each name, in order. -/

namespace QueryAssist

/-- The **head** of a fragment definition. -/
structure FragmentHead where
  /-- The name of the fragment. -/
  name : String
  /-- The type that it is on. -/
  type : String
  deriving DecidableEq, Repr, Inhabited

/-- The fragment definition around a place, once both its name and its type are read. -/
def FragmentHead.around? (ls : List Link) : Option FragmentHead :=
  (definitionLink? ls).bind fun l =>
    match l.kind, l.name, l.type with
    | some .fragmentDefinition, some n, some t =>
      if n.isEmpty || t.isEmpty then none else some ⟨n, t⟩
    | _, _, _ => none

/-- Some fragments with one more, unless one of its name is among them. -/
def addFragment (hs : List FragmentHead) (h : FragmentHead) : List FragmentHead :=
  if hs.any (·.name == h.name) then hs else hs ++ [h]

/-- The **fragments of a document**: of each name the first definition that gets as far as a type, in
the order in which they do. -/
def fragmentHeads (document : List Char) : List FragmentHead :=
  ((Scan.tokens document).filterMap fun t => FragmentHead.around? t.chain.links).foldl addFragment []

end QueryAssist
