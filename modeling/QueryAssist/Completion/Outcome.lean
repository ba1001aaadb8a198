import QueryAssist.Completion.Candidates

/-! # Completion

The suggestions for a document at a cursor. Main definitions:

* **`complete`** — the suggestions themselves.
* **`Outcome`** — what comes of completing, which also tells why there are no suggestions. -/

namespace QueryAssist

/-- The chain without a token outside the grammar on top. -/
def Chain.valid (c : Chain) : Chain :=
  if c.top.kind = some .invalid then c.parent?.getD c else c

/-- What comes of **completing** at a cursor. -/
inductive Outcome where
  /-- Nothing can be suggested at the given step of a construct. -/
  | nowhere (kind : Option RuleKind) (step : Nat)
  /-- There is a position, with some suggestions. -/
  | offered (p : Position) (suggestions : List Suggestion)
  deriving DecidableEq, Repr, Inhabited

namespace Outcome

/-- The suggestions of an outcome. -/
def suggestions : Outcome → List Suggestion
  | nowhere _ _ => []
  | offered _ ss => ss

/-- The report of an outcome. -/
def report (c : Cursor) : Outcome → String
  | nowhere k step =>
    let kind := (k.map fun k => "RuleKind." ++ k.constant).getD "None"
    "No suggestions at " ++ c.render ++ " (kind=" ++ kind ++ ", step=" ++ toString step ++ ")"
  | offered p ss =>
    toString ss.length ++ " " ++ p.label ++ " suggestions at " ++ c.render

/-- The outcome at a token of a document, unless a fault of the schema shows there. The type context
is that of the whole chain, also where the token is outside the grammar. -/
def atToken (s : Schema) (document : List Char) (c : Cursor) (t : PlacedToken) :
    Except SchemaFault Outcome :=
  let valid := t.chain.valid
  match Position.ofChain? valid with
  | none => .ok (nowhere valid.top.kind valid.top.step)
  | some p =>
    let ctx := TypeContext.ofLinks s t.chain.links
    match ctx.fault with
    | some f => .error f
    | none =>
      (candidates s document valid ctx p).map fun ss =>
        offered p (narrow (c.typed t.row t.start t.text) ss)

/-- The outcome **at a cursor** of a document. -/
def atCursor (s : Schema) (document : List Char) (c : Cursor) : Except SchemaFault Outcome :=
  atToken s document c (c.locate document)

end Outcome

/-- The **suggestions** for a document at a cursor, unless a fault of the schema shows there. -/
def complete (s : Schema) (document : List Char) (c : Cursor) :
    Except SchemaFault (List Suggestion) :=
  (Outcome.atCursor s document c).map Outcome.suggestions

end QueryAssist
