import QueryAssist.Completion.Fragments
import QueryAssist.Completion.Suggestion
import QueryAssist.Completion.TypeContext

/-! # Candidates

What a schema and a document allow at each position, before what was typed narrows it. Main
definitions: one list of candidates for each position, and

* **`Directive.isAllowedOn`** — whether a directive may stand on a construct.
* **`candidates`** — the candidates at a position. -/

namespace QueryAssist

/-- The location of the directives on a construct. -/
def RuleKind.location? : RuleKind → Option Location
  | .query => some .query
  | .mutation => some .mutation
  | .subscription => some .subscription
  | .field | .aliasedField => some .field
  | .fragmentDefinition => some .fragmentDefinition
  | .fragmentSpread => some .fragmentSpread
  | .inlineFragment => some .inlineFragment
  | _ => none

/-- Whether a directive **may stand** on a construct. -/
def Directive.isAllowedOn (d : Directive) (k : RuleKind) : Bool :=
  k.location?.any d.locations.contains

namespace Candidates

/-- The **keywords** that begin a definition, and the brace that begins an unnamed query. -/
def definitionKeywords : List Suggestion :=
  ["query", "mutation", "subscription", "fragment", "\x7b"].map fun k => { text := k }

/-- The **fields** of a type. Abstract types add `__typename`, and the query root the two fields
that look into the schema. -/
def fields (s : Schema) (parent : Option TypeDef) : List Suggestion :=
  match parent with
  | none => []
  | some p =>
    let own := p.body.fields
    let typename := if p.isAbstract then [metaTypename] else []
    let onRoot := if s.query = some p.name then [metaSchema, metaType] else []
    (own ++ typename ++ onRoot).map .ofField

/-- The **arguments** that can be given, or the fields that an object literal can have. -/
def inputValues (vs : Option (List InputValue)) : List Suggestion :=
  (vs.getD []).map .ofInputValue

/-- The **literals** of a type: the members of an enum, or the two truth values. -/
def literals (s : Schema) (input : Option TypeRef) : Except SchemaFault (List Suggestion) :=
  match s.baseType? input with
  | none => .ok []
  | some t =>
    match t.body with
    | .enum members => members.all.map fun ms => ms.map (.ofEnumMember t.name)
    | _ =>
      if t.name == "Boolean" then
        .ok [{ text := "true", type := some (.named t.name), description := some "Not false." },
          { text := "false", type := some (.named t.name), description := some "Not true." }]
      else .ok []

/-- The types that a fragment inside a selection can be on: for an abstract type those that it
stands for, all of which must be objects or interfaces, and the interfaces that these implement, and
else the type itself. Outside any selection every composite type will do. -/
def conditionTypes (s : Schema) (parent : Option TypeDef) : Except SchemaFault (List TypeDef) :=
  match parent with
  | none => .ok (s.types.filter TypeDef.isComposite)
  | some p =>
    if p.isAbstract then
      let possible := (s.possibleTypes p).filterMap s.type?
      if possible.all TypeDef.hasFields then
        let interfaces := possible.flatMap fun t => t.body.interfaces
        .ok (((possible.map (·.name) ++ interfaces).eraseDups).filterMap s.type?)
      else .error .unfitMember
    else .ok [p]

/-- The **type conditions** of a fragment. A type whose description says nothing has an empty one
here. -/
def typeConditions (s : Schema) (parent : Option TypeDef) : Except SchemaFault (List Suggestion) :=
  (conditionTypes s parent).map fun ts => ts.map fun t =>
    { text := t.name, description := some ((Remark.spoken? t.description).getD "") }

/-- Whether a fragment on one type can be spread in a selection from another. -/
def canSpread (s : Schema) (parent : Option TypeDef) (type : TypeDef) : Bool :=
  parent.any fun p => p.isComposite && type.isComposite && s.overlap p type

/-- The name of the fragment definition around a place. -/
def enclosingFragment? (ls : List Link) : Option String :=
  (definitionLink? ls).bind fun l =>
    if l.kind = some .fragmentDefinition then l.name else none

/-- The **spreads** of the fragments of a document: those on a type that overlaps the one selected
from, apart from the fragment around the place itself. -/
def spreads (s : Schema) (parent : Option TypeDef) (ls : List Link) (hs : List FragmentHead) :
    List Suggestion :=
  hs.filterMap fun h =>
    (s.type? h.type).bind fun t =>
      if enclosingFragment? ls ≠ some h.name ∧ canSpread s parent t then
        some { text := h.name, type := some (.named t.name),
               description := some (.string ("fragment " ++ h.name ++ " on " ++ h.type)) }
      else none

/-- The **types of variables**. -/
def variableTypes (s : Schema) : List Suggestion := (s.types.filter TypeDef.isInput).map .ofType

/-- The **directives** that may stand on the construct around a place. -/
def directives (s : Schema) (outer : List Link) : List Suggestion :=
  match outer.head?.bind (·.kind) with
  | some k => (s.directives.filter (·.isAllowedOn k)).map .ofDirective
  | none => []

end Candidates

/-- The **candidates** at a position of a document, from the chain and the type context there, unless
a fault of the schema shows. -/
def candidates (s : Schema) (document : List Char) (c : Chain) (ctx : TypeContext) :
    Position → Except SchemaFault (List Suggestion)
  | .definitionKeyword => .ok Candidates.definitionKeywords
  | .field => .ok (Candidates.fields s ctx.parent)
  | .argument => .ok (Candidates.inputValues ctx.arguments)
  | .objectField => .ok (Candidates.inputValues ctx.objectFields)
  | .inputValue => Candidates.literals s ctx.input
  | .typeCondition => Candidates.typeConditions s ctx.parent
  | .fragmentSpread => .ok (Candidates.spreads s ctx.parent c.links (fragmentHeads document))
  | .variableType => .ok (Candidates.variableTypes s)
  | .directive => .ok (Candidates.directives s c.outer)

end QueryAssist
