import QueryAssist.Completion.Position
import QueryAssist.Schema.Basic

/-! # Type context

What a schema says about a place in a document: the type that is being selected from, the arguments
that can be given, the type that a literal must have. It is found from the chain of open constructs,
from the outermost one in, so that each sees only what those around it establish. Main definitions:

* **`TypeContext`** — the facts themselves.
* **`TypeContext.enter`** — how one construct changes them.
* **`TypeContext.ofLinks`** — the facts at a chain. -/

namespace QueryAssist

/-- A **type context**. What could not be found is missing. -/
structure TypeContext where
  /-- The type of the innermost field, operation or fragment. -/
  type : Option TypeRef := none
  /-- The type that the innermost selection set selects from. -/
  parent : Option TypeDef := none
  /-- The type that a literal must have. -/
  input : Option TypeRef := none
  /-- The directive that is applied. -/
  directive : Option Directive := none
  /-- The member of an enum that is written. -/
  enumMember : Option EnumMember := none
  /-- The field that is selected. -/
  field : Option Field := none
  /-- The argument that is given. -/
  argument : Option InputValue := none
  /-- The arguments that can be given. -/
  arguments : Option (List InputValue) := none
  /-- The fields that an object literal can have. -/
  objectFields : Option (List InputValue) := none
  /-- What is wrong with an enum that had to be looked into. -/
  fault : Option SchemaFault := none
  deriving DecidableEq, Repr, Inhabited

/-- A name that was written and is not empty. -/
def written? (name : Option String) : Option String := name.filter fun n => !n.isEmpty

namespace Schema

/-- The named type under the wrappers of a reference. -/
def baseType? (s : Schema) (t : Option TypeRef) : Option TypeDef := t.bind fun t => s.type? t.base

/-- The field of a given name on a named type. -/
def fieldOf? (s : Schema) (parent : Option TypeDef) (name : String) : Option Field :=
  parent.bind fun p => s.field? (some (.named p.name)) name

/-- The members of a reference to an enum. -/
def enumMembers? (s : Schema) (t : Option TypeRef) : Option EnumMembers :=
  match (s.baseType? t).map TypeDef.body with
  | some (.enum members) => some members
  | _ => none

/-- The fields of a reference to an input object. -/
def inputFields? (s : Schema) (t : Option TypeRef) : Option (List InputValue) :=
  match (s.baseType? t).map TypeDef.body with
  | some (.inputObject fields) => some fields
  | _ => none

end Schema

namespace TypeContext

/-- The arguments that the construct around an argument list takes. -/
def argumentsOf (s : Schema) (owner : Option Link) (ctx : TypeContext) : Option (List InputValue) :=
  owner.bind fun o =>
    match o.kind with
    | some .field => ctx.field.map (·.args)
    | some .directive => ctx.directive.map (·.args)
    | some .aliasedField =>
      ((written? o.name).bind fun n => s.fieldOf? ctx.parent n).map (·.args)
    | _ => some []

/-- The context inside a field that may have a name: without a type around it, or without a name, it
is only known that there is no field. -/
def enterField (s : Schema) (name : Option String) (ctx : TypeContext) : TypeContext :=
  match ctx.type, written? name with
  | some _, some n =>
    let f := s.fieldOf? ctx.parent n
    { ctx with field := f, type := f.map (·.type) }
  | _, _ => { ctx with field := none }

/-- The context inside an argument that may have a name. -/
def enterArgument (name : Option String) (ctx : TypeContext) : TypeContext :=
  let a := name.bind fun n => (ctx.arguments.getD []).find? (·.name == n)
  { ctx with argument := a, input := a.map (·.type) }

/-- The context inside a member of an enum that may have a name. -/
def enterEnumValue (s : Schema) (name : Option String) (ctx : TypeContext) : TypeContext :=
  match s.enumMembers? ctx.input, written? name with
  | some (.known ms), some n => { ctx with enumMember := ms.find? (·.name == n) }
  | some (.faulty f), some _ =>
    { ctx with enumMember := none, fault := ctx.fault.or (some (.members f)) }
  | _, _ => { ctx with enumMember := none }

/-- The context inside a field of an object literal that may have a name. -/
def enterObjectField (name : Option String) (ctx : TypeContext) : TypeContext :=
  let f := (written? name).bind fun n => (ctx.objectFields.getD []).find? (·.name == n)
  { ctx with input := f.map (·.type) }

/-- The context **inside a construct**, from the one around it. The link around the construct tells
whose arguments an argument list gives. -/
def enter (s : Schema) (k : RuleKind) (l : Link) (owner : Option Link) (ctx : TypeContext) :
    TypeContext :=
  match k with
  | .query | .shortQuery => { ctx with type := s.query.bind s.ref? }
  | .mutation => { ctx with type := s.mutation.bind s.ref? }
  | .subscription => { ctx with type := s.subscription.bind s.ref? }
  | .inlineFragment | .fragmentDefinition =>
    match written? l.type with
    | some n => { ctx with type := s.ref? n }
    | none => ctx
  | .field | .aliasedField => ctx.enterField s l.name
  | .selectionSet => { ctx with parent := s.baseType? ctx.type }
  | .directive => { ctx with directive := (written? l.name).bind s.directive? }
  | .arguments => { ctx with arguments := ctx.argumentsOf s owner }
  | .argument => ctx.enterArgument l.name
  | .enumValue => ctx.enterEnumValue s l.name
  | .listValue => { ctx with input := ctx.input.bind TypeRef.item? }
  | .objectValue => { ctx with objectFields := s.inputFields? ctx.input }
  | .objectField => ctx.enterObjectField l.name
  | .namedType =>
    match written? l.name with
    | some n => { ctx with type := s.ref? n }
    | none => ctx
  | _ => ctx

/-- The context **at some links**, innermost first, out to the first link without a construct. -/
def ofLinks (s : Schema) : List Link → TypeContext
  | [] => {}
  | l :: outer =>
    match l.kind with
    | none => {}
    | some k => (ofLinks s outer).enter s k l outer.head?

@[simp] theorem ofLinks_nil (s : Schema) : ofLinks s [] = {} := rfl

/-- The context of a construct is built on the one around it. -/
theorem ofLinks_cons {s : Schema} {l : Link} {k : RuleKind} (h : l.kind = some k)
    (outer : List Link) :
    ofLinks s (l :: outer) = (ofLinks s outer).enter s k l outer.head? := by
  simp [ofLinks, h]

end TypeContext

end QueryAssist
