import QueryAssist.Schema.Type

/-! # Schemas

A schema is a list of named types, in a fixed order, with the names of its root types and its
directives. Main definitions:

* **`Schema`** — the schema itself.
* **`SchemaFault`** — what can be wrong with a schema and shows only where it matters.
* **`Schema.type?`**, **`Schema.directive?`**, **`Schema.field?`** — look-ups by name.
* **`Schema.possibleTypes`** — the types that an abstract type stands for.
* **`Schema.overlap`** — whether two composite types have an object in common.
* **`metaSchema`**, **`metaType`**, **`metaTypename`** — the fields that need no definition. -/

namespace QueryAssist

/-- A **schema**. -/
structure Schema where
  /-- The root type of queries. -/
  query : Option String := none
  /-- The root type of mutations. -/
  mutation : Option String := none
  /-- The root type of subscriptions. -/
  subscription : Option String := none
  /-- All named types, in order, the built-in ones included. -/
  types : List TypeDef := []
  /-- The directives, in order. -/
  directives : List Directive := []
  deriving DecidableEq, Repr, Inhabited

/-- What can be **wrong with a schema** and shows only where it matters. -/
inductive SchemaFault where
  /-- The members of an enum are not known. -/
  | members (f : MemberFault)
  /-- An abstract type stands for a type that cannot have interfaces. -/
  | unfitMember
  deriving DecidableEq, Repr, Inhabited

/-- The members of an enum, if they are known. -/
def EnumMembers.all : EnumMembers → Except SchemaFault (List EnumMember)
  | known ms => .ok ms
  | faulty f => .error (.members f)

/-- The field that gives the schema itself. -/
def metaSchema : Field :=
  { name := "__schema", type := .nonNull (.named "__Schema"),
    description := some "Access the current type schema of this server." }

/-- The field that gives a type by its name. -/
def metaType : Field :=
  { name := "__type", type := .named "__Type",
    args := [{ name := "name", type := .nonNull (.named "String") }],
    description := some "Request the type information of a single type." }

/-- The field that gives the name of an object's type. -/
def metaTypename : Field :=
  { name := "__typename", type := .nonNull (.named "String"),
    description := some "The name of the current Object type at runtime." }

namespace Schema

/-- The type of a given name. -/
def type? (s : Schema) (name : String) : Option TypeDef := s.types.find? (·.name == name)

/-- The directive of a given name. -/
def directive? (s : Schema) (name : String) : Option Directive :=
  s.directives.find? (·.name == name)

/-- The type that a reference names if it has no wrapper. -/
def plain? (s : Schema) : TypeRef → Option TypeDef
  | .named n => s.type? n
  | _ => none

/-- A reference to the type of a given name, if there is one. -/
def ref? (s : Schema) (name : String) : Option TypeRef :=
  (s.type? name).map fun t => .named t.name

/-- The **field** of a given name on a type. The two that look into the schema belong to the query
root, which a schema without queries takes for the missing type, and `__typename` to every
composite type. -/
def field? (s : Schema) (parent : Option TypeRef) (name : String) : Option Field :=
  let onRoot := s.query.map TypeRef.named == parent
  let def? := parent.bind s.plain?
  if name == metaSchema.name && onRoot then some metaSchema
  else if name == metaType.name && onRoot then some metaType
  else if name == metaTypename.name && def?.any TypeDef.isComposite then some metaTypename
  else def?.bind fun t => t.body.fields.find? (·.name == name)

/-- The objects that implement an interface, in the order of the types, once for each time that they
name it. -/
def implementations (s : Schema) (kind : TypeKind) (interface : String) : List String :=
  s.types.flatMap fun t =>
    if t.kind == kind then (t.body.interfaces.filter (· == interface)).map fun _ => t.name else []

/-- The **possible types** of an abstract type: the members of a union, the objects that implement
an interface. -/
def possibleTypes (s : Schema) (t : TypeDef) : List String :=
  match t.body with
  | .union members => members
  | .interface _ _ => s.implementations .object t.name
  | _ => []

/-- Whether a type is one of those that an abstract type stands for, or an interface that refines
it. -/
def isSubtype (s : Schema) (abstract : TypeDef) (name : String) : Bool :=
  match abstract.body with
  | .union members => members.contains name
  | .interface _ _ =>
    (s.implementations .object abstract.name ++ s.implementations .interface abstract.name).contains
      name
  | _ => false

/-- Whether two composite types **overlap**: some object can be of both. -/
def overlap (s : Schema) (a b : TypeDef) : Bool :=
  if a.name == b.name then true
  else if a.isAbstract then
    if b.isAbstract then (s.possibleTypes a).any (s.isSubtype b ·) else s.isSubtype a b.name
  else if b.isAbstract then s.isSubtype b a.name
  else false

/-- Every type overlaps itself. -/
@[simp] theorem overlap_self (s : Schema) (t : TypeDef) : s.overlap t t = true := by
  simp [overlap]

/-- A type that is found has the name that it was looked up by. -/
theorem name_of_type? {s : Schema} {name : String} {t : TypeDef} (h : s.type? name = some t) :
    t.name = name := by
  simpa using List.find?_some h

end Schema

end QueryAssist
