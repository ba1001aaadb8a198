import QueryAssist.Json.Value

/-! # Types of a schema

Main definitions:

* **`TypeRef`** — a type as a field or an argument mentions it, with its list and non-null wrappers.
* **`Remark`** — what a schema says about a part of it.
* **`InputValue`**, **`Field`**, **`EnumMember`** — the members of types.
* **`EnumMembers`** — the members of an enum, which are not always known.
* **`TypeDef`** — a named type with its body.
* **`Location`**, **`Directive`** — directives and the places where they may stand.

Types mention each other by name only. -/

namespace QueryAssist

/-- A **type reference**: a named type, perhaps under list and non-null wrappers. -/
inductive TypeRef where
  /-- A type by its name. -/
  | named (name : String)
  /-- The lists of a type. -/
  | list (item : TypeRef)
  /-- A type without its null. -/
  | nonNull (inner : TypeRef)
  deriving DecidableEq, Repr, Inhabited

namespace TypeRef

/-- The written form of a reference. -/
def render : TypeRef → String
  | named n => n
  | list t => "[" ++ t.render ++ "]"
  | nonNull t => t.render ++ "!"

/-- The name under all wrappers. -/
def base : TypeRef → String
  | named n => n
  | list t | nonNull t => t.base

/-- The reference without its outermost non-null mark. -/
def nullable : TypeRef → TypeRef
  | nonNull t => t
  | t => t

/-- The type of the items, if the reference is to lists. -/
def item? (t : TypeRef) : Option TypeRef :=
  match t.nullable with
  | list i => some i
  | _ => none

end TypeRef

/-- A **remark** says what a thing is for, or why not to use it. It is a text, but a schema that is
described in JSON can have any value for one. -/
abbrev Remark := JsonValue

/-- A remark that says something. -/
def Remark.spoken? (r : Option Remark) : Option Remark := r.filter fun v => !v.isVoid

/-- An **input value** is an argument or a field of an input object. -/
structure InputValue where
  /-- Its name. -/
  name : String
  /-- Its type. -/
  type : TypeRef
  /-- What it is for. -/
  description : Option Remark := none
  /-- Why it should no longer be used, if so. -/
  deprecation : Option Remark := none
  deriving DecidableEq, Repr, Inhabited

/-- A **field** of an object or interface type. -/
structure Field where
  /-- Its name. -/
  name : String
  /-- Its type. -/
  type : TypeRef
  /-- Its arguments, in order. -/
  args : List InputValue := []
  /-- What it is for. -/
  description : Option Remark := none
  /-- Why it should no longer be used, if so. -/
  deprecation : Option Remark := none
  deriving DecidableEq, Repr, Inhabited

/-- A **member** of an enum type. -/
structure EnumMember where
  /-- Its name. -/
  name : String
  /-- What it is for. -/
  description : Option Remark := none
  /-- Why it should no longer be used, if so. -/
  deprecation : Option Remark := none
  deriving DecidableEq, Repr, Inhabited

/-- Why the members of an enum are **not known**. -/
inductive MemberFault where
  /-- A member has no name. -/
  | nameless
  /-- The list, a member or its name has the wrong form. -/
  | malformed
  /-- The name of a member is no name, or one of the three literals. -/
  | misnamed
  /-- The reason not to use a member is no text. -/
  | reason
  deriving DecidableEq, Repr, Inhabited

/-- The **members of an enum**. A schema can have an enum with a fault in its members; it shows when
they are asked for. -/
inductive EnumMembers where
  /-- The members, in order. -/
  | known (members : List EnumMember)
  /-- What is wrong with them. -/
  | faulty (f : MemberFault)
  deriving DecidableEq, Repr, Inhabited

/-- The **kinds** of named type. -/
inductive TypeKind where
  | scalar
  | object
  | interface
  | union
  | enum
  | inputObject
  deriving DecidableEq, Repr, Inhabited

/-- The **body** of a named type. -/
inductive TypeBody where
  | scalar
  | object (interfaces : List String) (fields : List Field)
  | interface (interfaces : List String) (fields : List Field)
  | union (members : List String)
  | enum (members : EnumMembers)
  | inputObject (fields : List InputValue)
  deriving DecidableEq, Repr, Inhabited

namespace TypeBody

/-- The kind of a body. -/
def kind : TypeBody → TypeKind
  | scalar => .scalar
  | object _ _ => .object
  | interface _ _ => .interface
  | union _ => .union
  | enum _ => .enum
  | inputObject _ => .inputObject

/-- The interfaces that an object or interface type implements. -/
def interfaces : TypeBody → List String
  | object is _ | interface is _ => is
  | _ => []

/-- The fields of an object or interface type. -/
def fields : TypeBody → List Field
  | object _ fs | interface _ fs => fs
  | _ => []

end TypeBody

/-- A **named type**. -/
structure TypeDef where
  /-- Its name. -/
  name : String
  /-- What it is for. -/
  description : Option Remark := none
  /-- What it consists of. -/
  body : TypeBody
  deriving DecidableEq, Repr, Inhabited

namespace TypeDef

/-- The kind of a type. -/
def kind (t : TypeDef) : TypeKind := t.body.kind

/-- **Input types** can be the type of an argument or a variable. -/
def isInput (t : TypeDef) : Bool :=
  t.kind == .scalar || t.kind == .enum || t.kind == .inputObject

/-- **Composite types** have a selection of their own. -/
def isComposite (t : TypeDef) : Bool :=
  t.kind == .object || t.kind == .interface || t.kind == .union

/-- **Abstract types** stand for several object types. -/
def isAbstract (t : TypeDef) : Bool := t.kind == .interface || t.kind == .union

/-- Whether the type has fields to select. -/
def hasFields (t : TypeDef) : Bool := t.kind == .object || t.kind == .interface

/-- Abstract types are composite. -/
theorem isComposite_of_isAbstract {t : TypeDef} (h : t.isAbstract) : t.isComposite := by
  simp only [isAbstract, isComposite, Bool.or_eq_true] at h ⊢
  rcases h with h | h
  · exact .inl (.inr h)
  · exact .inr h

end TypeDef

/-- The **locations** in a document at which a directive may stand. -/
inductive Location where
  | query
  | mutation
  | subscription
  | field
  | fragmentDefinition
  | fragmentSpread
  | inlineFragment
  | variableDefinition
  | fragmentVariableDefinition
  | schema
  | scalar
  | object
  | fieldDefinition
  | argumentDefinition
  | interface
  | union
  | enum
  | enumValue
  | inputObject
  | inputFieldDefinition
  | directiveDefinition
  deriving DecidableEq, Repr, Inhabited

namespace Location

/-- All locations. -/
def all : List Location := [
  query, mutation, subscription, field, fragmentDefinition, fragmentSpread, inlineFragment,
  variableDefinition, fragmentVariableDefinition, schema, scalar, object, fieldDefinition,
  argumentDefinition, interface, union, enum, enumValue, inputObject, inputFieldDefinition,
  directiveDefinition]

/-- The written name of a location. -/
def label : Location → String
  | query => "QUERY"
  | mutation => "MUTATION"
  | subscription => "SUBSCRIPTION"
  | field => "FIELD"
  | fragmentDefinition => "FRAGMENT_DEFINITION"
  | fragmentSpread => "FRAGMENT_SPREAD"
  | inlineFragment => "INLINE_FRAGMENT"
  | variableDefinition => "VARIABLE_DEFINITION"
  | fragmentVariableDefinition => "FRAGMENT_VARIABLE_DEFINITION"
  | schema => "SCHEMA"
  | scalar => "SCALAR"
  | object => "OBJECT"
  | fieldDefinition => "FIELD_DEFINITION"
  | argumentDefinition => "ARGUMENT_DEFINITION"
  | interface => "INTERFACE"
  | union => "UNION"
  | enum => "ENUM"
  | enumValue => "ENUM_VALUE"
  | inputObject => "INPUT_OBJECT"
  | inputFieldDefinition => "INPUT_FIELD_DEFINITION"
  | directiveDefinition => "DIRECTIVE_DEFINITION"

/-- The location with a given name. -/
def ofLabel? (name : String) : Option Location := all.find? fun l => l.label == name

end Location

/-- A **directive** that a schema defines. -/
structure Directive where
  /-- Its name, without the at sign. -/
  name : String
  /-- What it is for. -/
  description : Option Remark := none
  /-- Where it may stand. -/
  locations : List Location := []
  /-- Its arguments, in order. -/
  args : List InputValue := []
  deriving DecidableEq, Repr, Inhabited

end QueryAssist
