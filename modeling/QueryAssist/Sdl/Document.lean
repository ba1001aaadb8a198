import QueryAssist.Schema.Type

/-! # Schema definition documents

A document that defines a schema, as it is written. Main definitions:

* **`DirectiveUse`** — a directive where it is applied.
* **`TypeDecl`**, **`DirectiveDecl`**, **`DirectiveExtension`**, **`SchemaDecl`** — the definitions and
  extensions.
* **`Mentions`** — the types and directives that a part of a document refers to.
* **`SchemaDocument`** — the document. -/

namespace QueryAssist

/-- A written **value**, as far as it is ever looked at. -/
inductive WrittenValue where
  /-- A string. -/
  | string (text : String)
  /-- A value in which an object has a field twice. -/
  | ambiguous
  /-- Anything else. -/
  | other
  deriving DecidableEq, Repr, Inhabited

/-- A **use** of a directive: its name and the arguments that it is given. -/
structure DirectiveUse where
  /-- The name, without the at sign. -/
  name : String
  /-- The arguments. -/
  args : List (String × WrittenValue)
  deriving DecidableEq, Repr, Inhabited

/-- The declaration of an argument or of a field of an input object. -/
structure ValueDecl where
  /-- Its description. -/
  description : Option String
  /-- Its name. -/
  name : String
  /-- Its type. -/
  type : TypeRef
  /-- Whether it has a default value. -/
  hasDefault : Bool
  /-- The directives on it. -/
  uses : List DirectiveUse
  deriving DecidableEq, Repr, Inhabited

/-- The declaration of a field. -/
structure FieldDecl where
  /-- Its description. -/
  description : Option String
  /-- Its name. -/
  name : String
  /-- Its arguments. -/
  args : List ValueDecl
  /-- Its type. -/
  type : TypeRef
  /-- The directives on it. -/
  uses : List DirectiveUse
  deriving DecidableEq, Repr, Inhabited

/-- The declaration of a member of an enum. -/
structure MemberDecl where
  /-- Its description. -/
  description : Option String
  /-- Its name. -/
  name : String
  /-- The directives on it. -/
  uses : List DirectiveUse
  deriving DecidableEq, Repr, Inhabited

/-- What a type declaration holds. -/
inductive DeclBody where
  | scalar
  | object (interfaces : List String) (fields : List FieldDecl)
  | interface (interfaces : List String) (fields : List FieldDecl)
  | union (members : List String)
  | enum (members : List MemberDecl)
  | inputObject (fields : List ValueDecl)
  deriving DecidableEq, Repr, Inhabited

/-- A **type declaration**: the definition of a type, or an extension of one. -/
structure TypeDecl where
  /-- Whether it extends a type. -/
  isExtension : Bool
  /-- Its description. -/
  description : Option String
  /-- The name of the type. -/
  name : String
  /-- The directives on it. -/
  uses : List DirectiveUse
  /-- What it holds. -/
  body : DeclBody
  deriving DecidableEq, Repr, Inhabited

/-- A **directive declaration**. -/
structure DirectiveDecl where
  /-- Its description. -/
  description : Option String
  /-- The name of the directive. -/
  name : String
  /-- Its arguments. -/
  args : List ValueDecl
  /-- The directives on it. -/
  uses : List DirectiveUse
  /-- Whether it may be applied twice at one place. -/
  isRepeatable : Bool
  /-- Where it may be applied. -/
  locations : List Location
  deriving DecidableEq, Repr, Inhabited

/-- A **directive extension**, which applies more directives to a directive. -/
structure DirectiveExtension where
  /-- The name of the directive. -/
  name : String
  /-- The directives that are applied to it. -/
  uses : List DirectiveUse
  deriving DecidableEq, Repr, Inhabited

/-- The **operations** that a schema can have a root type for. -/
inductive Operation where
  | query
  | mutation
  | subscription
  deriving DecidableEq, Repr, Inhabited

/-- The location of the directives on an operation. -/
def Operation.location : Operation → Location
  | .query => .query
  | .mutation => .mutation
  | .subscription => .subscription

/-- A **schema declaration**: the choice of the root types, or an extension of it. -/
structure SchemaDecl where
  /-- Whether it extends the choice. -/
  isExtension : Bool
  /-- The directives on it. -/
  uses : List DirectiveUse
  /-- The root types. -/
  roots : List (Operation × String)
  deriving DecidableEq, Repr, Inhabited

/-- What a part of a document **mentions**: types, and directives at their locations, each list of
them from one place. -/
structure Mentions where
  /-- The names of types. -/
  types : List String := []
  /-- The directives at each place. -/
  uses : List (Location × List DirectiveUse) := []
  deriving DecidableEq, Repr, Inhabited

/-- The mentions of two parts together. -/
def Mentions.append (a b : Mentions) : Mentions := ⟨a.types ++ b.types, a.uses ++ b.uses⟩

instance : Append Mentions := ⟨Mentions.append⟩

/-- All mentions of some parts. -/
def Mentions.concat (ms : List Mentions) : Mentions := ms.foldl (· ++ ·) {}

/-- A **definition** of a document. -/
inductive Definition where
  /-- Of the root types. -/
  | schema (d : SchemaDecl)
  /-- Of a type. -/
  | type (d : TypeDecl)
  /-- Of a directive. -/
  | directive (d : DirectiveDecl)
  /-- An extension of a directive. -/
  | directiveExtension (e : DirectiveExtension)
  /-- Of an operation or a fragment, which adds nothing to the schema. -/
  | executable (m : Mentions)
  deriving DecidableEq, Repr, Inhabited

/-- A **schema document** is a list of definitions. -/
abbrev SchemaDocument := List Definition

namespace SchemaDocument

/-- The choices of root types. -/
def schemas (d : SchemaDocument) : List SchemaDecl :=
  d.filterMap fun
    | .schema s => some s
    | _ => none

/-- The type declarations. -/
def types (d : SchemaDocument) : List TypeDecl :=
  d.filterMap fun
    | .type t => some t
    | _ => none

/-- The directive declarations. -/
def directives (d : SchemaDocument) : List DirectiveDecl :=
  d.filterMap fun
    | .directive r => some r
    | _ => none

/-- The extensions of directives. -/
def directiveExtensions (d : SchemaDocument) : List DirectiveExtension :=
  d.filterMap fun
    | .directiveExtension e => some e
    | _ => none

/-- What the operations and fragments mention. -/
def executables (d : SchemaDocument) : Mentions :=
  .concat (d.filterMap fun
    | .executable m => some m
    | _ => none)

/-- The definitions of types, without the extensions. -/
def definedTypes (d : SchemaDocument) : List TypeDecl := d.types.filter fun t => !t.isExtension

/-- The extensions of the type of a given name. -/
def extensionsOf (d : SchemaDocument) (name : String) : List TypeDecl :=
  d.types.filter fun t => t.isExtension && t.name == name

/-- The lists of directives on the directive of a given name: one from each extension of it. -/
def directiveExtensionsOf (d : SchemaDocument) (name : String) : List (List DirectiveUse) :=
  (d.directiveExtensions.filter (·.name == name)).map (·.uses)

end SchemaDocument

end QueryAssist
