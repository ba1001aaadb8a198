import QueryAssist.Schema.Builtin
import QueryAssist.Sdl.Document

/-! # Valid schema documents

What a schema document must keep to beyond its grammar. Main definitions:

* **`SchemaDocument.namesUnique`** — no two definitions of one name in one place.
* **`SchemaDocument.typesKnown`** — every type that is mentioned is defined.
* **`SchemaDocument.extensionsFit`** — every extension extends a definition of its kind.
* **`SchemaDocument.usesFit`** — directives are applied where and how they are declared.
* **`SchemaDocument.isValid`** — all of these. -/

namespace QueryAssist

/-- Whether the names of some things are all different. -/
def allDistinct (names : List String) : Bool := decide names.Nodup

namespace DeclBody

/-- The kind of type that a body belongs to. -/
def kind : DeclBody → TypeKind
  | scalar => .scalar
  | object _ _ => .object
  | interface _ _ => .interface
  | union _ => .union
  | enum _ => .enum
  | inputObject _ => .inputObject

/-- The interfaces of a body. -/
def interfaces : DeclBody → List String
  | object is _ | interface is _ => is
  | _ => []

/-- The fields of a body. -/
def fields : DeclBody → List FieldDecl
  | object _ fs | interface _ fs => fs
  | _ => []

/-- The members of a union. -/
def unionMembers : DeclBody → List String
  | union ms => ms
  | _ => []

/-- The members of an enum. -/
def enumMembers : DeclBody → List MemberDecl
  | enum ms => ms
  | _ => []

/-- The fields of an input object. -/
def inputFields : DeclBody → List ValueDecl
  | inputObject fs => fs
  | _ => []

/-- The names that must be different in a body, also across its extensions. -/
def memberNames (b : DeclBody) : List String :=
  b.fields.map (·.name) ++ b.enumMembers.map (·.name) ++ b.inputFields.map (·.name)

/-- The types that a body mentions. -/
def typesMentioned (b : DeclBody) : List String :=
  b.interfaces ++ b.unionMembers ++ b.inputFields.map (·.type.base) ++
    b.fields.flatMap fun f => f.type.base :: f.args.map (·.type.base)

end DeclBody

namespace TypeDecl

/-- The location of the directives on a type. -/
def location (t : TypeDecl) : Location :=
  match t.body.kind with
  | .scalar => .scalar
  | .object => .object
  | .interface => .interface
  | .union => .union
  | .enum => .enum
  | .inputObject => .inputObject

/-- The directives on the parts of a type. -/
def innerUses (t : TypeDecl) : List (Location × List DirectiveUse) :=
  t.body.enumMembers.map (fun m => (.enumValue, m.uses)) ++
    t.body.inputFields.map (fun v => (.inputFieldDefinition, v.uses)) ++
    t.body.fields.flatMap fun f =>
      (.fieldDefinition, f.uses) :: f.args.map fun a => (.argumentDefinition, a.uses)

end TypeDecl

namespace DirectiveDecl

/-- The directives on the arguments of a directive. -/
def innerUses (d : DirectiveDecl) : List (Location × List DirectiveUse) :=
  d.args.map fun a => (.argumentDefinition, a.uses)

end DirectiveDecl

/-- What must be known of a directive to judge its uses. -/
structure DirectiveRules where
  /-- Where it may stand. -/
  locations : List Location
  /-- Its arguments. -/
  args : List String
  /-- The arguments that must be given. -/
  required : List String
  /-- Whether it may stand twice at one place. -/
  isRepeatable : Bool
  deriving DecidableEq, Repr, Inhabited

namespace DirectiveRules

/-- Whether a type has no null. -/
def isNonNull : TypeRef → Bool
  | .nonNull _ => true
  | _ => false

/-- The rules of a declared directive. -/
def ofDecl (d : DirectiveDecl) : DirectiveRules :=
  ⟨d.locations, d.args.map (·.name),
    (d.args.filter fun a => isNonNull a.type && !a.hasDefault).map (·.name), d.isRepeatable⟩

/-- The rules of a built-in directive. Of their arguments only the reason of a deprecation has a
default. -/
def ofBuiltin (d : Directive) : DirectiveRules :=
  ⟨d.locations, d.args.map (·.name),
    (d.args.filter fun a => isNonNull a.type && a.name != "reason").map (·.name), false⟩

/-- Whether a use at a location keeps to the rules. -/
def permits (r : DirectiveRules) (l : Location) (u : DirectiveUse) : Bool :=
  r.locations.contains l && u.args.all (fun (n, _) => r.args.contains n) &&
    r.required.all fun n => u.args.any (·.1 == n)

end DirectiveRules

namespace SchemaDocument

/-- No two definitions share a name: of types, of directives, of the members of a type with its
extensions, of the arguments of a field or directive. There is one choice of root types, and one
root type for each operation. -/
def namesUnique (d : SchemaDocument) : Bool :=
  (d.schemas.filter fun s => !s.isExtension).length ≤ 1 &&
    decide ((d.schemas.flatMap fun s => s.roots.map Prod.fst).Nodup) &&
    allDistinct (d.definedTypes.map (·.name)) && allDistinct (d.directives.map (·.name)) &&
    (d.types.all fun t =>
      allDistinct ((d.types.filter (·.name == t.name)).flatMap (·.body.memberNames)) &&
        t.body.fields.all fun f => allDistinct (f.args.map (·.name))) &&
    d.directives.all fun r => allDistinct (r.args.map (·.name))

/-- The types that the schema part of a document mentions. -/
def typesMentioned (d : SchemaDocument) : List String :=
  (d.schemas.flatMap fun s => s.roots.map Prod.snd) ++ (d.types.flatMap (·.body.typesMentioned)) ++
    d.directives.flatMap fun r => r.args.map (·.type.base)

/-- Every type that is mentioned is defined. Built-in types need no definition, but operations and
fragments only see those that have one. -/
def typesKnown (d : SchemaDocument) : Bool :=
  let defined := d.definedTypes.map (·.name)
  (d.typesMentioned.all fun n => defined.contains n || (builtinType? n).isSome) &&
    d.executables.types.all defined.contains

/-- Every extension of a type extends one that is defined, and is of the same kind. -/
def extensionsFit (d : SchemaDocument) : Bool :=
  (d.types.filter (·.isExtension)).all fun e =>
    (d.definedTypes.find? (·.name == e.name)).any fun t => t.body.kind == e.body.kind

/-- The rules of a directive: its declaration comes before a built-in one. -/
def rules? (d : SchemaDocument) (name : String) : Option DirectiveRules :=
  match d.directives.find? (·.name == name) with
  | some r => some (.ofDecl r)
  | none => (builtinDirectives.find? (·.name == name)).map .ofBuiltin

/-- The directives on the parts of types and directives, and in operations and fragments, each list
of them at its own place. -/
def innerUses (d : SchemaDocument) : List (Location × List DirectiveUse) :=
  d.types.flatMap TypeDecl.innerUses ++ d.directives.flatMap DirectiveDecl.innerUses ++
    d.executables.uses

/-- The directives at all places. -/
def allUses (d : SchemaDocument) : List (Location × List DirectiveUse) :=
  d.schemas.map (fun s => (.schema, s.uses)) ++ d.types.map (fun t => (t.location, t.uses)) ++
    d.directives.map (fun r => (.directiveDefinition, r.uses)) ++
    d.directiveExtensions.map (fun e => (.directiveDefinition, e.uses)) ++ d.innerUses

/-- All directives on the directive of a given name, those of its extensions included. -/
def usesOnDirective (d : SchemaDocument) (name : String) : List DirectiveUse :=
  ((d.directives.filter (·.name == name)).flatMap (·.uses)) ++
    (d.directiveExtensionsOf name).flatten

/-- The directives that count as standing at one place: a definition and its extensions are one. -/
def usesByPlace (d : SchemaDocument) : List (List DirectiveUse) :=
  [d.schemas.flatMap (·.uses)] ++
    (d.types.map fun t => (d.types.filter (·.name == t.name)).flatMap (·.uses)) ++
    (d.directives.map (·.name) ++ d.directiveExtensions.map (·.name)).map d.usesOnDirective ++
    d.innerUses.map Prod.snd

/-- Every directive is known, stands where it may, has the arguments that it must and may have, and
is not repeated at one place unless it is repeatable. -/
def usesFit (d : SchemaDocument) : Bool :=
  (d.allUses.all fun (l, us) => us.all fun u => (d.rules? u.name).any (·.permits l u)) &&
    d.usesByPlace.all fun us =>
      allDistinct ((us.map (·.name)).filter fun n =>
        (d.rules? n).any fun r => !r.isRepeatable)

/-- Whether a document **is valid**. -/
def isValid (d : SchemaDocument) : Bool :=
  d.namesUnique && d.typesKnown && d.extensionsFit && d.usesFit

end SchemaDocument

end QueryAssist
