import QueryAssist.Schema.Assembly
import QueryAssist.Sdl.Parse
import QueryAssist.Sdl.Validity

/-! # Schemas from documents

Main definitions:

* **`deprecation?`** — the reason that directives give not to use something.
* **`SchemaDocument.schema?`** — the schema that a valid document defines.
* **`Schema.readDefinitions`** — the schema that a text defines. -/

namespace QueryAssist

/-- The **reason** that the directives at a place give not to use what stands there. A reason that is
no string cannot be read. -/
def deprecation? (uses : List DirectiveUse) : Option (Option String) :=
  match uses.find? (·.name == "deprecated") with
  | none => some none
  | some u =>
    match u.args.lookup "reason" with
    | none => some (some "No longer supported")
    | some (.string text) => some (some text)
    | some _ => none

/-- Whether the address that the directives on a scalar give, if any, is a string. -/
def specifiedByFits (uses : List DirectiveUse) : Bool :=
  match uses.find? (·.name == "specifiedBy") with
  | none => true
  | some u =>
    match u.args.lookup "url" with
    | some (.string _) => true
    | _ => false

/-- A text as a remark. -/
def Remark.ofText? (text : Option String) : Option Remark := text.map JsonValue.string

/-- The argument or input field that is declared. -/
def ValueDecl.build? (v : ValueDecl) : Option InputValue :=
  (deprecation? v.uses).map fun reason => 
    ⟨v.name, v.type, Remark.ofText? v.description, Remark.ofText? reason⟩

/-- The field that is declared. -/
def FieldDecl.build? (f : FieldDecl) : Option Field := do
  let args ← f.args.mapM ValueDecl.build?
  let reason ← deprecation? f.uses
  pure ⟨f.name, f.type, args, Remark.ofText? f.description, Remark.ofText? reason⟩

/-- The member of an enum that is declared. -/
def MemberDecl.build? (m : MemberDecl) : Option EnumMember :=
  (deprecation? m.uses).map fun reason => 
    ⟨m.name, Remark.ofText? m.description, Remark.ofText? reason⟩

/-- The members of an enum that are declared. A reason that cannot be read makes all of them
unknown, but not the enum. -/
def EnumMembers.ofDecls (ms : List MemberDecl) : EnumMembers :=
  match ms.mapM MemberDecl.build? with
  | some ms => .known ms
  | none => .faulty .reason

/-- The directive that is declared. The reasons not to use it, its own and those of its extensions,
must be readable. -/
def DirectiveDecl.build? (d : DirectiveDecl) (extensions : List (List DirectiveUse)) :
    Option Directive := do
  let args ← d.args.mapM ValueDecl.build?
  let _ ← (d.uses :: extensions).mapM deprecation?
  pure ⟨d.name, Remark.ofText? d.description, d.locations, args⟩

/-- A type from its definition and its extensions. One with the name of a built-in type is that. -/
def TypeDecl.build? (t : TypeDecl) (extensions : List TypeDecl) : Option TypeDef :=
  match builtinType? t.name with
  | some b => some b
  | none => do
    let bodies := t.body :: extensions.map (·.body)
    let description := Remark.ofText? t.description
    let interfaces := bodies.flatMap DeclBody.interfaces
    let fields ← (bodies.flatMap DeclBody.fields).mapM FieldDecl.build?
    let members := EnumMembers.ofDecls (bodies.flatMap DeclBody.enumMembers)
    let inputs ← (bodies.flatMap DeclBody.inputFields).mapM ValueDecl.build?
    match t.body.kind with
    | .scalar =>
      if (t.uses :: extensions.map (·.uses)).all specifiedByFits then
        pure ⟨t.name, description, .scalar⟩
      else none
    | .object => pure ⟨t.name, description, .object interfaces fields⟩
    | .interface => pure ⟨t.name, description, .interface interfaces fields⟩
    | .union => pure ⟨t.name, description, .union (bodies.flatMap DeclBody.unionMembers)⟩
    | .enum => pure ⟨t.name, description, .enum members⟩
    | .inputObject => pure ⟨t.name, description, .inputObject inputs⟩

namespace SchemaDocument

/-- The root type of an operation. Without a choice of root types a type with the usual name is one,
whatever the extensions of the choice say. -/
def rootType? (d : SchemaDocument) (o : Operation) (usual : String) : Option String :=
  let chosen := (d.schemas.flatMap (·.roots)).lookup o
  if d.schemas.any fun s => !s.isExtension then chosen
  else if d.definedTypes.any (·.name == usual) then some usual
  else chosen

/-- The **schema** that a document defines, if it is valid. The built-in directives that it does not
declare come last. -/
def schema? (d : SchemaDocument) : Option Schema := do
  if d.isValid then
    let types ← d.definedTypes.mapM fun t => t.build? (d.extensionsOf t.name)
    let declared ← d.directives.mapM fun r => r.build? (d.directiveExtensionsOf r.name)
    let missing := builtinDirectives.filter fun b => !declared.any (·.name == b.name)
    pure (Schema.assemble (d.rootType? .query "Query") (d.rootType? .mutation "Mutation")
      (d.rootType? .subscription "Subscription") types (declared ++ missing))
  else none

end SchemaDocument

/-- The schema that a text **defines**. What is no valid document counts as malformed. -/
def Schema.readDefinitions (nesting : Nesting) (text : List Char) : Except Sdl.Fault Schema := do
  match (← SchemaDocument.read nesting text).schema? with
  | some s => pure s
  | none => throw .malformed

/-- The schema that a text defines, for a reader with the usual limit. -/
def Schema.ofDefinitions? (text : List Char) : Option Schema :=
  (Schema.readDefinitions {} text).toOption

end QueryAssist
