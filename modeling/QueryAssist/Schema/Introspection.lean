import QueryAssist.Json.Value
import QueryAssist.Schema.Assembly
import QueryAssist.Sdl.Parse

/-! # Schemas from introspection

A schema can describe itself, and the description, a JSON value, can be turned back into the schema.
Main definitions:

* **`DescriptionFault`** — why a description cannot be gone through.
* **`Introspection.Refusal`** — why it gives no schema.
* **`Introspection.Listed`** — a type as it is listed, before what it refers to is looked up.
* **`Introspection.schema`** — the schema that a description gives, if it is complete. -/

namespace QueryAssist

/-- Why a description **cannot be gone through**. -/
inductive DescriptionFault where
  /-- A member that nothing can stand in for is missing. -/
  | missing
  /-- A value that must have members is no object. -/
  | notObject
  /-- Something is nested deeper than the stack of the machine reaches. -/
  | overflow
  deriving DecidableEq, Repr, Inhabited

namespace Introspection

/-- Why a description gives **no schema**. -/
inductive Refusal where
  /-- It leaves something out, or refers to what is not in it. -/
  | incomplete
  /-- It cannot be gone through. -/
  | fault (f : DescriptionFault)
  deriving DecidableEq, Repr, Inhabited

/-- What is **read** from a description. -/
abbrev Read (α : Type) := Except Refusal α

/-! ## Reading JSON values -/

/-- A value that is there, or else the description is incomplete. -/
def found {α : Type} (x : Option α) : Read α :=
  match x with
  | some a => .ok a
  | none => .error .incomplete

/-- A part whose faults all count as incompleteness. -/
def part {α : Type} (x : Read α) : Read α := x.mapError fun _ => .incomplete

/-- The member that an object must have. -/
def need (v : JsonValue) (key : String) : Read JsonValue :=
  match v with
  | .object _ =>
    match v.member? key with
    | some m => .ok m
    | none => .error (.fault .missing)
  | _ => .error .incomplete

/-- The member that an object may have; null is none. -/
def look (v : JsonValue) (key : String) : Read (Option JsonValue) :=
  match v with
  | .object _ => .ok (v.given? key)
  | _ => .error (.fault .notObject)

/-- What a value that can be gone through holds: the items of an array, the keys of an object, the
characters of a string. -/
def items (v : JsonValue) : Read (List JsonValue) :=
  match v with
  | .array vs => .ok vs
  | .object ms => .ok (ms.map fun m => .string m.1)
  | .string t => .ok (t.toList.map fun c => .string (String.singleton c))
  | _ => .error .incomplete

/-- The items of a member that may not be left out. -/
def itemsOf (v : JsonValue) (key : String) : Read (List JsonValue) := do
  items (← found (← look v key))

/-- Whether a value can be the key of an entry. -/
def isKey : JsonValue → Bool
  | .array _ | .object _ => false
  | _ => true

/-- The text of a value that has the form of a name. -/
def nameOf? (v : JsonValue) : Option String := v.text?.filter fun n => Lexeme.isName n.toList

/-- The member of a name as a text; one that is missing or null is no text. -/
def optionalText (v : JsonValue) (key : String) : Read (Option String) := do
  match ← look v key with
  | none => pure none
  | some m => some <$> found m.text?

/-- The things that some values describe, each name once with what comes last for it. -/
def byName {α : Type} (name : α → String) (as : List α) : List α :=
  (Entries.ofPairs (as.map fun a => (name a, a))).map Prod.snd

/-! ## The list of types -/

/-- The kind of type that a word names. -/
def typeKind? : String → Option TypeKind
  | "SCALAR" => some .scalar
  | "OBJECT" => some .object
  | "INTERFACE" => some .interface
  | "UNION" => some .union
  | "ENUM" => some .enum
  | "INPUT_OBJECT" => some .inputObject
  | _ => none

/-- A type **as it is listed**. -/
structure Listed where
  /-- Its name. -/
  name : String
  /-- Its kind. -/
  kind : TypeKind
  /-- Its whole description. -/
  value : JsonValue
  deriving Repr, Inhabited

/-- What must hold of a type before any other is looked at: an enum lists its members, a union its
types and an input object its fields. A built-in name belongs to a scalar, an object or an enum. -/
def isSound (l : Listed) : Bool :=
  let isBuiltin := (builtinType? l.name).isSome
  match l.kind with
  | .scalar | .object => true
  | .interface => !isBuiltin
  | .union => !isBuiltin && (l.value.given? "possibleTypes").isSome
  | .inputObject => !isBuiltin && (l.value.given? "inputFields").isSome
  | .enum => (l.value.given? "enumValues").isSome

/-- The type that a value lists. -/
def listed (v : JsonValue) : Read Listed := do
  let name ← found (nameOf? (← need v "name"))
  let kind ← found (((v.member? "kind").bind JsonValue.text?).bind typeKind?)
  let l : Listed := ⟨name, kind, v⟩
  if isSound l then pure l else .error .incomplete

/-! ## References -/

/-- The kinds of the types that can be referred to. -/
def kindOf? (ls : List Listed) (name : String) : Option TypeKind :=
  (ls.find? (·.name == name)).map fun l => ((builtinType? name).map TypeDef.kind).getD l.kind

/-- The listed type that a value names, without wrappers. -/
def plainRef (ls : List Listed) (v : JsonValue) : Read String := do
  let n ← found ((← look v "name").bind JsonValue.text?)
  if (kindOf? ls n).isSome then pure n else .error .incomplete

/-- The reference that a value gives, to a type that is listed. Each wrapper of the type stands
inside the one around it. -/
def typeRef (nesting : Nesting) (ls : List Listed) (opened : List Bracket) (v : JsonValue) :
    Read TypeRef :=
  let kind := (v.member? "kind").bind JsonValue.text?
  if kind = some "LIST" ∨ kind = some "NON_NULL" then
    match _h : v.member? "ofType" with
    | none => .error .incomplete
    | some inner =>
      if inner.isVoid then .error .incomplete
      else if nesting.fits (.listType :: opened) then do
        match kind, ← typeRef nesting ls (.listType :: opened) inner with
        | some "LIST", t => pure (.list t)
        | _, .nonNull _ => .error .incomplete
        | _, t => pure (.nonNull t)
      else .error (.fault .overflow)
  else TypeRef.named <$> plainRef ls v
termination_by sizeOf v
decreasing_by exact JsonValue.sizeOf_member?_lt _h

/-- The name that a value refers to, of a type of a given kind. -/
def reference (ls : List Listed) (kind : TypeKind) (v : JsonValue) : Read String := do
  let n ← plainRef ls v
  if kindOf? ls n = some kind then pure n else .error .incomplete

/-- Whether a reference is to a type of one of some kinds, under any wrappers. -/
def isOfKind (ls : List Listed) (kinds : List TypeKind) (t : TypeRef) : Bool :=
  (kindOf? ls t.base).any kinds.contains

/-! ## Members of types -/

/-- Read a text as a constant value. -/
def constant (nesting : Nesting) (text : String) : Read Unit :=
  match Sdl.ofText nesting (Sdl.writtenValue true) text.toList with
  | .ok _ => .ok ()
  | .error .malformed => .error .incomplete
  | .error .overflow => .error (.fault .overflow)

section

variable (nesting : Nesting) (ls : List Listed)

/-- The argument or input field of a given name that a value describes. -/
def inputValue (name : String) (v : JsonValue) : Read InputValue := do
  let t ← typeRef nesting ls [] (← need v "type")
  if isOfKind ls [.scalar, .enum, .inputObject] t then
    match ← optionalText v "defaultValue" with
    | none => pure ()
    | some text => constant nesting text
    pure ⟨name, t, ← look v "description", ← look v "deprecationReason"⟩
  else .error .incomplete

/-- Some arguments or input fields, each of which gives its name. The names are judged once all are
read. -/
def inputValues (v : JsonValue) (key : String) : Read (List InputValue) := do
  let named ← (← itemsOf v key).mapM fun a => do
    let name ← need a "name"
    let value ← inputValue nesting ls (name.text?.getD "") a
    if isKey name then pure (name, value) else .error .incomplete
  if named.all fun (name, _) => (nameOf? name).isSome then
    pure (byName (·.name) (named.map Prod.snd))
  else .error .incomplete

/-- The field that a value describes. -/
def field (v : JsonValue) : Read Field := do
  let name ← found (nameOf? (← need v "name"))
  let t ← typeRef nesting ls [] (← need v "type")
  if isOfKind ls [.scalar, .object, .interface, .union, .enum] t then
    let args ← inputValues nesting ls v "args"
    pure ⟨name, t, args, ← look v "description", ← look v "deprecationReason"⟩
  else .error .incomplete

/-- Some fields. -/
def fields (v : JsonValue) : Read (List Field) := do
  let fs ← (← itemsOf v "fields").mapM (field nesting ls)
  pure (byName (·.name) fs)

end

/-- The interfaces that a type implements. Only an interface need not list them. -/
def interfaces (ls : List Listed) (l : Listed) : Read (List String) := do
  match l.kind, ← look l.value "interfaces" with
  | .interface, none => pure []
  | _, none => .error .incomplete
  | _, some vs => (← items vs).mapM (reference ls .interface)

/-- The names of the members of an enum with what is said of them, from a list of members. -/
def enumEntries : List JsonValue → Except MemberFault (List (JsonValue × JsonValue))
  | [] => .ok []
  | v :: vs =>
    match need v "name" with
    | .error (.fault .missing) => .error .nameless
    | .error _ => .error .malformed
    | .ok name =>
      if isKey name then (enumEntries vs).map ((name, v) :: ·) else .error .malformed

/-- The member of an enum of a given name. The three literals are no names here. -/
def enumMember (name v : JsonValue) : Except MemberFault EnumMember :=
  match name.text? with
  | none => .error .malformed
  | some n =>
    if Lexeme.isName n.toList ∧ ¬ (n = "true" ∨ n = "false" ∨ n = "null") then
      .ok ⟨n, v.given? "description", v.given? "deprecationReason"⟩
    else .error .misnamed

/-- The members of an enum. -/
def enumMembers (l : Listed) : EnumMembers :=
  match items ((l.value.member? "enumValues").getD .null) with
  | .error _ => .faulty .malformed
  | .ok vs =>
    match (do (← enumEntries vs).mapM fun (name, v) => enumMember name v) with
    | .ok ms => .known (byName (·.name) ms)
    | .error f => .faulty f

section

variable (nesting : Nesting) (ls : List Listed)

/-- The body of a listed type. -/
def body (l : Listed) : Read TypeBody :=
  match l.kind with
  | .scalar => pure .scalar
  | .object => do
    pure (.object (← interfaces ls l) (← fields nesting ls l.value))
  | .interface => do
    pure (.interface (← interfaces ls l) (← fields nesting ls l.value))
  | .union => do
    pure (.union (← (← itemsOf l.value "possibleTypes").mapM (reference ls .object)))
  | .enum => pure (.enum (enumMembers l))
  | .inputObject => do
    pure (.inputObject (← inputValues nesting ls l.value "inputFields"))

/-- The type that is listed: the built-in one of its name, or the one that is described. -/
def type (l : Listed) : Read TypeDef :=
  match builtinType? l.name with
  | some b => pure b
  | none => part do
    let description ← look l.value "description"
    pure ⟨l.name, description, ← body nesting ls l⟩

/-! ## The schema -/

/-- The directive that a value describes. -/
def directive (v : JsonValue) : Read Directive := do
  let _ ← found (← look v "args")
  let places ← found (← look v "locations")
  let name ← need v "name"
  let labels ← items places
  let args ← inputValues nesting ls v "args"
  let name ← found (nameOf? name)
  let locations ← found (labels.mapM fun l => l.text?.bind Location.ofLabel?)
  pure ⟨name, ← look v "description", locations, args⟩

/-- The directives of a description. They need not be listed. -/
def directives (v : JsonValue) : Read (List Directive) := do
  match v.member? "directives" with
  | none => pure []
  | some ds => if ds.isVoid then pure [] else (← items ds).mapM (directive nesting ls)

end

/-- The root type that a member refers to, if it is given. -/
def root (ls : List Listed) (v : JsonValue) (key : String) : Read (Option String) := do
  match ← look v key with
  | none => pure none
  | some m => some <$> reference ls .object m

/-- The **schema** that a description gives. The types are listed first; what they consist of is
looked at last. -/
def schema (nesting : Nesting) (v : JsonValue) : Read Schema :=
  match v with
  | .object _ => do
    let ls := byName (·.name) (← (← items (← need v "types")).mapM listed)
    let query ← root ls v "queryType"
    let mutation ← root ls v "mutationType"
    let subscription ← root ls v "subscriptionType"
    let directives ← directives nesting ls v
    let types ← ls.mapM (type nesting ls)
    pure (Schema.assemble query mutation subscription types directives)
  | _ => .error .incomplete

end Introspection

end QueryAssist
