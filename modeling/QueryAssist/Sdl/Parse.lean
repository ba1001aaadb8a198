import QueryAssist.Sdl.Document
import QueryAssist.Sdl.Lexeme

/-! # Reading a schema document

Brackets can be nested as deep as a text has them. A reader may refuse to go deeper than a limit of
its own, and the stack of the machine can give out before. Main definitions:

* **`Nesting`** — how deep brackets may be nested.
* **`Sdl.Parse`** — what reads a part of a document from the lexemes ahead, or fails.
* **`Sdl.nested`** — a part that can hold parts of its own kind.
* **`TypeRef.parse?`** — the type reference that a text writes.
* **`SchemaDocument.read`** — the document that a text writes. -/

namespace QueryAssist

/-- The kinds of **brackets** that can be nested. -/
inductive Bracket where
  /-- Around the items of a list type. -/
  | listType
  /-- Around the items of a list value. -/
  | list
  /-- Around the fields of an object value. -/
  | object
  /-- Around selections. -/
  | selections
  deriving DecidableEq, Repr, Inhabited

/-- How deep brackets may be **nested**. Both numbers are the reader's and the machine's, not the
language's: some readers count the brackets that are open and refuse the text at their limit, 200 in
those that have one, and others go on until the stack of the machine gives out. -/
structure Nesting where
  /-- How many brackets may be open at once, for a reader that counts them. -/
  limit : Option Nat := some 200
  /-- Whether the stack is large enough while some brackets are open, the innermost one first. By
  default it always is. -/
  fits : List Bracket → Bool := fun _ => true
  deriving Inhabited

namespace Sdl

/-- Why a text is **not read**. -/
inductive Fault where
  /-- It does not have the form of what is read. -/
  | malformed
  /-- The stack gives out. -/
  | overflow
  deriving DecidableEq, Repr, Inhabited

/-- What a reader goes by, and which brackets are **open** around the lexemes ahead. -/
structure Context where
  /-- How deep brackets may be nested. -/
  nesting : Nesting
  /-- The open brackets, the innermost one first. -/
  opened : List Bracket := []
  deriving Inhabited

/-- A **reader** of a part of a document: it takes lexemes from those ahead, or fails. -/
abbrev Parse := ReaderT Context (StateT (List Lexeme) (Except Fault))

/-- What is ahead does not have the form of the part. -/
def refuse {α : Type} : Parse α := throw .malformed

/-- Take the next lexeme. -/
def next : Parse Lexeme := do
  match ← get with
  | [] => refuse
  | t :: ts =>
    set ts
    pure t

/-- Whether the next lexeme is a given one. -/
def ahead (t : Lexeme) : Parse Bool := do
  pure ((← get).head? == some t)

/-- Take a given lexeme. -/
def expect (t : Lexeme) : Parse Unit := do
  if (← next) = t then pure () else refuse

/-- Take a given lexeme if it is next, and tell whether it was. -/
def accept (t : Lexeme) : Parse Bool := do
  if ← ahead t then
    let _ ← next
    pure true
  else pure false

/-- Take a mark. -/
def mark (text : String) : Parse Unit := expect (.mark text)

/-- Take a keyword. -/
def keyword (text : String) : Parse Unit := expect (.name text)

/-- Take a name. -/
def name : Parse String := do
  match ← next with
  | .name text => pure text
  | _ => refuse

/-- Read parts as long as the lexeme ahead is in a class. A part takes something. -/
def whileAhead {α : Type} (p : Lexeme → Bool) (part : Parse α) (c : Context) (ts : List Lexeme) :
    Except Fault (List α × List Lexeme) :=
  if ts.head?.any p then
    match part c ts with
    | .ok (a, rest) =>
      if _h : rest.length < ts.length then
        (whileAhead p part c rest).map fun (as, rest) => (a :: as, rest)
      else .error .malformed
    | .error f => .error f
  else .ok ([], ts)
termination_by ts.length

/-- A part that can hold parts of **its own kind**, which begin further on. -/
def nested {α : Type} (body : Parse α → Parse α) (c : Context) (ts : List Lexeme) :
    Except Fault (α × List Lexeme) :=
  let inner : Parse α := fun c rest =>
    if _h : rest.length < ts.length then nested body c rest else .error .malformed
  body inner c ts
termination_by ts.length

/-- Read what is **inside** a bracket. -/
def inside {α : Type} (b : Bracket) (part : Parse α) : Parse α := do
  let c ← read
  if c.nesting.limit.any (· ≤ c.opened.length) then refuse
  else if c.nesting.fits (b :: c.opened) then
    withReader (fun c => { c with opened := b :: c.opened }) part
  else throw .overflow

/-- Read parts up to a closing mark, and take the mark. -/
def upTo {α : Type} (close : String) (part : Parse α) : Parse (List α) := do
  let as ← (whileAhead (· != .mark close) part : Parse (List α))
  mark close
  pure as

/-- Read at least one part between two marks. -/
def between {α : Type} (opening close : String) (part : Parse α) : Parse (List α) := do
  mark opening
  let as ← upTo close part
  if as.isEmpty then refuse else pure as

/-- Read at least one part between two marks, or nothing if the first mark is missing. -/
def optionallyBetween {α : Type} (opening close : String) (part : Parse α) : Parse (List α) := do
  if ← ahead (.mark opening) then between opening close part else pure []

/-- Read at least one part with a mark between each two, and perhaps one more in front. -/
def delimited {α : Type} (separator : String) (part : Parse α) : Parse (List α) := do
  let _ ← accept (.mark separator)
  let a ← part
  let as ← whileAhead (· == .mark separator) (do mark separator; part)
  pure (a :: as)

/-- A description, if one is ahead. -/
def description : Parse (Option String) := do
  match ← get with
  | .string text :: ts =>
    set ts
    pure (some text)
  | _ => pure none

/-! ## Values, directives and types -/

/-- The pairs, if no name is given twice. -/
def distinct {α : Type} (pairs : List (String × α)) : Parse (List (String × α)) :=
  if (pairs.map Prod.fst).Nodup then pure pairs else refuse

/-- A value that is neither a list nor an object. A constant has no variables in it. -/
def simpleValue (constant : Bool) : Parse WrittenValue := do
  match ← next with
  | .string text => pure (.string text)
  | .number | .name _ => pure .other
  | .mark "$" =>
    if constant then refuse
    else
      let _ ← name
      pure .other
  | _ => refuse

/-- A list or object of some parts. It is ambiguous as soon as a part is. -/
def compound (parts : List WrittenValue) : WrittenValue :=
  if parts.contains .ambiguous then .ambiguous else .other

/-- A value as it is written, perhaps an ambiguous one. -/
def writtenValue (constant : Bool) : Parse WrittenValue :=
  nested fun inner => do
    if ← accept (.mark "[") then
      pure (compound (← inside .list (upTo "]" inner)))
    else if ← accept (.mark "\x7b") then
      let fields ← inside .object (upTo "\x7d" (do
        let key ← name
        mark ":"
        pure (key, ← inner)))
      if (fields.map Prod.fst).Nodup then pure (compound (fields.map Prod.snd))
      else pure .ambiguous
    else simpleValue constant

/-- A value that is not ambiguous. -/
def value (constant : Bool) : Parse WrittenValue := do
  let v ← writtenValue constant
  if v = .ambiguous then refuse else pure v

/-- The arguments of a field or directive, which have different names. -/
def arguments (constant : Bool) : Parse (List (String × WrittenValue)) := do
  distinct (← optionallyBetween "(" ")" (do
    let key ← name
    mark ":"
    pure (key, ← value constant)))

/-- The directives at a place. -/
def uses (constant : Bool) : Parse (List DirectiveUse) :=
  whileAhead (· == .mark "@") (do
    mark "@"
    let d ← name
    pure ⟨d, ← arguments constant⟩)

/-- A type reference. -/
def typeRef : Parse TypeRef :=
  nested fun inner => do
    let t ←
      if ← accept (.mark "[") then
        let item ← inside .listType inner
        mark "]"
        pure (TypeRef.list item)
      else TypeRef.named <$> name
    if ← accept (.mark "!") then pure (.nonNull t) else pure t

/-! ## Definitions of a schema -/

/-- The declaration of an argument or of a field of an input object. -/
def valueDecl : Parse ValueDecl := do
  let d ← description
  let n ← name
  mark ":"
  let t ← typeRef
  let hasDefault ← accept (.mark "=")
  if hasDefault then
    let _ ← value true
  pure ⟨d, n, t, hasDefault, ← uses true⟩

/-- The declarations of the arguments of a field or directive. -/
def argumentDecls : Parse (List ValueDecl) := optionallyBetween "(" ")" valueDecl

/-- The declaration of a field. -/
def fieldDecl : Parse FieldDecl := do
  let d ← description
  let n ← name
  let args ← argumentDecls
  mark ":"
  let t ← typeRef
  pure ⟨d, n, args, t, ← uses true⟩

/-- The declaration of a member of an enum, which is none of the three literals. -/
def memberDecl : Parse MemberDecl := do
  let d ← description
  let n ← name
  if n = "true" ∨ n = "false" ∨ n = "null" then refuse
  else pure ⟨d, n, ← uses true⟩

/-- The interfaces that a type implements. -/
def interfaces : Parse (List String) := do
  if ← accept (.name "implements") then delimited "&" name else pure []

/-- The rest of a type declaration after its keyword: its name, directives and body. -/
def typeRest : TypeKind → Parse (String × List DirectiveUse × DeclBody)
  | .scalar => do
    let n ← name
    pure (n, ← uses true, .scalar)
  | .object => do
    let n ← name
    let is ← interfaces
    let us ← uses true
    pure (n, us, .object is (← optionallyBetween "\x7b" "\x7d" fieldDecl))
  | .interface => do
    let n ← name
    let is ← interfaces
    let us ← uses true
    pure (n, us, .interface is (← optionallyBetween "\x7b" "\x7d" fieldDecl))
  | .union => do
    let n ← name
    let us ← uses true
    let ms ← if ← accept (.mark "=") then delimited "|" name else pure []
    pure (n, us, .union ms)
  | .enum => do
    let n ← name
    let us ← uses true
    pure (n, us, .enum (← optionallyBetween "\x7b" "\x7d" memberDecl))
  | .inputObject => do
    let n ← name
    let us ← uses true
    pure (n, us, .inputObject (← optionallyBetween "\x7b" "\x7d" valueDecl))

/-- The kind of type that a keyword declares. -/
def typeKind? : String → Option TypeKind
  | "scalar" => some .scalar
  | "type" => some .object
  | "interface" => some .interface
  | "union" => some .union
  | "enum" => some .enum
  | "input" => some .inputObject
  | _ => none

/-- The operation that a keyword names. -/
def operation? : String → Option Operation
  | "query" => some .query
  | "mutation" => some .mutation
  | "subscription" => some .subscription
  | _ => none

/-- The root type of an operation. -/
def root : Parse (Operation × String) := do
  match operation? (← name) with
  | some o =>
    mark ":"
    pure (o, ← name)
  | none => refuse

/-- Whether a body holds nothing. -/
def isBare : DeclBody → Bool
  | .scalar => true
  | .object is fs => is.isEmpty && fs.isEmpty
  | .interface is fs => is.isEmpty && fs.isEmpty
  | .union ms => ms.isEmpty
  | .enum ms => ms.isEmpty
  | .inputObject fs => fs.isEmpty

/-- An extension, which must add something. -/
def extension : Parse Definition := do
  let k ← name
  if k = "schema" then
    let us ← uses true
    let rs ← optionallyBetween "\x7b" "\x7d" root
    if us.isEmpty && rs.isEmpty then refuse else pure (.schema ⟨true, us, rs⟩)
  else if k = "directive" then
    mark "@"
    let n ← name
    let us ← uses true
    if us.isEmpty then refuse else pure (.directiveExtension ⟨n, us⟩)
  else
    match typeKind? k with
    | some kind =>
      let (n, us, body) ← typeRest kind
      if us.isEmpty && isBare body then refuse else pure (.type ⟨true, none, n, us, body⟩)
    | none => refuse

/-- The declaration of a directive after its keyword. -/
def directiveRest (d : Option String) : Parse Definition := do
  mark "@"
  let n ← name
  let args ← argumentDecls
  let us ← uses true
  let repeatable ← accept (.name "repeatable")
  keyword "on"
  let locations ← delimited "|" (do
    match Location.ofLabel? (← name) with
    | some l => pure l
    | none => refuse)
  pure (.directive ⟨d, n, args, us, repeatable, locations⟩)

/-! ## Operations and fragments -/

/-- The name of a fragment, which is not the word before its type. -/
def fragmentName : Parse String := do
  let n ← name
  if n = "on" then refuse else pure n

/-- What a selection set mentions. It may be empty. -/
def selections : Parse Mentions :=
  nested fun inner => do
    mark "\x7b"
    let ms ← inside .selections (upTo "\x7d" (do
      if ← accept (.mark "...") then
        if ← accept (.name "on") then
          let t ← name
          let us ← uses false
          pure (⟨[t], [(Location.inlineFragment, us)]⟩ ++ (← inner))
        else
          match (← get).head? with
          | some (.name _) =>
            let _ ← name
            pure ⟨[], [(.fragmentSpread, ← uses false)]⟩
          | _ =>
            let us ← uses false
            pure (⟨[], [(Location.inlineFragment, us)]⟩ ++ (← inner))
      else
        let _ ← name
        if ← accept (.mark ":") then
          let _ ← name
        let _ ← arguments false
        let here : Mentions := ⟨[], [(.field, ← uses false)]⟩
        if ← ahead (.mark "\x7b") then
          pure (here ++ (← inner))
        else pure here))
    pure (.concat ms)

/-- What the declaration of a variable mentions. -/
def variableDecl : Parse Mentions := do
  let _ ← description
  mark "$"
  let _ ← name
  mark ":"
  let t ← typeRef
  if ← accept (.mark "=") then
    let _ ← value true
  pure ⟨[t.base], [(.variableDefinition, ← uses true)]⟩

/-- What an operation mentions, after its keyword. -/
def operationRest (o : Operation) : Parse Definition := do
  match (← get).head? with
  | some (.name _) =>
    let _ ← name
  | _ => pure ()
  let vs ← optionallyBetween "(" ")" variableDecl
  let us ← uses false
  let inner ← selections
  pure (.executable (.concat vs ++ ⟨[], [(o.location, us)]⟩ ++ inner))

/-- What a fragment mentions, after its keyword. -/
def fragmentRest : Parse Definition := do
  let _ ← fragmentName
  keyword "on"
  let t ← name
  let us ← uses false
  let inner ← selections
  pure (.executable (⟨[t], [(Location.fragmentDefinition, us)]⟩ ++ inner))

/-! ## Documents -/

/-- A definition. Neither an extension nor an unnamed query has a description. -/
def definition : Parse Definition := do
  if ← ahead (.mark "\x7b") then
    pure (.executable (← selections))
  else
    let d ← description
    let k ← name
    match typeKind? k, operation? k with
    | some kind, _ =>
      let (n, us, body) ← typeRest kind
      pure (.type ⟨false, d, n, us, body⟩)
    | none, some o => operationRest o
    | none, none =>
      match k with
      | "schema" =>
        let us ← uses true
        pure (.schema ⟨false, us, ← between "\x7b" "\x7d" root⟩)
      | "directive" => directiveRest d
      | "fragment" => fragmentRest
      | "extend" => if d.isSome then refuse else extension
      | _ => refuse

/-- What a text is **read as**, from its first lexeme to its last. -/
def ofText {α : Type} (nesting : Nesting) (part : Parse α) (text : List Char) : Except Fault α :=
  match part { nesting } (Lexeme.all text) with
  | .ok (a, []) => .ok a
  | .ok (_, _ :: _) => .error .malformed
  | .error f => .error f

end Sdl

/-- The **type reference** that a text writes. -/
def TypeRef.parse? (text : List Char) : Option TypeRef := (Sdl.ofText {} Sdl.typeRef text).toOption

/-- The **document** that a text writes: at least one definition, and nothing else. -/
def SchemaDocument.read (nesting : Nesting) (text : List Char) : Except Sdl.Fault SchemaDocument :=
  match Sdl.ofText nesting (Sdl.whileAhead (fun _ => true) Sdl.definition) text with
  | .ok [] => .error .malformed
  | .ok (d :: ds) => .ok (d :: ds)
  | .error f => .error f

end QueryAssist
