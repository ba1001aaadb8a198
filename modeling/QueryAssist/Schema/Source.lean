import QueryAssist.Json.Read
import QueryAssist.Schema.Introspection
import QueryAssist.Sdl.Build

/-! # Sources of a schema

A schema is given by its definitions or, in JSON, by its description of itself. Main definitions:

* **`SchemaReader`** — what reads the sources.
* **`SchemaError`** — why a source gives no schema.
* **`Schema.ofDefinitions`**, **`Schema.ofDescription`** — the schema of a source of either kind. -/

namespace QueryAssist

/-- What **reads the sources** of schemas. How deep it goes and what it says of a source that it
rejects are its own affair. Where it says nothing, a message ends before the cause. -/
structure SchemaReader where
  /-- How deep brackets may be nested. -/
  nesting : Nesting := {}
  /-- What it says of definitions that are not valid. -/
  ofDefinitions : List Char → Option String := fun _ => none
  /-- What it says of a description that is not complete. -/
  ofDescription : JsonValue → Option String := fun _ => none
  deriving Inhabited

/-- Why a source gives **no schema**. -/
inductive SchemaError where
  /-- The definitions are not valid, with what is said of them. -/
  | definitions (cause : Option String)
  /-- The definitions are nested deeper than the stack of the machine reaches. -/
  | overflow
  /-- The description is not complete, with what is said of it. -/
  | incomplete (cause : Option String)
  /-- The description cannot be gone through. -/
  | description (f : DescriptionFault)
  /-- The JSON value does not describe a schema. -/
  | noEntry
  /-- The text is no JSON. -/
  | json (e : JsonError)
  deriving DecidableEq, Repr, Inhabited

/-- A sentence with its cause after a colon, if one is told. -/
def withCause (sentence : String) : Option String → String
  | some cause => sentence ++ ": " ++ cause
  | none => sentence

/-- The message for an error. There is none for a source that is nested too deep, or that cannot
even be gone through, or that is beyond a limit of the reader of JSON. -/
def SchemaError.message? : SchemaError → Option String
  | definitions cause => some (withCause "Invalid schema definition" cause)
  | overflow => none
  | incomplete cause => some (withCause "Invalid introspection result" cause)
  | description _ => none
  | noEntry => some "Introspection result has no __schema entry"
  | json e =>
    if e.fault.isLimit then none else some ("Invalid introspection JSON: " ++ e.message)

namespace Schema

/-- The schema of some **definitions**. -/
def ofDefinitions (text : List Char) (r : SchemaReader := {}) : Except SchemaError Schema :=
  match readDefinitions r.nesting text with
  | .ok s => .ok s
  | .error .malformed => .error (.definitions (r.ofDefinitions text))
  | .error .overflow => .error .overflow

/-- The value inside an envelope: the member `data`, if it is an object. -/
def openEnvelope (v : JsonValue) : JsonValue :=
  match v.member? "data" with
  | some (.object ms) => .object ms
  | _ => v

/-- The schema of a **description** in JSON, with or without its envelope. -/
def ofDescription (text : List Char) (r : SchemaReader := {}) : Except SchemaError Schema := do
  match JsonValue.read text with
  | .error e => .error (.json e)
  | .ok v =>
    match (openEnvelope v).member? "__schema" with
    | none => .error .noEntry
    | some d =>
      match Introspection.schema r.nesting d with
      | .ok s => .ok s
      | .error .incomplete => .error (.incomplete (r.ofDescription (openEnvelope v)))
      | .error (.fault f) => .error (.description f)

end Schema

end QueryAssist
