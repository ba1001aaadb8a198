import QueryAssist.Schema.Basic
import QueryAssist.Schema.Builtin

/-! # Assembling a schema

A schema lists its own types in the order in which they are given, and each built-in type after the
type that mentions it first. Main definitions:

* **`TypeDef.references`** — the types that a type mentions.
* **`Schema.typeOrder`** — the order of all types.
* **`Schema.assemble`** — the schema of some types, directives and root types. -/

namespace QueryAssist

/-- The types that a field mentions: its own and those of its arguments. -/
def Field.references (f : Field) : List String := f.type.base :: f.args.map (·.type.base)

/-- The types that a type **mentions**, in order. -/
def TypeDef.references (t : TypeDef) : List String :=
  match t.body with
  | .scalar | .enum _ => []
  | .object is fs | .interface is fs => is ++ fs.flatMap Field.references
  | .union ms => ms
  | .inputObject fs => fs.map (·.type.base)

namespace Schema

/-- The types in order, with one more and what it mentions, in a limited depth. Those that have
their own turn later are passed over. -/
def reach (lookup : String → Option TypeDef) (waiting : List String) :
    Nat → List String → String → List String
  | 0, seen, _ => seen
  | n + 1, seen, name =>
    if seen.contains name || waiting.contains name then seen
    else
      match lookup name with
      | none => seen
      | some t => t.references.foldl (reach lookup waiting n) (seen ++ [name])

/-- A depth that no chain of mentions exceeds: only built-in types are reached ahead of their
turn. -/
def reachDepth : Nat := builtinScalars.length + introspectionTypes.length + 1

/-- The **order** of some types, each followed by the types that are reached from it, and then of
those reached from some further names. -/
def typeOrder (lookup : String → Option TypeDef) (more : List String) :
    List String → List String → List String
  | seen, [] => more.foldl (reach lookup [] reachDepth) seen
  | seen, name :: waiting =>
    typeOrder lookup more (reach lookup waiting reachDepth seen name) waiting

/-- A schema is **assembled** from its types: built-in ones stand in for those of their names, and
the others that are needed are added. -/
def assemble (query mutation subscription : Option String) (types : List TypeDef)
    (directives : List Directive) : Schema :=
  let types := types.map fun t => (builtinType? t.name).getD t
  let lookup := fun n => (types.find? (·.name == n)).or (builtinType? n)
  let more := directives.flatMap (fun d => d.args.map (·.type.base)) ++ ["__Schema"]
  { query, mutation, subscription, directives
    types := (typeOrder lookup more [] (types.map (·.name))).filterMap lookup }

end Schema

end QueryAssist
