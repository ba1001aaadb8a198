import QueryAssist.Parse.Chain

/-! # Positions

The innermost open construct and the place reached in it tell what can be written next. Main
definitions:

* **`Position`** — the nine kinds of place at which something can be suggested.
* **`Position.ofChain?`** — the position that a chain stands at.
* **`Chain.openLinks`**, **`Chain.definition?`** — the constructs around a position, and the
  operation or fragment that it belongs to. -/

namespace QueryAssist

/-- A **position** is a kind of place in a document at which something can be suggested. -/
inductive Position where
  /-- The start of a definition. -/
  | definitionKeyword
  /-- A field of a selection set. -/
  | field
  /-- The name of an argument. -/
  | argument
  /-- The name of a field in an object literal. -/
  | objectField
  /-- A literal. -/
  | inputValue
  /-- The type that a fragment is on. -/
  | typeCondition
  /-- The name of a fragment that is spread. -/
  | fragmentSpread
  /-- The type of a variable. -/
  | variableType
  /-- The name of a directive. -/
  | directive
  deriving DecidableEq, Repr, Inhabited

/-- The links of the open constructs, innermost first, out to the first link without one. -/
def openLinks (ls : List Link) : List Link := ls.takeWhile fun l => l.kind.isSome

/-- The constructs that have a selection set of their own and stand at the top of a document. -/
def RuleKind.isDefinition : RuleKind → Bool
  | .query | .shortQuery | .mutation | .subscription | .fragmentDefinition => true
  | _ => false

/-- The innermost operation or fragment among some links. -/
def definitionLink? (ls : List Link) : Option Link :=
  (openLinks ls).find? fun l => l.kind.any RuleKind.isDefinition

/-- The constructs that only choose between the ways to write a type. -/
def RuleKind.wrapsType : RuleKind → Bool
  | .type | .nonNullType => true
  | _ => false

/-- The construct around a type, past those that only choose how it is written. -/
def enclosingKind? (outer : List Link) : Option RuleKind :=
  ((outer.dropWhile fun l => l.kind.any RuleKind.wrapsType).head?).bind (·.kind)

namespace Position

/-- The written name of a position. -/
def label : Position → String
  | definitionKeyword => "DEFINITION_KEYWORD"
  | field => "FIELD"
  | argument => "ARGUMENT"
  | objectField => "OBJECT_FIELD"
  | inputValue => "INPUT_VALUE"
  | typeCondition => "TYPE_CONDITION"
  | fragmentSpread => "FRAGMENT_SPREAD"
  | variableType => "VARIABLE_TYPE"
  | directive => "DIRECTIVE"

/-- The position of the name of a type, from the construct that it is written in. -/
def ofTypeName? : Option RuleKind → Option Position
  | some .typeCondition => some typeCondition
  | some .variableDefinition | some .listType => some variableType
  | _ => none

/-- The position **at a chain**, if something can be suggested there. -/
def ofChain? (c : Chain) : Option Position :=
  match c.top.kind, c.top.step with
  | some .document, _ => some definitionKeyword
  | some .selectionSet, _ | some .field, _ | some .aliasedField, _ => some field
  | some .arguments, _ | some .argument, 0 => some argument
  | some .objectValue, _ | some .objectField, 0 => some objectField
  | some .enumValue, _ | some .listValue, 1 | some .objectField, 2 | some .argument, 2 =>
    some inputValue
  | some .typeCondition, 1 => some typeCondition
  | some .fragmentSpread, 1 => some fragmentSpread
  | some .variableDefinition, 2 | some .listType, 1 => some variableType
  | some .namedType, _ => ofTypeName? (enclosingKind? c.outer)
  | some .directive, _ => some directive
  | _, _ => none

end Position

end QueryAssist
