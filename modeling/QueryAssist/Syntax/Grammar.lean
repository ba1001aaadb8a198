import QueryAssist.Syntax.Lexer
import QueryAssist.Syntax.Rule

/-! # The grammar of query and schema documents

Main definitions:

* **`Fork.choose`** — the construct that a fork picks for a token and the text after it.
* **`Grammar.standard`** — the rule of every construct.

A trailing `!` belongs to `listType` and `nonNullType`, and an alias to `aliasedField`, so one token
and a look at the rest of the line decide every fork. Variables are read wherever a value may stand.
The two constructs outside the grammar, `invalid` and `comment`, have no rule here. -/

namespace QueryAssist

/-- The definition that a keyword begins. -/
def definitionOf? : String → Option RuleKind
  | "\x7b" => some .shortQuery
  | "query" => some .query
  | "mutation" => some .mutation
  | "subscription" => some .subscription
  | "fragment" => some .fragmentDefinition
  | "schema" => some .schemaDef
  | "scalar" => some .scalarDef
  | "type" => some .objectTypeDef
  | "interface" => some .interfaceDef
  | "union" => some .unionDef
  | "enum" => some .enumDef
  | "input" => some .inputDef
  | "extend" => some .extendDef
  | "directive" => some .directiveDef
  | _ => none

/-- The literal that a token begins. -/
def valueOf? (t : Token) : Option RuleKind :=
  match t.kind with
  | .number => some .numberValue
  | .string => some .stringValue
  | .punctuation =>
    match t.text with
    | "[" => some .listValue
    | "\x7b" => some .objectValue
    | "$" => some .variableUse
    | _ => none
  | .name =>
    match t.text with
    | "true" | "false" => some .booleanValue
    | "null" => some .nullValue
    | _ => some .enumValue
  | .comment => none

/-- The selection that a token begins; the text after it tells an inline fragment from a spread and
an alias from a field. -/
def selectionOf (t : Token) (ahead : List Char) : RuleKind :=
  if t.text == "..." then
    if (Lexer.inlineAhead ahead).isSome then .inlineFragment else .fragmentSpread
  else if (Lexer.aliasAhead ahead).isSome then .aliasedField
  else .field

/-- The construct that a fork **chooses** for a token with the text after it. -/
def Fork.choose (f : Fork) (t : Token) (ahead : List Char) : Option RuleKind :=
  match f with
  | .definition => definitionOf? t.text
  | .selection => some (selectionOf t ahead)
  | .value => valueOf? t
  | .type => some (if t.text == "[" then .listType else .nonNullType)

namespace Grammar

open Step Terminal

/-- The steps of an operation with a given keyword. -/
def operation (word : String) : List Step := [
  terminal (keyword word),
  optional (terminal (name "def")),
  optional (rule .variableDefinitions),
  list (rule .directive),
  rule .selectionSet]

/-- The steps between two brackets. -/
def bracketed (opening : String) (inner : RuleKind) (closing : String) : List Step := [
  terminal (punctuation opening),
  list (rule inner),
  terminal (punctuation closing)]

/-- The steps that a field has after its name. -/
def fieldTail : List Step := [
  optional (rule .arguments),
  list (rule .directive),
  optional (rule .selectionSet)]

/-- A name with a value after a colon. -/
def assignment : List Step := [
  terminal (name "attribute"),
  terminal (punctuation ":"),
  rule .value]

/-- A type definition that holds members in braces. -/
def bracedDefinition (word : String) (members : RuleKind) : List Step := [
  terminal (keyword word),
  terminal (name "atom"),
  list (rule .directive)] ++ bracketed "\x7b" members "\x7d"

/-- The steps of each construct that is a sequence. -/
def steps? : RuleKind → Option (List Step)
  | .document => some [list (rule .definition)]
  | .shortQuery => some [rule .selectionSet]
  | .query => some (operation "query")
  | .mutation => some (operation "mutation")
  | .subscription => some (operation "subscription")
  | .variableDefinitions => some (bracketed "(" .variableDefinition ")")
  | .variableDefinition => some [
      rule .variableUse,
      terminal (punctuation ":"),
      rule .type,
      optional (rule .defaultValue)]
  | .variableUse => some [
      terminal (styledPunctuation "$" "variable"),
      terminal (name "variable")]
  | .defaultValue => some [terminal (punctuation "="), rule .value]
  | .selectionSet => some (bracketed "\x7b" .selection "\x7d")
  | .aliasedField => some ([
      terminal (name "property"),
      terminal (punctuation ":"),
      terminal (name "qualifier")] ++ fieldTail)
  | .field => some (terminal (name "property") :: fieldTail)
  | .arguments => some (bracketed "(" .argument ")")
  | .argument => some assignment
  | .fragmentSpread => some [
      terminal (punctuation "..."),
      terminal (name "def"),
      list (rule .directive)]
  | .inlineFragment => some [
      terminal (punctuation "..."),
      optional (rule .typeCondition),
      list (rule .directive),
      rule .selectionSet]
  | .fragmentDefinition => some [
      terminal (keyword "fragment"),
      optional (terminal ((name "def").butNot [keyword "on"])),
      rule .typeCondition,
      list (rule .directive),
      rule .selectionSet]
  | .typeCondition => some [terminal (keyword "on"), rule .namedType]
  | .numberValue => some [terminal (ofKind .number "number")]
  | .stringValue => some [terminal (ofKind .string "string")]
  | .booleanValue => some [terminal (ofKind .name "builtin")]
  | .nullValue => some [terminal (ofKind .name "keyword")]
  | .enumValue => some [terminal (name "string-2")]
  | .listValue => some (bracketed "[" .value "]")
  | .objectValue => some (bracketed "\x7b" .objectField "\x7d")
  | .objectField => some assignment
  | .listType => some [
      terminal (punctuation "["),
      rule .type,
      terminal (punctuation "]"),
      optional (terminal (punctuation "!"))]
  | .nonNullType => some [rule .namedType, optional (terminal (punctuation "!"))]
  | .namedType => some [terminal (typeName "atom")]
  | .directive => some [
      terminal (styledPunctuation "@" "meta"),
      terminal (name "meta"),
      optional (rule .arguments)]
  | .schemaDef => some ([
      terminal (keyword "schema"),
      list (rule .directive)] ++ bracketed "\x7b" .operationTypeDef "\x7d")
  | .operationTypeDef => some [
      terminal (name "keyword"),
      terminal (punctuation ":"),
      terminal (name "atom")]
  | .scalarDef => some [
      terminal (keyword "scalar"),
      terminal (name "atom"),
      list (rule .directive)]
  | .objectTypeDef => some ([
      terminal (keyword "type"),
      terminal (name "atom"),
      optional (rule .implements),
      list (rule .directive)] ++ bracketed "\x7b" .fieldDef "\x7d")
  | .implements => some [terminal (keyword "implements"), list (rule .namedType)]
  | .fieldDef => some [
      terminal (name "property"),
      optional (rule .argumentsDef),
      terminal (punctuation ":"),
      rule .type,
      list (rule .directive)]
  | .argumentsDef => some (bracketed "(" .inputValueDef ")")
  | .inputValueDef => some [
      terminal (name "attribute"),
      terminal (punctuation ":"),
      rule .type,
      optional (rule .defaultValue),
      list (rule .directive)]
  | .interfaceDef => some (bracedDefinition "interface" .fieldDef)
  | .unionDef => some [
      terminal (keyword "union"),
      terminal (name "atom"),
      list (rule .directive),
      terminal (punctuation "="),
      separated (rule .unionMember) (terminal (punctuation "|"))]
  | .unionMember => some [rule .namedType]
  | .enumDef => some (bracedDefinition "enum" .enumValueDef)
  | .enumValueDef => some [terminal (name "string-2"), list (rule .directive)]
  | .inputDef => some (bracedDefinition "input" .inputValueDef)
  | .extendDef => some [terminal (keyword "extend"), rule .objectTypeDef]
  | .directiveDef => some [
      terminal (keyword "directive"),
      terminal (styledPunctuation "@" "meta"),
      terminal (name "meta"),
      optional (rule .argumentsDef),
      terminal (keyword "on"),
      separated (rule .directiveLocation) (terminal (punctuation "|"))]
  | .directiveLocation => some [terminal (name "string-2")]
  | .definition | .selection | .value | .type | .invalid | .comment => none

/-- The **standard grammar**: four constructs are forks and all others sequences. -/
def standard : Grammar
  | .definition => some (.fork .definition)
  | .selection => some (.fork .selection)
  | .value => some (.fork .value)
  | .type => some (.fork .type)
  | k => (steps? k).map .steps

/-- Only text outside the grammar has no rule. -/
theorem standard_eq_none_iff (k : RuleKind) : standard k = none ↔ k = .invalid ∨ k = .comment := by
  cases k <;> simp [standard, steps?]

end Grammar

end QueryAssist
