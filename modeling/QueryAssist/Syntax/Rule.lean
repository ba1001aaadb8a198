import QueryAssist.Syntax.Token

/-! # Parse rules

A construct of the language is described by a rule: a list of steps to take one after another, or a
fork that picks the construct to read from the token ahead. Main definitions:

* **`RuleKind`** — the constructs.
* **`Matcher`**, **`Terminal`** — which single tokens a step accepts, with their style.
* **`Step`** — a construct or a token, perhaps optional or repeated.
* **`Rule`**, **`Grammar`** — the rule of a construct, and a table of rules. -/

namespace QueryAssist

/-- The **constructs** of the query and schema languages, with two that stand for text outside the
grammar: what does not parse, and comments. -/
inductive RuleKind where
  | document
  | definition
  | shortQuery
  | query
  | mutation
  | subscription
  | variableDefinitions
  | variableDefinition
  | variableUse
  | defaultValue
  | selectionSet
  | selection
  | aliasedField
  | field
  | arguments
  | argument
  | fragmentSpread
  | inlineFragment
  | fragmentDefinition
  | typeCondition
  | value
  | numberValue
  | stringValue
  | booleanValue
  | nullValue
  | enumValue
  | listValue
  | objectValue
  | objectField
  | type
  | listType
  | nonNullType
  | namedType
  | directive
  | schemaDef
  | operationTypeDef
  | scalarDef
  | objectTypeDef
  | implements
  | fieldDef
  | argumentsDef
  | inputValueDef
  | interfaceDef
  | unionDef
  | unionMember
  | enumDef
  | enumValueDef
  | inputDef
  | extendDef
  | directiveDef
  | directiveLocation
  | invalid
  | comment
  deriving DecidableEq, Repr, Inhabited

namespace RuleKind

/-- All constructs. -/
def all : List RuleKind := [
  document, definition, shortQuery, query, mutation, subscription, variableDefinitions,
  variableDefinition, variableUse, defaultValue, selectionSet, selection, aliasedField, field,
  arguments, argument, fragmentSpread, inlineFragment, fragmentDefinition, typeCondition, value,
  numberValue, stringValue, booleanValue, nullValue, enumValue, listValue, objectValue, objectField,
  type, listType, nonNullType, namedType, directive, schemaDef, operationTypeDef, scalarDef,
  objectTypeDef, implements, fieldDef, argumentsDef, inputValueDef, interfaceDef, unionDef,
  unionMember, enumDef, enumValueDef, inputDef, extendDef, directiveDef, directiveLocation, invalid,
  comment]

/-- Every construct is listed. -/
theorem mem_all (k : RuleKind) : k ∈ all := by cases k <;> decide

/-- The written name of a construct: its words in capitals without a gap. -/
def label : RuleKind → String
  | document => "Document"
  | definition => "Definition"
  | shortQuery => "ShortQuery"
  | query => "Query"
  | mutation => "Mutation"
  | subscription => "Subscription"
  | variableDefinitions => "VariableDefinitions"
  | variableDefinition => "VariableDefinition"
  | variableUse => "Variable"
  | defaultValue => "DefaultValue"
  | selectionSet => "SelectionSet"
  | selection => "Selection"
  | aliasedField => "AliasedField"
  | field => "Field"
  | arguments => "Arguments"
  | argument => "Argument"
  | fragmentSpread => "FragmentSpread"
  | inlineFragment => "InlineFragment"
  | fragmentDefinition => "FragmentDefinition"
  | typeCondition => "TypeCondition"
  | value => "Value"
  | numberValue => "NumberValue"
  | stringValue => "StringValue"
  | booleanValue => "BooleanValue"
  | nullValue => "NullValue"
  | enumValue => "EnumValue"
  | listValue => "ListValue"
  | objectValue => "ObjectValue"
  | objectField => "ObjectField"
  | type => "Type"
  | listType => "ListType"
  | nonNullType => "NonNullType"
  | namedType => "NamedType"
  | directive => "Directive"
  | schemaDef => "SchemaDef"
  | operationTypeDef => "OperationTypeDef"
  | scalarDef => "ScalarDef"
  | objectTypeDef => "ObjectTypeDef"
  | implements => "Implements"
  | fieldDef => "FieldDef"
  | argumentsDef => "ArgumentsDef"
  | inputValueDef => "InputValueDef"
  | interfaceDef => "InterfaceDef"
  | unionDef => "UnionDef"
  | unionMember => "UnionMember"
  | enumDef => "EnumDef"
  | enumValueDef => "EnumValueDef"
  | inputDef => "InputDef"
  | extendDef => "ExtendDef"
  | directiveDef => "DirectiveDef"
  | directiveLocation => "DirectiveLocation"
  | invalid => "Invalid"
  | comment => "Comment"

/-- The construct with a given name. -/
def ofLabel? (name : String) : Option RuleKind := all.find? fun k => k.label == name

/-- The characters of a name in capitals, its words divided by underscores. -/
def capitals : List Char → List Char
  | [] => []
  | c :: cs => c.toUpper :: cs.flatMap fun d => if d.isUpper then ['_', d] else [d.toUpper]

/-- The name of a construct as messages give it: `SELECTION_SET`. -/
def constant (k : RuleKind) : String := String.ofList (capitals k.label.toList)

end RuleKind

/-- A **matcher** is a class of tokens. -/
inductive Matcher where
  /-- All tokens of a kind. -/
  | kind (k : TokenKind)
  /-- One token. -/
  | exactly (k : TokenKind) (text : String)
  /-- The tokens of one class that are not in another. -/
  | without (m e : Matcher)
  deriving DecidableEq, Repr, Inhabited

/-- Whether a token is in the class. -/
def Matcher.accepts : Matcher → Token → Bool
  | kind k, t => t.kind == k
  | exactly k text, t => t.kind == k && t.text == text
  | without m e, t => m.accepts t && !e.accepts t

/-- What a token leaves behind in the parse when it is accepted. -/
inductive Trace where
  /-- Nothing. -/
  | none
  /-- Its text is the name of the construct being read. -/
  | name
  /-- Its text is the name of the construct being read and the type of the construct two levels
  further out. -/
  | type
  deriving DecidableEq, Repr, Inhabited

/-- A **terminal** is a step that one token takes. -/
structure Terminal where
  /-- The style of the token. -/
  style : String
  /-- The tokens that take the step. -/
  matcher : Matcher
  /-- What the token leaves behind. -/
  trace : Trace := .none
  deriving DecidableEq, Repr, Inhabited

namespace Terminal

/-- A punctuation token with a style of its own; no style means `punctuation`. -/
def styledPunctuation (text style : String) : Terminal :=
  ⟨if style.isEmpty then "punctuation" else style, .exactly .punctuation text, .none⟩

/-- A punctuation token. -/
def punctuation (text : String) : Terminal := ⟨"punctuation", .exactly .punctuation text, .none⟩

/-- A keyword. -/
def keyword (text : String) : Terminal := ⟨"keyword", .exactly .name text, .none⟩

/-- A name, which becomes the name of the construct. -/
def name (style : String) : Terminal := ⟨style, .kind .name, .name⟩

/-- The name of a type. -/
def typeName (style : String) : Terminal := ⟨style, .kind .name, .type⟩

/-- Any token of a kind. -/
def ofKind (k : TokenKind) (style : String) : Terminal := ⟨style, .kind k, .none⟩

/-- A terminal without the tokens of some others. -/
def butNot (t : Terminal) (exclusions : List Terminal) : Terminal :=
  { t with matcher := exclusions.foldl (fun m e => .without m e.matcher) t.matcher }

/-- Whether a token takes the step. -/
def accepts (t : Terminal) (tok : Token) : Bool := t.matcher.accepts tok

/-- The tokens of the exclusions are left out, and no others. -/
theorem accepts_butNot (t : Terminal) (es : List Terminal) (tok : Token) :
    (t.butNot es).accepts tok = (t.accepts tok && es.all fun e => !e.accepts tok) := by
  simp only [accepts, butNot]
  generalize t.matcher = m
  induction es generalizing m with
  | nil => simp
  | cons e es ih =>
    rw [List.foldl_cons, ih]
    simp [Matcher.accepts, Bool.and_assoc]

end Terminal

/-- A **step** of a rule. -/
inductive Step where
  /-- A construct. -/
  | rule (k : RuleKind)
  /-- A token. -/
  | terminal (t : Terminal)
  /-- A step that may be left out. -/
  | optional (s : Step)
  /-- A step that is taken any number of times. -/
  | list (s : Step)
  /-- A step that is taken any number of times, with another step between each two. -/
  | separated (s separator : Step)
  deriving DecidableEq, Repr, Inhabited

namespace Step

/-- Whether the step may be taken any number of times. -/
def isList : Step → Bool
  | list _ | separated _ _ => true
  | _ => false

/-- Whether the step may be passed over: it is optional or a list. -/
def isFlexible : Step → Bool
  | optional _ | list _ | separated _ _ => true
  | _ => false

/-- The step between two turns of a list. -/
def separator? : Step → Option Step
  | separated _ sep => some sep
  | _ => none

/-- The step inside an optional or repeated one. -/
def body : Step → Step
  | optional s | list s | separated s _ => s
  | s => s

end Step

/-- A **fork** picks the construct to read from the token ahead and the text after it. -/
inductive Fork where
  /-- The definitions of a document. -/
  | definition
  /-- The members of a selection set. -/
  | selection
  /-- The literals. -/
  | value
  /-- The type references. -/
  | type
  deriving DecidableEq, Repr, Inhabited

/-- A **rule** is a list of steps or a fork. -/
inductive Rule where
  | steps (ss : List Step)
  | fork (f : Fork)
  deriving DecidableEq, Repr, Inhabited

namespace Rule

/-- The step at a place of a list of steps. A fork has none. -/
def step? : Rule → Nat → Option Step
  | steps ss, i => ss[i]?
  | fork _, _ => none

/-- The number of steps. A fork counts none, so that it is complete once its choice is read. -/
def length : Rule → Nat
  | steps ss => ss.length
  | fork _ => 0

end Rule

/-- A **grammar** gives the rules of the constructs that it knows. -/
abbrev Grammar := RuleKind → Option Rule

end QueryAssist
