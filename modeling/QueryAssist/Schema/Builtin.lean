import QueryAssist.Schema.Type

/-! # Built-in types and directives

Every schema has the five built-in scalars at hand, the types with which a schema describes itself,
and five directives. Main definitions:

* **`builtinScalars`** — `String`, `Int`, `Float`, `Boolean` and `ID`.
* **`introspectionTypes`** — the types whose names begin with two underscores.
* **`builtinDirectives`** — the directives, in the order in which a schema lists them.
* **`builtinType?`** — the built-in type of a given name. -/

namespace QueryAssist

/-! ## Scalars -/

/-- The built-in scalar `String`. -/
def stringScalar : TypeDef where
  name := "String"
  description := some ("The `String` scalar type represents textual data, represented as " ++
    "UTF-8 character sequences. The String type is most often used by GraphQL to represent " ++
    "free-form human-readable text.")
  body := .scalar

/-- The built-in scalar `Int`. -/
def intScalar : TypeDef where
  name := "Int"
  description := some ("The `Int` scalar type represents non-fractional signed whole " ++
    "numeric values. Int can represent values between -(2^31) and 2^31 - 1.")
  body := .scalar

/-- The built-in scalar `Float`. -/
def floatScalar : TypeDef where
  name := "Float"
  description := some ("The `Float` scalar type represents signed double-precision " ++
    "fractional values as specified by [IEEE " ++
    "754](https://en.wikipedia.org/wiki/IEEE_floating_point).")
  body := .scalar

/-- The built-in scalar `Boolean`. -/
def booleanScalar : TypeDef where
  name := "Boolean"
  description := some ("The `Boolean` scalar type represents `true` or `false`.")
  body := .scalar

/-- The built-in scalar `ID`. -/
def idScalar : TypeDef where
  name := "ID"
  description := some ("The `ID` scalar type represents a unique identifier, often used " ++
    "to refetch an object or as key for a cache. The ID type appears in a JSON response as a " ++
    "String; however, it is not intended to be human-readable. When expected as an input " ++
    "type, any string (such as `\"4\"`) or integer (such as `4`) input value will be " ++
    "accepted as an ID.")
  body := .scalar

/-- The built-in **scalars**. -/
def builtinScalars : List TypeDef :=
  [stringScalar, intScalar, floatScalar, booleanScalar, idScalar]

/-! ## Introspection types -/

/-- The argument by which an introspection field also gives what is deprecated. -/
def includeDeprecated : List InputValue :=
  [{ name := "includeDeprecated", type := .nonNull (.named "Boolean") }]

/-- The introspection type `__Schema`. -/
def schemaType : TypeDef where
  name := "__Schema"
  description := some ("A GraphQL Schema defines the capabilities of a GraphQL server. It " ++
    "exposes all available types and directives on the server, as well as the entry points " ++
    "for query, mutation, and subscription operations.")
  body := .object [] [
    { name := "description", type := .named "String" },
    { name := "types", type := .nonNull (.list (.nonNull (.named "__Type"))),
      description := some "A list of all types supported by this server." },
    { name := "queryType", type := .nonNull (.named "__Type"),
      description := some "The type that query operations will be rooted at." },
    { name := "mutationType", type := .named "__Type",
      description := some ("If this server supports mutation, the type that mutation " ++
        "operations will be rooted at.") },
    { name := "subscriptionType", type := .named "__Type",
      description := some ("If this server supports subscription, the type that " ++
        "subscription operations will be rooted at.") },
    { name := "directives", type := .nonNull (.list (.nonNull (.named "__Directive"))),
      args := includeDeprecated,
      description := some "A list of all directives supported by this server." }]

/-- The introspection type `__Type`. -/
def typeType : TypeDef where
  name := "__Type"
  description := some ("The fundamental unit of any GraphQL Schema is the type. There are " ++
    "many kinds of types in GraphQL as represented by the `__TypeKind` enum.\n\nDepending on " ++
    "the kind of a type, certain fields describe information about that type. Scalar types " ++
    "provide no information beyond a name, description and optional `specifiedByURL`, while " ++
    "Enum types provide their values. Object and Interface types provide the fields they " ++
    "describe. Abstract types, Union and Interface, provide the Object types possible at " ++
    "runtime. List and NonNull types compose other types.")
  body := .object [] [
    { name := "kind", type := .nonNull (.named "__TypeKind") },
    { name := "name", type := .named "String" },
    { name := "description", type := .named "String" },
    { name := "specifiedByURL", type := .named "String" },
    { name := "fields", type := .list (.nonNull (.named "__Field")),
      args := includeDeprecated },
    { name := "interfaces", type := .list (.nonNull (.named "__Type")) },
    { name := "possibleTypes", type := .list (.nonNull (.named "__Type")) },
    { name := "enumValues", type := .list (.nonNull (.named "__EnumValue")),
      args := includeDeprecated },
    { name := "inputFields", type := .list (.nonNull (.named "__InputValue")),
      args := includeDeprecated },
    { name := "ofType", type := .named "__Type" },
    { name := "isOneOf", type := .named "Boolean" }]

/-- The introspection type `__TypeKind`. -/
def typeKindType : TypeDef where
  name := "__TypeKind"
  description := some ("An enum describing what kind of type a given `__Type` is.")
  body := .enum (.known [
    { name := "SCALAR",
      description := some "Indicates this type is a scalar." },
    { name := "OBJECT",
      description := some ("Indicates this type is an object. `fields` and `interfaces` " ++
        "are valid fields.") },
    { name := "INTERFACE",
      description := some ("Indicates this type is an interface. `fields`, `interfaces`, " ++
        "and `possibleTypes` are valid fields.") },
    { name := "UNION",
      description := some ("Indicates this type is a union. `possibleTypes` is a valid " ++
        "field.") },
    { name := "ENUM",
      description := some "Indicates this type is an enum. `enumValues` is a valid field." },
    { name := "INPUT_OBJECT",
      description := some ("Indicates this type is an input object. `inputFields` is a " ++
        "valid field.") },
    { name := "LIST",
      description := some "Indicates this type is a list. `ofType` is a valid field." },
    { name := "NON_NULL",
      description := some "Indicates this type is a non-null. `ofType` is a valid field." }])

/-- The introspection type `__Field`. -/
def fieldType : TypeDef where
  name := "__Field"
  description := some ("Object and Interface types are described by a list of Fields, " ++
    "each of which has a name, potentially a list of arguments, and a return type.")
  body := .object [] [
    { name := "name", type := .nonNull (.named "String") },
    { name := "description", type := .named "String" },
    { name := "args", type := .nonNull (.list (.nonNull (.named "__InputValue"))),
      args := includeDeprecated },
    { name := "type", type := .nonNull (.named "__Type") },
    { name := "isDeprecated", type := .nonNull (.named "Boolean") },
    { name := "deprecationReason", type := .named "String" }]

/-- The introspection type `__InputValue`. -/
def inputValueType : TypeDef where
  name := "__InputValue"
  description := some ("Arguments provided to Fields or Directives and the input fields " ++
    "of an InputObject are represented as Input Values which describe their type and " ++
    "optionally a default value.")
  body := .object [] [
    { name := "name", type := .nonNull (.named "String") },
    { name := "description", type := .named "String" },
    { name := "type", type := .nonNull (.named "__Type") },
    { name := "defaultValue", type := .named "String",
      description := some ("A GraphQL-formatted string representing the default value for " ++
        "this input value.") },
    { name := "isDeprecated", type := .nonNull (.named "Boolean") },
    { name := "deprecationReason", type := .named "String" }]

/-- The introspection type `__EnumValue`. -/
def enumValueType : TypeDef where
  name := "__EnumValue"
  description := some ("One possible value for a given Enum. Enum values are unique " ++
    "values, not a placeholder for a string or numeric value. However an Enum value is " ++
    "returned in a JSON response as a string.")
  body := .object [] [
    { name := "name", type := .nonNull (.named "String") },
    { name := "description", type := .named "String" },
    { name := "isDeprecated", type := .nonNull (.named "Boolean") },
    { name := "deprecationReason", type := .named "String" }]

/-- The introspection type `__Directive`. -/
def directiveType : TypeDef where
  name := "__Directive"
  description := some ("A Directive provides a way to describe alternate runtime " ++
    "execution and type validation behavior in a GraphQL document.\n\nIn some cases, you " ++
    "need to provide options to alter GraphQL's execution behavior in ways field arguments " ++
    "will not suffice, such as conditionally including or skipping a field. Directives " ++
    "provide this by describing additional information to the executor.")
  body := .object [] [
    { name := "name", type := .nonNull (.named "String") },
    { name := "description", type := .named "String" },
    { name := "isRepeatable", type := .nonNull (.named "Boolean") },
    { name := "locations", type := .nonNull (.list (.nonNull (.named "__DirectiveLocation"))) },
    { name := "args", type := .nonNull (.list (.nonNull (.named "__InputValue"))),
      args := includeDeprecated },
    { name := "isDeprecated", type := .nonNull (.named "Boolean") },
    { name := "deprecationReason", type := .named "String" }]

/-- The introspection type `__DirectiveLocation`. -/
def directiveLocationType : TypeDef where
  name := "__DirectiveLocation"
  description := some ("A Directive can be adjacent to many parts of the GraphQL " ++
    "language, a __DirectiveLocation describes one such possible adjacencies.")
  body := .enum (.known [
    { name := "QUERY",
      description := some "Location adjacent to a query operation." },
    { name := "MUTATION",
      description := some "Location adjacent to a mutation operation." },
    { name := "SUBSCRIPTION",
      description := some "Location adjacent to a subscription operation." },
    { name := "FIELD",
      description := some "Location adjacent to a field." },
    { name := "FRAGMENT_DEFINITION",
      description := some "Location adjacent to a fragment definition." },
    { name := "FRAGMENT_SPREAD",
      description := some "Location adjacent to a fragment spread." },
    { name := "INLINE_FRAGMENT",
      description := some "Location adjacent to an inline fragment." },
    { name := "VARIABLE_DEFINITION",
      description := some "Location adjacent to an operation variable definition." },
    { name := "FRAGMENT_VARIABLE_DEFINITION",
      description := some "Location adjacent to a fragment variable definition." },
    { name := "SCHEMA",
      description := some "Location adjacent to a schema definition." },
    { name := "SCALAR",
      description := some "Location adjacent to a scalar definition." },
    { name := "OBJECT",
      description := some "Location adjacent to an object type definition." },
    { name := "FIELD_DEFINITION",
      description := some "Location adjacent to a field definition." },
    { name := "ARGUMENT_DEFINITION",
      description := some "Location adjacent to an argument definition." },
    { name := "INTERFACE",
      description := some "Location adjacent to an interface definition." },
    { name := "UNION",
      description := some "Location adjacent to a union definition." },
    { name := "ENUM",
      description := some "Location adjacent to an enum definition." },
    { name := "ENUM_VALUE",
      description := some "Location adjacent to an enum value definition." },
    { name := "INPUT_OBJECT",
      description := some "Location adjacent to an input object type definition." },
    { name := "INPUT_FIELD_DEFINITION",
      description := some "Location adjacent to an input object field definition." },
    { name := "DIRECTIVE_DEFINITION",
      description := some "Location adjacent to a directive definition." }])

/-- The **introspection types**. -/
def introspectionTypes : List TypeDef := [
  schemaType, typeType, typeKindType, fieldType, inputValueType, enumValueType, directiveType,
  directiveLocationType]

/-- The built-in type of a given name: a definition of that name stands for it. -/
def builtinType? (name : String) : Option TypeDef :=
  (builtinScalars ++ introspectionTypes).find? (·.name == name)

/-! ## Directives -/

/-- The built-in directive `@include`. -/
def includeDirective : Directive where
  name := "include"
  description := some ("Directs the executor to include this field or fragment only when " ++
    "the `if` argument is true.")
  locations := [.field, .fragmentSpread, .inlineFragment]
  args := [
    { name := "if", type := .nonNull (.named "Boolean"),
      description := some "Included when true." }]

/-- The built-in directive `@skip`. -/
def skipDirective : Directive where
  name := "skip"
  description := some ("Directs the executor to skip this field or fragment when the `if` " ++
    "argument is true.")
  locations := [.field, .fragmentSpread, .inlineFragment]
  args := [
    { name := "if", type := .nonNull (.named "Boolean"),
      description := some "Skipped when true." }]

/-- The built-in directive `@deprecated`. -/
def deprecatedDirective : Directive where
  name := "deprecated"
  description := some ("Marks an element of a GraphQL schema as no longer supported.")
  locations := [
    .fieldDefinition, .argumentDefinition, .inputFieldDefinition, .enumValue, .directiveDefinition]
  args := [
    { name := "reason", type := .nonNull (.named "String"),
      description := some ("Explains why this element was deprecated, usually also " ++
        "including a suggestion for how to access supported similar data. Formatted using " ++
        "the Markdown syntax, as specified by [CommonMark](https://commonmark.org/).") }]

/-- The built-in directive `@specifiedBy`. -/
def specifiedByDirective : Directive where
  name := "specifiedBy"
  description := some ("Exposes a URL that specifies the behavior of this scalar.")
  locations := [.scalar]
  args := [
    { name := "url", type := .nonNull (.named "String"),
      description := some "The URL that specifies the behavior of this scalar." }]

/-- The built-in directive `@oneOf`. -/
def oneOfDirective : Directive where
  name := "oneOf"
  description := some ("Indicates exactly one field must be supplied and this field must " ++
    "not be `null`.")
  locations := [.inputObject]

/-- The built-in **directives**. -/
def builtinDirectives : List Directive := [
  includeDirective, skipDirective, deprecatedDirective, specifiedByDirective, oneOfDirective]

end QueryAssist
