import Mathlib.Data.List.Infix
import QueryAssist.Proofs.Typing.Place

/-! # Suggested names

In a schema whose names are names of the language every suggestion is one too, whatever a document
says before the place. Main definitions:

* **`Schema.names`** — the names in a schema.
* **`Schema.inputLists`** — the lists of arguments and of input fields in a schema.
* **`Schema.IsNamed`** — a schema whose names are names of the language.
* **`TypeContext.IsOf`** — a type context whose parts are found in a schema.
* **`TypeContext.IsNamed`** — a type context of a schema with such names.

Main statements: `TypeContext.IsOf.enter`, what one construct keeps, `isOf_ofLinks`, and
`isName_of_mem_candidates`, every candidate is a name. -/

namespace QueryAssist

/-! ### The names in a schema -/

/-- The names **in the body** of a type: those of its fields with their arguments, or of its
values. -/
def TypeBody.names : TypeBody → List String
  | object _ fs | interface _ fs => fs.flatMap fun f => f.name :: f.args.map (·.name)
  | inputObject vs => vs.map (·.name)
  | enum (.known ms) => ms.map (·.name)
  | scalar | union _ | enum (.faulty _) => []

/-- The lists of arguments and of input fields **in the body** of a type. -/
def TypeBody.inputLists : TypeBody → List (List InputValue)
  | object _ fs | interface _ fs => fs.map (·.args)
  | inputObject vs => [vs]
  | scalar | union _ | enum _ => []

namespace Schema

/-- The lists of arguments and of input fields **in a schema**: those of its types and directives,
those of the fields that need no definition, and the empty one. -/
def inputLists (s : Schema) : List (List InputValue) :=
  [] :: [metaSchema, metaType, metaTypename].map (·.args) ++
    (s.types.flatMap (fun t => t.body.inputLists) ++ s.directives.map (·.args))

/-- The names **in a schema**. -/
def names (s : Schema) : List String :=
  s.types.flatMap (fun t => t.name :: t.body.names) ++
    s.directives.flatMap fun d => d.name :: d.args.map (·.name)

/-- A schema is **named** if all its names are names of the language. -/
def IsNamed (s : Schema) : Prop := ∀ n ∈ s.names, IsName n.toList

instance (s : Schema) : Decidable s.IsNamed := inferInstanceAs (Decidable (∀ n ∈ s.names, _))

end Schema

/-- Arguments or input fields with names of the language. -/
def AreNamed (vs : List InputValue) : Prop := ∀ v ∈ vs, IsName v.name.toList

namespace Schema

variable {s : Schema} {t : TypeDef} {r : Option TypeRef} {n : String}

/-! ### What is looked up -/

/-- A type that is found by its name is one of the schema. -/
theorem mem_types_of_type? (h : s.type? n = some t) : t ∈ s.types := List.mem_of_find?_eq_some h

/-- The type that a reference is about is one of the schema. -/
theorem mem_types_of_baseType? (h : s.baseType? r = some t) : t ∈ s.types := by
  obtain ⟨x, -, hx⟩ := Option.bind_eq_some_iff.1 h
  exact mem_types_of_type? hx

/-- The type under a reference is found by its own name. -/
theorem type?_of_baseType? (h : s.baseType? r = some t) : s.type? t.name = some t := by
  obtain ⟨x, -, hx⟩ := Option.bind_eq_some_iff.1 h
  rwa [name_of_type? hx]

/-- A field that is found is one of the three that need no definition, or one of a type of the
schema. -/
theorem mem_of_field? {f : Field} (h : s.field? r n = some f) :
    f ∈ [metaSchema, metaType, metaTypename] ∨ ∃ t ∈ s.types, f ∈ t.body.fields := by
  simp only [field?] at h
  split at h
  · exact .inl (by simp [← Option.some.inj h])
  split at h
  · exact .inl (by simp [← Option.some.inj h])
  split at h
  · exact .inl (by simp [← Option.some.inj h])
  · obtain ⟨t, ht, hf⟩ := Option.bind_eq_some_iff.1 h
    obtain ⟨x, -, hx⟩ := Option.bind_eq_some_iff.1 ht
    refine .inr ⟨t, ?_, List.mem_of_find?_eq_some hf⟩
    cases x with
    | named m => exact mem_types_of_type? hx
    | _ => cases hx

/-- What can be given to a type or a field of it can be given in its schema. -/
theorem mem_inputLists_of_body (ht : t ∈ s.types) {vs : List InputValue}
    (hv : vs ∈ t.body.inputLists) : vs ∈ s.inputLists :=
  List.mem_append_right _ (List.mem_append_left _ (List.mem_flatMap.2 ⟨t, ht, hv⟩))

/-- The arguments of a field of a type are in the schema. -/
theorem args_mem_inputLists (ht : t ∈ s.types) {f : Field} (hf : f ∈ t.body.fields) :
    f.args ∈ s.inputLists := by
  apply mem_inputLists_of_body ht
  cases hb : t.body with
  | object _ fs | interface _ fs =>
    rw [hb] at hf
    exact List.mem_map_of_mem hf
  | _ =>
    rw [hb] at hf
    cases hf

/-- What can be given to a field that a schema knows can be given in it. -/
theorem args_mem_inputLists_of_field? {f : Field} (hf : s.field? r n = some f) :
    f.args ∈ s.inputLists := by
  obtain hm | ⟨t, ht, hf⟩ := mem_of_field? hf
  · exact List.mem_append_left _ (List.mem_cons_of_mem _ (List.mem_map_of_mem hm))
  · exact args_mem_inputLists ht hf

/-- What can be given to a directive of a schema can be given in it. -/
theorem args_mem_inputLists_of_directive? {d : Directive} (hd : s.directive? n = some d) :
    d.args ∈ s.inputLists :=
  List.mem_append_right _ (List.mem_append_right _
    (List.mem_map_of_mem (List.mem_of_find?_eq_some hd)))

/-- Input fields are those of an input object of the schema. -/
theorem mem_inputLists_of_inputFields? {vs : List InputValue} (h : s.inputFields? r = some vs) :
    vs ∈ s.inputLists := by
  unfold inputFields? at h
  split at h
  · next fs hb =>
    obtain rfl := Option.some.inj h
    obtain ⟨t, ht, hb⟩ := Option.map_eq_some_iff.1 hb
    apply mem_inputLists_of_body (mem_types_of_baseType? ht)
    rw [hb]
    exact List.mem_singleton_self fs
  · cases h

namespace IsNamed

theorem type (h : s.IsNamed) (ht : t ∈ s.types) : IsName t.name.toList :=
  h _ (List.mem_append_left _ (List.mem_flatMap.2 ⟨t, ht, List.mem_cons_self⟩))

theorem body (h : s.IsNamed) (ht : t ∈ s.types) (hn : n ∈ t.body.names) : IsName n.toList :=
  h _ (List.mem_append_left _ (List.mem_flatMap.2 ⟨t, ht, List.mem_cons_of_mem _ hn⟩))

theorem field (h : s.IsNamed) (ht : t ∈ s.types) {f : Field} (hf : f ∈ t.body.fields) :
    IsName f.name.toList ∧ AreNamed f.args := by
  have hn : ∀ n ∈ f.name :: f.args.map (·.name), n ∈ t.body.names := by
    intro n hn
    cases hb : t.body with
    | object _ fs | interface _ fs =>
      rw [hb] at hf
      exact List.mem_flatMap.2 ⟨f, hf, hn⟩
    | _ =>
      rw [hb] at hf
      cases hf
  exact ⟨h.body ht (hn _ List.mem_cons_self), fun v hv =>
    h.body ht (hn _ (List.mem_cons_of_mem _ (List.mem_map.2 ⟨v, hv, rfl⟩)))⟩

/-- The lists of arguments and of input fields are **named**. -/
theorem inputLists (h : s.IsNamed) {vs : List InputValue} (hv : vs ∈ s.inputLists) :
    AreNamed vs := by
  -- The fields that every schema has are three fixed ones.
  have hmeta : ∀ vs ∈ [] :: [metaSchema, metaType, metaTypename].map (·.args),
      ∀ v ∈ vs, IsName v.name.toList := by decide +kernel
  rcases List.mem_append.1 hv with hv | hv
  · exact hmeta vs hv
  rcases List.mem_append.1 hv with hv | hv
  · obtain ⟨t, ht, hv⟩ := List.mem_flatMap.1 hv
    cases hb : t.body with
    | object _ fs | interface _ fs =>
      rw [hb] at hv
      obtain ⟨f, hf, rfl⟩ := List.mem_map.1 hv
      exact (h.field ht (by rw [hb]; exact hf)).2
    | inputObject us =>
      rw [hb] at hv
      obtain rfl := List.mem_singleton.1 hv
      intro v hv
      apply h.body ht
      rw [hb]
      exact List.mem_map_of_mem hv
    | _ =>
      rw [hb] at hv
      cases hv
  · obtain ⟨d, hd, rfl⟩ := List.mem_map.1 hv
    exact fun v hv => h _ (List.mem_append_right _ (List.mem_flatMap.2
      ⟨d, hd, List.mem_cons_of_mem _ (List.mem_map_of_mem hv)⟩))

end IsNamed

end Schema

/-! ### What a context holds -/

/-- A type context is **of a schema** if what is selected from is a type of it, and all that could
be given is found in it. -/
structure TypeContext.IsOf (s : Schema) (c : TypeContext) : Prop where
  parent : ∀ p ∈ c.parent, s.type? p.name = some p
  field : ∀ f ∈ c.field, f.args ∈ s.inputLists
  directive : ∀ d ∈ c.directive, d.args ∈ s.inputLists
  arguments : ∀ vs ∈ c.arguments, vs ∈ s.inputLists
  objectFields : ∀ vs ∈ c.objectFields, vs ∈ s.inputLists

namespace TypeContext.IsOf

variable {s : Schema} {c : TypeContext}

/-- The arguments of whatever stands around a list of them are found in the schema. -/
theorem argumentsOf (h : c.IsOf s) (owner : Option Link) :
    ∀ vs ∈ c.argumentsOf s owner, vs ∈ s.inputLists := by
  intro vs hvs
  obtain ⟨o, -, ho⟩ := Option.bind_eq_some_iff.1 hvs
  split at ho
  · obtain ⟨f, hf, rfl⟩ := Option.map_eq_some_iff.1 ho
    exact h.field f hf
  · obtain ⟨d, hd, rfl⟩ := Option.map_eq_some_iff.1 ho
    exact h.directive d hd
  · obtain ⟨f, hf, rfl⟩ := Option.map_eq_some_iff.1 ho
    obtain ⟨n, -, hn⟩ := Option.bind_eq_some_iff.1 hf
    obtain ⟨p, -, hp⟩ := Option.bind_eq_some_iff.1 hn
    exact Schema.args_mem_inputLists_of_field? hp
  · obtain rfl := Option.some.inj ho
    exact List.mem_cons_self

/-- The context in a field is of the schema, whether it knows the field or not. -/
theorem enterField (h : c.IsOf s) (n : Option String) : (c.enterField s n).IsOf s := by
  unfold TypeContext.enterField
  split
  · refine ⟨h.parent, fun f hf => ?_, h.directive, h.arguments, h.objectFields⟩
    obtain ⟨p, -, hp⟩ := Option.bind_eq_some_iff.1 hf
    exact Schema.args_mem_inputLists_of_field? hp
  · exact ⟨h.parent, nofun, h.directive, h.arguments, h.objectFields⟩

/-- **One construct** keeps a context of the schema. -/
theorem enter (h : c.IsOf s) (k : RuleKind) (l : Link) (owner : Option Link) :
    (c.enter s k l owner).IsOf s := by
  -- Only some constructs change one of the five parts; the others keep all of them.
  have hsame : ∀ {d : TypeContext}, d.parent = c.parent → d.field = c.field →
      d.directive = c.directive → d.arguments = c.arguments → d.objectFields = c.objectFields →
      d.IsOf s := by
    intro d hp hf hd ha ho
    exact ⟨hp ▸ h.parent, hf ▸ h.field, hd ▸ h.directive, ha ▸ h.arguments, ho ▸ h.objectFields⟩
  cases k with
  | field | aliasedField => exact h.enterField l.name
  | selectionSet =>
    exact ⟨fun p hp => Schema.type?_of_baseType? hp, h.field, h.directive, h.arguments,
      h.objectFields⟩
  | directive =>
    refine ⟨h.parent, h.field, fun d hd => ?_, h.arguments, h.objectFields⟩
    obtain ⟨n, -, hn⟩ := Option.bind_eq_some_iff.1 hd
    exact Schema.args_mem_inputLists_of_directive? hn
  | arguments => exact ⟨h.parent, h.field, h.directive, h.argumentsOf owner, h.objectFields⟩
  | objectValue =>
    exact ⟨h.parent, h.field, h.directive, h.arguments,
      fun vs hvs => Schema.mem_inputLists_of_inputFields? hvs⟩
  | inlineFragment | fragmentDefinition | namedType =>
    simp only [TypeContext.enter]
    split <;> exact hsame rfl rfl rfl rfl rfl
  | enumValue =>
    simp only [TypeContext.enter, TypeContext.enterEnumValue]
    split <;> exact hsame rfl rfl rfl rfl rfl
  | _ => exact hsame rfl rfl rfl rfl rfl

end TypeContext.IsOf

/-- A context **at some links** is of the schema. -/
theorem TypeContext.isOf_ofLinks (s : Schema) (ls : List Link) : (ofLinks s ls).IsOf s := by
  have hnone : ({} : TypeContext).IsOf s := ⟨nofun, nofun, nofun, nofun, nofun⟩
  induction ls with
  | nil => exact hnone
  | cons l ls ih =>
    obtain hk | ⟨k, hk⟩ := Option.eq_none_or_eq_some l.kind
    · simpa only [ofLinks, hk] using hnone
    · rw [ofLinks_cons hk]
      exact ih.enter k l ls.head?

/-- A type context is **named** in a schema if what is selected from is a type of it, and all that
could be given has names of the language. -/
structure TypeContext.IsNamed (s : Schema) (c : TypeContext) : Prop where
  parent : ∀ t ∈ c.parent, t ∈ s.types
  field : ∀ f ∈ c.field, AreNamed f.args
  directive : ∀ d ∈ c.directive, AreNamed d.args
  arguments : ∀ vs ∈ c.arguments, AreNamed vs
  objectFields : ∀ vs ∈ c.objectFields, AreNamed vs

/-- A context of a schema with names of the language has them too. -/
theorem TypeContext.isNamed_ofLinks {s : Schema} (hs : s.IsNamed) (ls : List Link) :
    (ofLinks s ls).IsNamed s := by
  obtain ⟨hp, hf, hd, ha, ho⟩ := isOf_ofLinks s ls
  refine ⟨?_, ?_, ?_, ?_, ?_⟩
  · exact fun t ht => Schema.mem_types_of_type? (hp t ht)
  · exact fun f hm => hs.inputLists (hf f hm)
  · exact fun d hm => hs.inputLists (hd d hm)
  · exact fun vs hm => hs.inputLists (ha vs hm)
  · exact fun vs hm => hs.inputLists (ho vs hm)

/-! ### Candidates -/

namespace Candidates

variable {s : Schema} {x : Suggestion}

/-- The fields that are offered have names of the language, those of every schema too. -/
theorem isName_of_mem_fields (hs : s.IsNamed) {parent : Option TypeDef}
    (hp : ∀ t ∈ parent, t ∈ s.types) (hx : x ∈ fields s parent) : IsName x.text.toList := by
  cases parent with
  | none => cases hx
  | some p =>
    obtain ⟨f, hf, rfl⟩ := List.mem_map.1 hx
    have hmeta : ∀ f ∈ [metaTypename, metaSchema, metaType], IsName f.name.toList := by
      decide +kernel
    obtain hf | hf := List.mem_append.1 hf
    · obtain hf | hf := List.mem_append.1 hf
      · exact (hs.field (hp p rfl) hf).1
      · refine hmeta f ?_
        split at hf <;> simp_all
    · refine hmeta f ?_
      split at hf <;> simp_all

/-- The arguments and input fields that are offered have names of the language. -/
theorem isName_of_mem_inputValues {vs : Option (List InputValue)} (hv : ∀ v ∈ vs, AreNamed v)
    (hx : x ∈ inputValues vs) : IsName x.text.toList := by
  obtain ⟨v, hm, rfl⟩ := List.mem_map.1 hx
  cases vs with
  | none => cases hm
  | some vs => exact hv vs rfl v hm

/-- The literals that are offered are names of the language: members of an enum and the two truth
values. -/
theorem isName_of_mem_literals (hs : s.IsNamed) {r : Option TypeRef} {ss : List Suggestion}
    (hl : literals s r = .ok ss) (hx : x ∈ ss) : IsName x.text.toList := by
  unfold literals at hl
  split at hl
  · obtain rfl := Except.ok.inj hl
    cases hx
  · next t ht =>
    split at hl
    · next ms hb =>
      cases ms with
      | faulty f => cases hl
      | known ms =>
        obtain rfl := Except.ok.inj hl
        obtain ⟨m, hm, rfl⟩ := List.mem_map.1 hx
        refine hs.body (Schema.mem_types_of_baseType? ht) ?_
        rw [hb]
        exact List.mem_map.2 ⟨m, hm, rfl⟩
    · split at hl
      · obtain rfl := Except.ok.inj hl
        simp only [List.mem_cons, List.not_mem_nil, or_false] at hx
        have htrue : IsName "true".toList ∧ IsName "false".toList := by decide
        rcases hx with rfl | rfl
        · exact htrue.1
        · exact htrue.2
      · obtain rfl := Except.ok.inj hl
        cases hx

/-- The types that a fragment can be on are types of the schema. -/
theorem mem_types_of_mem_conditionTypes {parent : Option TypeDef} (hp : ∀ t ∈ parent, t ∈ s.types)
    {ts : List TypeDef} (hl : conditionTypes s parent = .ok ts) {t : TypeDef} (ht : t ∈ ts) :
    t ∈ s.types := by
  unfold conditionTypes at hl
  split at hl
  · obtain rfl := Except.ok.inj hl
    exact (List.mem_filter.1 ht).1
  · next p =>
    split at hl
    · simp only at hl
      split at hl
      · obtain rfl := Except.ok.inj hl
        obtain ⟨n, -, hn⟩ := List.mem_filterMap.1 ht
        exact Schema.mem_types_of_type? hn
      · cases hl
    · obtain rfl := Except.ok.inj hl
      obtain rfl := List.mem_singleton.1 ht
      exact hp t rfl

/-- The type conditions that are offered are names of the language. -/
theorem isName_of_mem_typeConditions (hs : s.IsNamed) {parent : Option TypeDef}
    (hp : ∀ t ∈ parent, t ∈ s.types) {ss : List Suggestion}
    (hl : typeConditions s parent = .ok ss) (hx : x ∈ ss) : IsName x.text.toList := by
  unfold typeConditions at hl
  cases hts : conditionTypes s parent with
  | error f =>
    rw [hts] at hl
    cases hl
  | ok ts =>
    rw [hts] at hl
    obtain rfl := Except.ok.inj hl
    obtain ⟨t, ht, rfl⟩ := List.mem_map.1 hx
    exact hs.type (mem_types_of_mem_conditionTypes hp hts ht)

/-- The types of variables that are offered have names of the language. -/
theorem isName_of_mem_variableTypes (hs : s.IsNamed) (hx : x ∈ variableTypes s) :
    IsName x.text.toList := by
  obtain ⟨t, ht, rfl⟩ := List.mem_map.1 hx
  exact hs.type (List.mem_filter.1 ht).1

/-- The keywords that begin a definition are names up to the last character, and none of them
begins another one. -/
theorem definitionOf?_of_isPrefix (hx : x ∈ definitionKeywords) {p : List Char} (hp : p ≠ [])
    (hpx : p <+: x.text.toList) (hne : p ≠ x.text.toList) :
    IsName p ∧ definitionOf? (String.ofList p) = none := by
  have hall : ∀ x ∈ definitionKeywords, ∀ p ∈ x.text.toList.inits, p ≠ [] → p ≠ x.text.toList →
      IsName p ∧ definitionOf? (String.ofList p) = none := by decide +kernel
  exact hall x hx p ((List.mem_inits p _).2 hpx) hp hne

end Candidates

/-- **Every candidate is a name** at a position that takes one. -/
theorem isName_of_mem_candidates {s : Schema} (hs : s.IsNamed) {document : List Char} {c : Chain}
    {ctx : TypeContext} (h : ctx.IsNamed s) {o : Position} {n : String} (ho : o.Takes n)
    (hd : o ≠ .definitionKeyword) {ss : List Suggestion}
    (hss : candidates s document c ctx o = .ok ss) {x : Suggestion} (hx : x ∈ ss) :
    IsName x.text.toList := by
  cases o with
  | definitionKeyword => exact absurd rfl hd
  | field =>
    obtain rfl := Except.ok.inj hss
    exact Candidates.isName_of_mem_fields hs h.parent hx
  | argument =>
    obtain rfl := Except.ok.inj hss
    exact Candidates.isName_of_mem_inputValues h.arguments hx
  | objectField =>
    obtain rfl := Except.ok.inj hss
    exact Candidates.isName_of_mem_inputValues h.objectFields hx
  | inputValue => exact Candidates.isName_of_mem_literals hs hss hx
  | typeCondition => exact Candidates.isName_of_mem_typeConditions hs h.parent hss hx
  | variableType =>
    obtain rfl := Except.ok.inj hss
    exact Candidates.isName_of_mem_variableTypes hs hx
  | fragmentSpread | directive => exact ho.elim

end QueryAssist
