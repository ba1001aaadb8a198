import Mathlib.Data.List.Nodup
import QueryAssist.Proofs.Typing.Suggestion

/-! # Offered and resolved

What is offered at a place is found in the schema by one part of the program, and what a name means
once it is written by another. They agree: the name of every suggestion is resolved to what was
suggested. Main definitions:

* **`Schema.IsSound`** — a schema whose names are names of the language and are told apart.
* **`TypeContext.Resolves`** — the context once a name is read at a place.

Main statements: `Chain.resolves_afterName`, what a name is looked up in, and `complete_resolves`,
every suggestion is understood, and every field that can be selected is suggested. -/

namespace QueryAssist

open Grammar Chain

/-! ### Sound schemas -/

/-- The members of an enum, as far as they are known. -/
def TypeBody.members : TypeBody → List EnumMember
  | enum (.known ms) => ms
  | _ => []

/-- A schema is **sound** if its names are names of the language, no two arguments, fields or
members of the same thing have the same name, and no member of an enum is named like another
literal. The parts of a schema are kept in tables by their names, which are checked when it is
built, so that every schema is. -/
structure Schema.IsSound (s : Schema) : Prop where
  named : s.IsNamed
  inputs : ∀ vs ∈ s.inputLists, (vs.map (·.name)).Nodup
  fields : ∀ t ∈ s.types, (t.body.fields.map (·.name)).Nodup
  members : ∀ t ∈ s.types, (t.body.members.map (·.name)).Nodup
  literals : ∀ t ∈ s.types, ∀ m ∈ t.body.members, m.name ∉ ["true", "false", "null"]

instance (s : Schema) : Decidable s.IsSound :=
  decidable_of_iff (s.IsNamed ∧ (∀ vs ∈ s.inputLists, (vs.map (·.name)).Nodup) ∧
      (∀ t ∈ s.types, (t.body.fields.map (·.name)).Nodup) ∧
      (∀ t ∈ s.types, (t.body.members.map (·.name)).Nodup) ∧
      ∀ t ∈ s.types, ∀ m ∈ t.body.members, m.name ∉ ["true", "false", "null"])
    ⟨fun ⟨hn, hi, hf, hm, hl⟩ => ⟨hn, hi, hf, hm, hl⟩,
      fun h => ⟨h.named, h.inputs, h.fields, h.members, h.literals⟩⟩

/-- No type of the schema has a field of its own with **two underscores** in front. -/
def Schema.IsPlain (s : Schema) : Prop :=
  ∀ t ∈ s.types, ∀ f ∈ t.body.fields, ¬"__".toList <+: f.name.toList

instance (s : Schema) : Decidable s.IsPlain :=
  inferInstanceAs (Decidable (∀ t ∈ s.types, ∀ f ∈ t.body.fields, _))

/-- What has a name of its own is **found** by it. -/
theorem find?_of_nodup {α : Type} {f : α → String} {as : List α} (hn : (as.map f).Nodup) {a : α}
    (ha : a ∈ as) : as.find? (fun b => f b == f a) = some a := by
  induction as with
  | nil => cases ha
  | cons b as ih =>
    obtain ⟨hb, hn⟩ := List.nodup_cons.1 (List.map_cons ▸ hn)
    rcases List.mem_cons.1 ha with rfl | ha
    · exact List.find?_cons_of_pos (beq_self_eq_true _)
    · have hne : f b ≠ f a := by
        intro h
        exact hb (h ▸ List.mem_map_of_mem ha)
      rw [List.find?_cons_of_neg (by simpa using hne)]
      exact ih hn ha

/-- A name is one that is written. -/
theorem IsName.written? {n : String} (h : IsName n.toList) : written? (some n) = some n := by
  apply written?_some
  rintro rfl
  exact not_isName_nil h

/-! ### What a name is looked up in -/

namespace TypeContext

/-- What a context **resolves** a name to at a position: the context once the name is read there. A
field is looked up in the braces around it, where what is selected from is the same. -/
def Resolves (s : Schema) (n : String) (ctx info : TypeContext) : Position → Prop
  | .field => ∃ braces : TypeContext, info = braces.enterField s (some n) ∧
      braces.parent = ctx.parent ∧ (ctx.parent.isSome → braces.type.isSome)
  | .argument => info = ctx.enterArgument (some n)
  | .objectField => info = ctx.enterObjectField (some n)
  | .inputValue => info = ctx.enterEnumValue s (some n)
  | _ => True

/-- In the braces of a selection set it is known what is selected from only if the type around them
is known. -/
theorem isSome_type_of_selectionSet (s : Schema) {l : Link} (hl : l.kind = some .selectionSet)
    {ls : List Link} (hp : (ofLinks s (l :: ls)).parent.isSome) :
    (ofLinks s (l :: ls)).type.isSome := by
  rw [ofLinks_cons hl] at hp ⊢
  obtain ⟨p, hp⟩ := Option.isSome_iff_exists.1 hp
  obtain ⟨t, ht, -⟩ := Option.bind_eq_some_iff.1 hp
  exact Option.isSome_iff_exists.2 ⟨t, ht⟩

end TypeContext

namespace Chain

open TypeContext

variable {d : Chain} {k : RuleKind} {ss : List Step} {n : String} {o : Position}

/-- A name in the braces of a selection set is that of a field. -/
theorem resolves_selectionSet (hd : d.IsSettled) (hl : d.top.IsLive .selectionSet (.steps ss))
    (hi : d.top.step = 1) (hn : n ≠ "...") (s : Schema) :
    Resolves s n (ofLinks s d.links) (ofLinks s (d.afterName n).links) .field := by
  obtain ⟨r, hr, hf, ha⟩ := falls_selectionSet hl hi hn
  rw [hd.afterName_of_falls hf ha]
  exact ⟨ofLinks s d.links, rfl, rfl, isSome_type_of_selectionSet s hl.kind⟩

/-- So is a name behind a field. -/
theorem resolves_field (hd : d.IsSettled) (hl : d.top.IsLive k (.steps ss))
    (hk : d.top.isField = true) (htail : ss.drop d.top.step <:+ fieldTail) (hn : n ≠ "...")
    (s : Schema) : Resolves s n (ofLinks s d.links) (ofLinks s (d.afterName n).links) .field := by
  obtain ⟨p, q, ps, hout, hp, ⟨qs, hq⟩, hi, -, hf⟩ := falls_field hd hl hk htail n
  obtain ⟨r, hr, hf', ha⟩ := falls_selectionSet (d := ⟨q, ps⟩) hq hi hn
  rw [hd.afterName_of_falls (hf.trans hf') ha]
  have hparent : (ofLinks s d.links).parent = (ofLinks s (q :: ps)).parent := by
    rw [links, hout]
    exact (context_field s hk hp.kind).1
  refine ⟨ofLinks s (q :: ps), rfl, hparent.symm, ?_⟩
  rw [hparent]
  exact isSome_type_of_selectionSet s hq.kind

/-- A name after an alias and its colon is that of the field itself. -/
theorem resolves_aliasedField (hd : d.IsSettled) (hl : d.top.IsLive .aliasedField (.steps ss))
    (hi : d.top.step = 2) (s : Schema) :
    Resolves s n (ofLinks s d.links) (ofLinks s (d.afterName n).links) .field := by
  obtain rfl := Rule.steps.inj (Option.some.inj hl.standard)
  have hfield : d.top.isField = true := Link.isField_iff.2 (.inr hl.kind)
  have ha : Admits (.word n) [] d (.name "qualifier") :=
    ⟨by rw [hl.rule]; rfl, by rw [hl.wanted?_eq (by rw [hi]; rfl) rfl]; rfl, rfl⟩
  rw [hd.afterName_of_falls .refl ha]
  obtain ⟨p, q, ps, hout, hp, ⟨qs, hq⟩, -, -⟩ := hd.toIsOpen.around_field hfield
  have hbraces : ofLinks s d.outer = ofLinks s (q :: ps) := by
    rw [hout]
    exact ofLinks_cons hp.kind (q :: ps)
  have hparent : (ofLinks s d.links).parent = (ofLinks s d.outer).parent :=
    (context_of_isField s hfield d.outer).1
  refine ⟨ofLinks s d.outer, ?_, hparent.symm, ?_⟩
  · exact ofLinks_cons (l := { d.top with name := some n, needsAdvance := true }) hl.kind d.outer
  · rw [hparent, hbraces]
    exact isSome_type_of_selectionSet s hq.kind

/-- A name in an argument list is that of an argument, and one in an object literal that of a field of
it. -/
theorem resolves_named (hd : d.IsSettled) (hl : d.top.IsLive k (.steps ss))
    (hplace : (k, d.top.step) ∈ o.places) (ho : o = .argument ∨ o = .objectField) (s : Schema) :
    Resolves s n (ofLinks s d.links) (ofLinks s (d.afterName n).links) o := by
  have hctx := (hd.afterName_named (n := n) hl hplace ho s).2
  obtain rfl | rfl := ho <;> exact hctx

/-- **What a name is looked up in**, at every position that takes it. -/
theorem resolves_afterName (hd : d.IsSettled) (he : d.top.IsEntered) (hc : ¬d.top.AwaitsColon)
    (ho : Position.ofChain? d = some o) (hname : IsName n.toList) (hn : o.Takes n) (s : Schema) :
    Resolves s n (ofLinks s d.links) (ofLinks s (d.afterName n).links) o := by
  have hdots : n ≠ "..." := hname.ne (by decide)
  obtain ⟨k, ss, hl, hmem⟩ := hd.mem_places he hc ho
  generalize hi : d.top.step = i at hmem
  -- The cases are the positions, and in each the places at which a scan rests there.
  cases o with
  | field =>
    obtain ⟨k, ss, hl, ⟨rfl, hi⟩ | ⟨rfl, hi⟩ | ⟨hk, htail⟩⟩ := hd.field_cases he hc ho
    · exact resolves_selectionSet hd hl hi hdots s
    · exact resolves_aliasedField hd hl hi s
    · exact resolves_field hd hl hk htail hdots s
  | argument => exact resolves_named hd hl (hi ▸ hmem) (.inl rfl) s
  | objectField => exact resolves_named hd hl (hi ▸ hmem) (.inr rfl) s
  | inputValue => exact (afterName_value hd he hc ho hn s).2
  | _ => trivial

end Chain

/-! ### What is found in the schema -/

namespace Schema

variable {s : Schema} {p : TypeDef}

/-- A field of a type of the schema is one of the three that need no definition, or its own. -/
theorem fieldOf?_eq (hp : s.type? p.name = some p) (n : String) :
    s.fieldOf? (some p) n =
      if n = "__schema" ∧ s.query = some p.name then some metaSchema
      else if n = "__type" ∧ s.query = some p.name then some metaType
      else if n = "__typename" ∧ p.isComposite = true then some metaTypename
      else p.body.fields.find? (·.name == n) := by
  have hroot : s.query.map TypeRef.named = some (.named p.name) ↔ s.query = some p.name := by
    cases s.query <;> simp
  simp only [fieldOf?, field?, plain?, Option.bind_some, hp, Option.any_some, metaSchema, metaType,
    metaTypename, Bool.and_eq_true, beq_iff_eq, hroot]

/-- The fields of a type are none of those that need no definition. -/
theorem IsPlain.name_ne (hf : s.IsPlain) (ht : p ∈ s.types) {f : Field} (hm : f ∈ p.body.fields) :
    f.name ≠ "__schema" ∧ f.name ≠ "__type" ∧ f.name ≠ "__typename" := by
  have hne : ∀ n : String, "__".toList <+: n.toList → f.name ≠ n := by
    rintro n hn rfl
    exact hf p ht f hm hn
  exact ⟨hne _ (by decide), hne _ (by decide), hne _ (by decide)⟩

/-- A field of one's own is found by its name. -/
theorem IsSound.fieldOf?_own (hs : s.IsSound) (hf : s.IsPlain) (hp : s.type? p.name = some p)
    {f : Field} (hm : f ∈ p.body.fields) : s.fieldOf? (some p) f.name = some f := by
  have ht : p ∈ s.types := mem_types_of_type? hp
  have hsep := hf.name_ne ht hm
  rw [fieldOf?_eq hp, if_neg (fun h => hsep.1 h.1), if_neg (fun h => hsep.2.1 h.1),
    if_neg (fun h => hsep.2.2 h.1)]
  exact find?_of_nodup (hs.fields p ht) hm

end Schema

namespace Candidates

variable {s : Schema} {p : TypeDef} {x : Suggestion}

/-- Every field that is **offered is found**. -/
theorem exists_field_of_mem_fields (hs : s.IsSound) (hf : s.IsPlain) (hp : s.type? p.name = some p)
    (hx : x ∈ fields s (some p)) : ∃ f, s.fieldOf? (some p) x.text = some f ∧ x = .ofField f := by
  obtain ⟨f, hm, rfl⟩ := List.mem_map.1 hx
  refine ⟨f, ?_, rfl⟩
  show s.fieldOf? (some p) f.name = some f
  rcases List.mem_append.1 hm with hm | hm
  · rcases List.mem_append.1 hm with hm | hm
    · exact hs.fieldOf?_own hf hp hm
    · split at hm
      · next ha =>
        obtain rfl := List.mem_singleton.1 hm
        rw [Schema.fieldOf?_eq hp]
        simp [metaTypename, TypeDef.isComposite_of_isAbstract ha]
      · cases hm
  · split at hm
    · next hq =>
      rw [Schema.fieldOf?_eq hp]
      simp only [List.mem_cons, List.not_mem_nil, or_false] at hm
      rcases hm with rfl | rfl <;> simp [metaSchema, metaType, hq]
    · cases hm

/-- Every field that is **found is offered once**, but for the name of the type of an object. -/
theorem count_fields (hs : s.IsSound) (hf : s.IsPlain) (hp : s.type? p.name = some p) {n : String}
    {f : Field} (hn : s.fieldOf? (some p) n = some f) :
    ((fields s (some p)).map (·.text)).count n =
      if n = "__typename" ∧ p.kind = .object then 0 else 1 := by
  have ht : p ∈ s.types := Schema.mem_types_of_type? hp
  have hnames : (fields s (some p)).map (·.text) = p.body.fields.map (·.name) ++
      ((if p.isAbstract then ["__typename"] else []) ++
        if s.query = some p.name then ["__schema", "__type"] else []) := by
    simp only [fields, List.append_assoc, List.map_map, List.map_append]
    congr 2
    · split <;> rfl
    · split <;> rfl
  have hown : "__".toList <+: n.toList → (p.body.fields.map (·.name)).count n = 0 := by
    intro hu
    rw [List.count_eq_zero]
    intro hm
    obtain ⟨g, hg, rfl⟩ := List.mem_map.1 hm
    exact hf p ht g hg hu
  have hkind : p.isComposite = true → (p.kind = .object ↔ p.isAbstract = false) := by
    unfold TypeDef.isComposite TypeDef.isAbstract
    cases p.kind <;> simp
  rw [hnames, List.count_append, List.count_append]
  rw [Schema.fieldOf?_eq hp] at hn
  split at hn
  · next h =>
    obtain ⟨rfl, hq⟩ := h
    rw [hown (by decide), if_pos hq]
    split <;> simp
  split at hn
  · next h =>
    obtain ⟨rfl, hq⟩ := h
    rw [hown (by decide), if_pos hq]
    split <;> simp
  split at hn
  · next h =>
    obtain ⟨rfl, hc⟩ := h
    have hroot : (if s.query = some p.name then ["__schema", "__type"] else []).count
        "__typename" = 0 := by
      split <;> rfl
    rw [hown (by decide), hroot]
    cases ha : p.isAbstract <;> simp [hkind hc, ha]
  -- Any other field is one of the type's own, which are told apart from the rest by their names.
  · have hm : f ∈ p.body.fields := List.mem_of_find?_eq_some hn
    obtain rfl : f.name = n := by simpa using List.find?_some hn
    have hsep := hf.name_ne ht hm
    rw [List.count_eq_one_of_mem (hs.fields p ht) (List.mem_map_of_mem hm)]
    split <;> split <;> simp [hsep, Ne.symm]

/-- An argument that is **offered is found**, and so is a field of an object literal. -/
theorem find?_of_mem_inputValues (hs : s.IsSound) {vs : Option (List InputValue)}
    (hv : ∀ us ∈ vs, us ∈ s.inputLists) (hx : x ∈ inputValues vs) :
    ∃ v, (vs.getD []).find? (·.name == x.text) = some v ∧ x = .ofInputValue v := by
  obtain ⟨v, hm, rfl⟩ := List.mem_map.1 hx
  cases vs with
  | none => cases hm
  | some us => exact ⟨v, find?_of_nodup (hs.inputs us (hv us rfl)) hm, rfl⟩

/-- Where an enum is expected its members are offered, and each that is **offered is found**. -/
theorem find?_of_mem_literals (hs : s.IsSound) {r : Option TypeRef} {cs : List Suggestion}
    (hl : literals s r = .ok cs) (hx : x ∈ cs) (he : (s.enumMembers? r).isSome) :
    ∃ ms m e, s.enumMembers? r = some (.known ms) ∧ ms.find? (·.name == x.text) = some m ∧
      x = .ofEnumMember e m ∧ x.text ∉ ["true", "false", "null"] := by
  unfold literals at hl
  unfold Schema.enumMembers? at he ⊢
  -- Only an enum has members, and those of a faulty one are not offered.
  cases ht : s.baseType? r with
  | none =>
    rw [ht] at he
    cases he
  | some t =>
    rw [ht] at hl he
    have htypes : t ∈ s.types := Schema.mem_types_of_baseType? ht
    have hmembers := hs.members t htypes
    have hliterals := hs.literals t htypes
    cases hb : t.body with
    | enum members =>
      simp only [hb] at hl
      rw [hb] at hmembers hliterals
      cases members with
      | faulty f => cases hl
      | known ms =>
        obtain rfl := Except.ok.inj hl
        obtain ⟨m, hm, rfl⟩ := List.mem_map.1 hx
        refine ⟨ms, m, t.name, ?_, find?_of_nodup hmembers hm, rfl, hliterals m hm⟩
        simp only [Option.map_some, hb]
    | _ =>
      simp only [Option.map_some, hb] at he
      cases he

end Candidates

/-! ### No fault at a field -/

namespace TypeContext

/-- Only a member of an enum can show a fault. -/
theorem fault_enter (s : Schema) {k : RuleKind} (hk : k ≠ .enumValue) (l : Link)
    (owner : Option Link) (ctx : TypeContext) : (ctx.enter s k l owner).fault = ctx.fault := by
  cases k with
  | enumValue => exact absurd rfl hk
  | field | aliasedField => exact (parent_enterField s ctx l.name).2
  | inlineFragment | fragmentDefinition | namedType =>
    simp only [enter]
    split <;> rfl
  | _ => rfl

/-- Nothing goes wrong in a context outside the members of enums. -/
theorem fault_ofLinks (s : Schema) {ls : List Link} (h : ∀ l ∈ ls, l.kind ≠ some .enumValue) :
    (ofLinks s ls).fault = none := by
  induction ls with
  | nil => rfl
  | cons l ls ih =>
    obtain ⟨hl, hls⟩ := List.forall_mem_cons.1 h
    obtain hk | ⟨k, hk⟩ := Option.eq_none_or_eq_some l.kind
    · simp only [ofLinks, hk]
    · rw [ofLinks_cons hk, fault_enter s (by rintro rfl; exact hl hk)]
      exact ih hls

end TypeContext

/-- Nothing is nested in a **member of an enum**. -/
theorem Chain.Nested.kind_ne_enumValue {l : Link} {ls : List Link} (h : Nested (l :: ls)) :
    ∀ p ∈ ls, p.kind ≠ some .enumValue := by
  generalize hls : l :: ls = ms at h
  induction h generalizing l ls with
  | document =>
    obtain ⟨rfl, rfl⟩ := List.cons.inj hls
    simp
  | @inside l' p ps k r hl hp hs ih =>
    obtain ⟨rfl, rfl⟩ := List.cons.inj hls
    refine List.forall_mem_cons.2 ⟨fun hk => ?_, ih rfl⟩
    -- The rule for members names no construct.
    obtain ⟨k', r', hl'⟩ := hs.isLive_head
    obtain rfl := Option.some.inj (hl'.kind.symm.trans hk)
    obtain ⟨r'', hr, hmem⟩ := hp
    obtain rfl := Option.some.inj (hl'.rule.symm.trans hr)
    obtain rfl := Option.some.inj hl'.standard
    have hnames := Rule.mem_names_of_mem_namesAt hmem
    cases hnames

/-! ### At the end of a document -/

namespace EndsApart

open TypeContext

variable {q p : List Char} {o : Position}

/-- **A name that is added** is looked up in the context at the end, if the position takes it. -/
theorem resolves (h : EndsApart q) (hp : IsName p)
    (ho : Position.ofChain? (endToken q).chain.valid = some o) (ht : o.Takes (String.ofList p))
    (s : Schema) :
    (ofLinks s (endToken q).chain.links).Resolves s (String.ofList p)
      (ofLinks s (endToken (q ++ p)).chain.links) o := by
  obtain ⟨hd, he, hc, ho'⟩ := h.settle ho
  rw [(h.locate_append hp (not_atSpread_of_takes ho ht)).1, afterName_congr hd.settle_eq.symm,
    context_of_restsAt s h.rests.1]
  exact resolves_afterName hd he hc ho' (by simpa using hp) ht s

/-- At a field no fault of the schema shows. -/
theorem fault_eq_none (h : EndsApart q)
    (ho : Position.ofChain? (endToken q).chain.valid = some .field) (s : Schema) :
    (ofLinks s (endToken q).chain.links).fault = none := by
  obtain ⟨hd, -, -, ho'⟩ := h.settle ho
  rw [context_of_restsAt s h.rests.1]
  apply fault_ofLinks
  refine List.forall_mem_cons.2 ⟨fun hk => ?_, Nested.kind_ne_enumValue hd.nested⟩
  simp [Position.ofChain?, hk] at ho'

/-- What is suggested at the end are the **candidates** there, since nothing was typed of a name. -/
theorem complete_eq_ok_iff (h : EndsApart q)
    (ho : Position.ofChain? (endToken q).chain.valid = some o) {s : Schema}
    {ss : List Suggestion} :
    complete s q (Cursor.atEnd q) = .ok ss ↔
      (ofLinks s (endToken q).chain.links).fault = none ∧
        candidates s q (endToken q).chain.valid (ofLinks s (endToken q).chain.links) o =
          .ok ss := by
  obtain ⟨-, -, hfilter⟩ := h.rests
  rw [QueryAssist.complete_eq_ok_iff rfl ho]
  constructor
  · rintro ⟨hf, cs, hcs, rfl⟩
    rw [narrow_of_not_isFilterable (isFilterable_typed hfilter ..)]
    exact ⟨hf, hcs⟩
  · rintro ⟨hf, hcs⟩
    exact ⟨hf, ss, hcs, (narrow_of_not_isFilterable (isFilterable_typed hfilter ..) ss).symm⟩

end EndsApart

/-! ### The suggestions -/

section Suggestions

open TypeContext

variable {s : Schema} {q : List Char} {o : Position} {ss : List Suggestion} {x : Suggestion}

/-- What was suggested at a position is a name and **resolved** once it is written. -/
theorem resolves_suggestion (hs : s.IsSound) (hq : EndsApart q)
    (ho : Position.ofChain? (endToken q).chain.valid = some o)
    (hss : complete s q (Cursor.atEnd q) = .ok ss) (hx : x ∈ ss) (ht : o.Takes x.text)
    (hd : o ≠ .definitionKeyword) :
    IsName x.text.toList ∧ (ofLinks s (endToken q).chain.links).Resolves s x.text
      (ofLinks s (endToken (q ++ x.text.toList)).chain.links) o := by
  obtain ⟨-, hcs⟩ := (hq.complete_eq_ok_iff ho).1 hss
  have hname := isName_of_mem_candidates hs.named (isNamed_ofLinks hs.named _) ht hd hcs hx
  have h := hq.resolves hname ho (by rwa [String.ofList_toList]) s
  rw [String.ofList_toList] at h
  exact ⟨hname, h⟩

/-- A field that is suggested is the one that is then selected. -/
theorem field_of_mem_complete (hs : s.IsSound) (hf : s.IsPlain) (hq : EndsApart q)
    (ho : Position.ofChain? (endToken q).chain.valid = some .field)
    (hss : complete s q (Cursor.atEnd q) = .ok ss) (hx : x ∈ ss) :
    ∃ f, (ofLinks s (endToken (q ++ x.text.toList)).chain.links).field = some f ∧
      f.name = x.text ∧ x.type = some f.type := by
  obtain ⟨hname, braces, hinfo, hparent, htype⟩ :=
    resolves_suggestion hs hq ho hss hx trivial nofun
  have hof := isOf_ofLinks s (endToken q).chain.links
  obtain ⟨-, hcs⟩ := (hq.complete_eq_ok_iff ho).1 hss
  obtain rfl := Except.ok.inj hcs
  -- Without a parent no field is suggested.
  cases hp : (ofLinks s (endToken q).chain.links).parent with
  | none =>
    rw [hp] at hx
    cases hx
  | some p =>
    rw [hp] at hx hparent htype
    obtain ⟨f, hfield, rfl⟩ :=
      Candidates.exists_field_of_mem_fields hs hf (hof.parent p hp) hx
    obtain ⟨t, ht⟩ := Option.isSome_iff_exists.1 (htype rfl)
    refine ⟨f, ?_, rfl, rfl⟩
    rw [hinfo, enterField, ht, hname.written?, hparent]
    exact hfield

/-- An argument that is suggested is the one that is then given. -/
theorem argument_of_mem_complete (hs : s.IsSound) (hq : EndsApart q)
    (ho : Position.ofChain? (endToken q).chain.valid = some .argument)
    (hss : complete s q (Cursor.atEnd q) = .ok ss) (hx : x ∈ ss) :
    ∃ a, (ofLinks s (endToken (q ++ x.text.toList)).chain.links).argument = some a ∧
      a.name = x.text ∧ x.type = some a.type ∧
      (ofLinks s (endToken (q ++ x.text.toList)).chain.links).input = x.type := by
  obtain ⟨-, hinfo⟩ := resolves_suggestion hs hq ho hss hx trivial nofun
  have hof := isOf_ofLinks s (endToken q).chain.links
  obtain ⟨-, hcs⟩ := (hq.complete_eq_ok_iff ho).1 hss
  obtain rfl := Except.ok.inj hcs
  obtain ⟨a, ha, rfl⟩ := Candidates.find?_of_mem_inputValues hs hof.arguments hx
  refine ⟨a, ?_, rfl, rfl, ?_⟩
  · rw [hinfo, enterArgument]
    exact ha
  · rw [hinfo, enterArgument]
    exact congrArg (Option.map _) ha

/-- A field of an object literal that is suggested is the one that then gets a value. -/
theorem input_of_mem_complete (hs : s.IsSound) (hq : EndsApart q)
    (ho : Position.ofChain? (endToken q).chain.valid = some .objectField)
    (hss : complete s q (Cursor.atEnd q) = .ok ss) (hx : x ∈ ss) :
    x.type.isSome ∧ (ofLinks s (endToken (q ++ x.text.toList)).chain.links).input = x.type := by
  obtain ⟨hname, hinfo⟩ := resolves_suggestion hs hq ho hss hx trivial nofun
  have hof := isOf_ofLinks s (endToken q).chain.links
  obtain ⟨-, hcs⟩ := (hq.complete_eq_ok_iff ho).1 hss
  obtain rfl := Except.ok.inj hcs
  obtain ⟨v, hv, rfl⟩ := Candidates.find?_of_mem_inputValues hs hof.objectFields hx
  refine ⟨rfl, ?_⟩
  rw [hinfo, enterObjectField, hname.written?]
  exact congrArg (Option.map _) hv

/-- A member of an enum that is suggested is the one that is then written. -/
theorem enumMember_of_mem_complete (hs : s.IsSound) (hq : EndsApart q)
    (ho : Position.ofChain? (endToken q).chain.valid = some .inputValue)
    (hss : complete s q (Cursor.atEnd q) = .ok ss) (hx : x ∈ ss)
    (he : (s.enumMembers? (ofLinks s (endToken q).chain.links).input).isSome) :
    ∃ m e, (ofLinks s (endToken (q ++ x.text.toList)).chain.links).enumMember = some m ∧
      m.name = x.text ∧ x = .ofEnumMember e m := by
  obtain ⟨-, hcs⟩ := (hq.complete_eq_ok_iff ho).1 hss
  obtain ⟨ms, m, e, hms, hm, hxm, ht⟩ := Candidates.find?_of_mem_literals hs hcs hx he
  obtain ⟨hname, hinfo⟩ := resolves_suggestion hs hq ho hss hx ht nofun
  refine ⟨m, e, ?_, ?_, hxm⟩
  · rw [hinfo, enterEnumValue, hms, hname.written?]
    exact hm
  · rw [hxm]
    rfl

/-- **Offered and resolved.** In a sound schema without fields of its own that begin with two
underscores, at the end of a document that ends apart: once the text of a suggestion is added, the
field that is selected, the argument that is given, the type that a literal must have and the member
of an enum are those that were suggested. Where a field is wanted there are suggestions, and every
name that is found on the type that is selected from is among them once, but for the name of the
type of an object. -/
theorem complete_resolves (hs : s.IsSound) (hf : s.IsPlain) (hq : EndsApart q)
    (ho : Position.ofChain? (endToken q).chain.valid = some o) :
    (∀ ss, complete s q (Cursor.atEnd q) = .ok ss → ∀ x ∈ ss,
      let info := ofLinks s (endToken (q ++ x.text.toList)).chain.links
      (o = .field → ∃ f, info.field = some f ∧ f.name = x.text ∧ x.type = some f.type) ∧
      (o = .argument → ∃ a, info.argument = some a ∧ a.name = x.text ∧ x.type = some a.type ∧
        info.input = x.type) ∧
      (o = .objectField → x.type.isSome ∧ info.input = x.type) ∧
      (o = .inputValue →
        (s.enumMembers? (ofLinks s (endToken q).chain.links).input).isSome →
        ∃ m e, info.enumMember = some m ∧ m.name = x.text ∧ x = .ofEnumMember e m)) ∧
    (o = .field → ∀ p, (ofLinks s (endToken q).chain.links).parent = some p →
      ∃ ss, complete s q (Cursor.atEnd q) = .ok ss ∧
        ∀ n f, s.fieldOf? (some p) n = some f →
          (ss.map (·.text)).count n = if n = "__typename" ∧ p.kind = .object then 0 else 1) := by
  constructor
  · intro ss hss x hx info
    refine ⟨?_, ?_, ?_, ?_⟩
    · rintro rfl
      exact field_of_mem_complete hs hf hq ho hss hx
    · rintro rfl
      exact argument_of_mem_complete hs hq ho hss hx
    · rintro rfl
      exact input_of_mem_complete hs hq ho hss hx
    · rintro rfl he
      exact enumMember_of_mem_complete hs hq ho hss hx he
  · rintro rfl p hp
    have hof := isOf_ofLinks s (endToken q).chain.links
    refine ⟨Candidates.fields s (some p), ?_, ?_⟩
    · apply (hq.complete_eq_ok_iff ho).2
      refine ⟨hq.fault_eq_none ho s, ?_⟩
      rw [candidates, hp]
    · intro n f hn
      exact Candidates.count_fields hs hf (hof.parent p hp) hn

/-- In the braces of a field of an interface type its fields are offered with the name of the type
that is found there, and each is understood. -/
theorem complete_resolves_interface :
    ∃ (s : Schema) (q : List Char) (p : TypeDef) (ss : List Suggestion),
      q = "\x7b node(id: 1) \x7b ".toList ∧ s.IsSound ∧ s.IsPlain ∧ EndsApart q ∧
      Position.ofChain? (endToken q).chain.valid = some .field ∧
      (ofLinks s (endToken q).chain.links).parent = some p ∧ p.name = "Node" ∧
      complete s q (Cursor.atEnd q) = .ok ss ∧ ss.map (·.text) = ["id", "owner", "__typename"] ∧
      (∀ x ∈ ss, ∃ f, (ofLinks s (endToken (q ++ x.text.toList)).chain.links).field = some f ∧
        f.name = x.text ∧ x.type = some f.type) ∧
      ∀ n f, s.fieldOf? (some p) n = some f → (ss.map (·.text)).count n = 1 := by
  let p : TypeDef := { name := "Node", body := .interface [] [
    { name := "id", type := .nonNull (.named "ID") }, { name := "owner", type := .named "User" }] }
  let s : Schema := {
    query := some "Query",
    types := [{ name := "Query", body := .object [] [
      { name := "node", type := .named "Node", args := [{ name := "id", type := .named "ID" }] }] },
      p] }
  let q : List Char := "\x7b node(id: 1) \x7b ".toList
  have hs : s.IsSound := by decide +kernel
  have hf : s.IsPlain := by decide +kernel
  have hq : EndsApart q :=
    ⟨(Scan.tokens q).getLast (by decide +kernel), List.getLast?_eq_some_getLast _,
      by decide +kernel, .inl (by decide +kernel)⟩
  have ho : Position.ofChain? (endToken q).chain.valid = some .field := by decide +kernel
  have hp : (ofLinks s (endToken q).chain.links).parent = some p := by decide +kernel
  obtain ⟨hunderstood, hoffered⟩ := complete_resolves hs hf hq ho
  obtain ⟨ss, hss, hcount⟩ := hoffered rfl p hp
  have hfields : ss = Candidates.fields s (some p) := by
    have h : complete s q (Cursor.atEnd q) = .ok (Candidates.fields s (some p)) := by
      decide +kernel
    exact Except.ok.inj (hss.symm.trans h)
  refine ⟨s, q, p, ss, rfl, hs, hf, hq, ho, hp, rfl, hss, ?_, ?_, ?_⟩
  · rw [hfields]
    decide +kernel
  · intro x hx
    exact (hunderstood ss hss x hx).1 rfl
  · intro n f hn
    rw [hcount n f hn, if_neg]
    exact fun h => by cases h.2

end Suggestions

end QueryAssist
