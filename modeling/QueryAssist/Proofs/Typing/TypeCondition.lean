import QueryAssist.Proofs.Typing.Suggestion

/-! # The types that a fragment can be on

A fragment can be on the composite types of a schema. Outside any selection all of them are
suggested; inside one the suggestions are found from the type that is selected from, which the
document may choose badly. None but composite types are suggested if that one is composite. Main
definition:

* **`Schema.ImplementsInterfaces`** — a schema whose types implement interfaces only.

Main statements: `Candidates.isComposite_of_mem_conditionTypes`, on the candidates, and
`complete_typeCondition`, on the suggestions at every cursor. -/

namespace QueryAssist

/-- What the types of a schema **implement** are interfaces. -/
def Schema.ImplementsInterfaces (s : Schema) : Prop :=
  ∀ t ∈ s.types, ∀ n ∈ t.body.interfaces, ∀ u ∈ s.type? n, u.kind = .interface

instance (s : Schema) : Decidable s.ImplementsInterfaces :=
  inferInstanceAs (Decidable (∀ t ∈ s.types, ∀ n ∈ t.body.interfaces, _))

namespace TypeDef

variable {t : TypeDef}

/-- What has fields is composite. -/
theorem isComposite_of_hasFields (h : t.hasFields = true) : t.isComposite = true := by
  simp only [hasFields, isComposite, Bool.or_eq_true] at h ⊢
  exact .inl h

/-- An interface is composite. -/
theorem isComposite_of_interface (h : t.kind = .interface) : t.isComposite = true := by
  simp [isComposite, h]

end TypeDef

namespace Candidates

variable {s : Schema} {parent : Option TypeDef} {ts : List TypeDef} {t : TypeDef}

/-- **The types that a fragment can be on** are composite, if the type that is selected from is. -/
theorem isComposite_of_mem_conditionTypes (hs : s.ImplementsInterfaces)
    (hp : ∀ p ∈ parent, p.isComposite = true) (hl : conditionTypes s parent = .ok ts)
    (ht : t ∈ ts) : t.isComposite = true := by
  unfold conditionTypes at hl
  split at hl
  · obtain rfl := Except.ok.inj hl
    exact (List.mem_filter.1 ht).2
  · next p =>
    split at hl
    · simp only at hl
      split at hl
      · next hall =>
        obtain rfl := Except.ok.inj hl
        obtain ⟨n, hn, htn⟩ := List.mem_filterMap.1 ht
        -- A name is that of a possible type, or of an interface that one of them implements.
        rcases List.mem_append.1 (List.mem_eraseDups.1 hn) with hn | hn
        · obtain ⟨u, hu, rfl⟩ := List.mem_map.1 hn
          obtain ⟨m, -, hm⟩ := List.mem_filterMap.1 hu
          rw [Schema.name_of_type? hm] at htn
          obtain rfl : u = t := Option.some.inj (hm.symm.trans htn)
          exact TypeDef.isComposite_of_hasFields (List.all_eq_true.1 hall u hu)
        · obtain ⟨u, hu, hn⟩ := List.mem_flatMap.1 hn
          obtain ⟨m, -, hm⟩ := List.mem_filterMap.1 hu
          exact TypeDef.isComposite_of_interface
            (hs u (Schema.mem_types_of_type? hm) n hn t htn)
      · cases hl
    · obtain rfl := Except.ok.inj hl
      obtain rfl := List.mem_singleton.1 ht
      exact hp t rfl

/-- What is suggested for the type of a fragment is the name of such a type. -/
theorem exists_of_mem_typeConditions {ss : List Suggestion} (hl : typeConditions s parent = .ok ss)
    {x : Suggestion} (hx : x ∈ ss) :
    ∃ ts, conditionTypes s parent = .ok ts ∧ ∃ t ∈ ts, t.name = x.text := by
  unfold typeConditions at hl
  cases hts : conditionTypes s parent with
  | error f =>
    rw [hts] at hl
    cases hl
  | ok ts =>
    rw [hts] at hl
    obtain rfl := Except.ok.inj hl
    obtain ⟨t, ht, rfl⟩ := List.mem_map.1 hx
    exact ⟨ts, rfl, t, ht, rfl⟩

end Candidates

/-- **Only composite types are suggested for a fragment**, at every cursor where its type is
written, if the type that is selected from there is composite or there is none. -/
theorem complete_typeCondition {s : Schema} (hs : s.ImplementsInterfaces) {document : List Char}
    {c : Cursor} (ho : Position.ofChain? (c.locate document).chain.valid = some .typeCondition)
    (hp : ∀ p ∈ (TypeContext.ofLinks s (c.locate document).chain.links).parent,
      p.isComposite = true)
    {ss : List Suggestion} (hss : complete s document c = .ok ss) :
    ∀ x ∈ ss, ∃ t ∈ s.types, t.name = x.text ∧ t.isComposite = true := by
  intro x hx
  obtain ⟨-, cs, hcs, rfl⟩ := (complete_eq_ok_iff rfl ho).1 hss
  have hx := (narrow_sublist _ cs).subset hx
  obtain ⟨ts, hts, t, ht, hname⟩ := Candidates.exists_of_mem_typeConditions hcs hx
  have hof := TypeContext.isOf_ofLinks s (c.locate document).chain.links
  have hmem := Candidates.mem_types_of_mem_conditionTypes
    (fun p hp => Schema.mem_types_of_type? (hof.parent p hp)) hts ht
  exact ⟨t, hmem, hname, Candidates.isComposite_of_mem_conditionTypes hs hp hts ht⟩

/-- In a selection from an interface the objects that implement it are suggested, and the interfaces
that these implement. -/
theorem complete_typeCondition_interface :
    ∃ (s : Schema) (q : List Char) (p : TypeDef) (ss : List Suggestion),
      q = "\x7b hero \x7b ... on ".toList ∧ s.ImplementsInterfaces ∧
      Position.ofChain? (endToken q).chain.valid = some .typeCondition ∧
      (TypeContext.ofLinks s (endToken q).chain.links).parent = some p ∧ p.name = "Character" ∧
      complete s q (Cursor.atEnd q) = .ok ss ∧
      ss.map (·.text) = ["Human", "Droid", "Character"] ∧
      ∀ x ∈ ss, ∃ t ∈ s.types, t.name = x.text ∧ t.isComposite = true := by
  let p : TypeDef := { name := "Character", body := .interface [] [
    { name := "name", type := .named "String" }] }
  let s : Schema := {
    query := some "Query",
    types := [
      { name := "Query", body := .object [] [{ name := "hero", type := .named "Character" }] }, p,
      { name := "Human", body := .object ["Character"] [] },
      { name := "String", body := .scalar },
      { name := "Droid", body := .object ["Character"] [] }] }
  let q : List Char := "\x7b hero \x7b ... on ".toList
  have hs : s.ImplementsInterfaces := by decide +kernel
  have ho : Position.ofChain? (endToken q).chain.valid = some .typeCondition := by decide +kernel
  have hp : (TypeContext.ofLinks s (endToken q).chain.links).parent = some p := by decide +kernel
  have hcomposite : ∀ p ∈ (TypeContext.ofLinks s (endToken q).chain.links).parent,
      p.isComposite = true := by
    rw [hp]
    decide +kernel
  have hss : complete s q (Cursor.atEnd q) =
      .ok (["Human", "Droid", "Character"].map fun n =>
        { text := n, description := some (.string "") }) := by decide +kernel
  exact ⟨s, q, p, _, rfl, hs, ho, hp, rfl, hss, by decide,
    complete_typeCondition hs ho hcomposite hss⟩

/-- In a selection from a scalar the scalar itself is suggested. -/
theorem complete_typeCondition_scalar :
    ∃ (s : Schema) (q : List Char), q = "\x7b n \x7b ... on ".toList ∧ s.ImplementsInterfaces ∧
      Position.ofChain? (endToken q).chain.valid = some .typeCondition ∧
      (complete s q (Cursor.atEnd q)).toOption.map (fun ss => ss.map (·.text)) = some ["Int"] ∧
      ¬∃ t ∈ s.types, t.name = "Int" ∧ t.isComposite = true := by
  let s : Schema := {
    query := some "Query",
    types := [
      { name := "Query", body := .object [] [{ name := "n", type := .named "Int" }] },
      { name := "Int", body := .scalar }] }
  exact ⟨s, _, rfl, by decide +kernel, by decide +kernel, by decide +kernel, by decide +kernel⟩

end QueryAssist
