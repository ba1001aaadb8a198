import QueryAssist.Proofs.Typing.Offer

/-! # Where the types of variables are suggested

Types are written for variables, and in the schema language for fields, arguments and input fields.
They are suggested where a variable is declared, and nowhere else but inside the brackets of a list
in the schema language. Main definitions:

* **`RuleKind.givesTypeAt`** — the steps at which the schema language gives a type.
* **`Chain.IsListed`** — whether a list is open in the schema language.

Main statement: `complete_variableType`, the two places at every cursor of a document without such a
list. -/

namespace QueryAssist

open Grammar

/-- Whether a construct of the schema language **gives a type** at a step: to a field, or to an
argument or a field of an input object. -/
def RuleKind.givesTypeAt : RuleKind → Nat → Bool
  | .fieldDef, 3 | .inputValueDef, 2 => true
  | _, _ => false

/-- The constructs that stand for a type or a part of it. -/
def RuleKind.writesType : RuleKind → Bool
  | .type | .nonNullType | .listType => true
  | _ => false

/-- Whether a link gives a type in the schema language. -/
def Link.givesType (l : Link) : Bool := l.kind.any (·.givesTypeAt l.step)

/-- Whether the brackets of a **list** are open in a type that the schema language gives. -/
def Chain.IsListed (c : Chain) : Prop :=
  (∃ l ∈ c.links, l.kind = some .listType) ∧ ∃ l ∈ c.links, l.givesType = true

/-! ### Around a type -/

/-- The construct around a type is one of the links. -/
theorem exists_of_enclosingKind? {ls : List Link} {k : RuleKind} (h : enclosingKind? ls = some k) :
    ∃ l ∈ ls, l.kind = some k := by
  obtain ⟨l, hl, hk⟩ := Option.bind_eq_some_iff.1 h
  exact ⟨l, List.dropWhile_subset _ (List.mem_of_head? hl), hk⟩

/-- Where types of variables are suggested there is a variable or a list around. -/
theorem exists_of_variableType {c : Chain} (h : Position.ofChain? c = some .variableType) :
    ∃ l ∈ c.links, l.kind = some .variableDefinition ∨ l.kind = some .listType := by
  by_cases hk : c.top.kind = some .namedType
  · simp only [Position.ofChain?, hk] at h
    have hmem : ∀ l ∈ c.outer, l ∈ c.links := fun l hl => List.mem_cons_of_mem _ hl
    unfold Position.ofTypeName? at h
    split at h
    · cases h
    · next he =>
      obtain ⟨l, hl, hk⟩ := exists_of_enclosingKind? he
      exact ⟨l, hmem l hl, .inl hk⟩
    · next he =>
      obtain ⟨l, hl, hk⟩ := exists_of_enclosingKind? he
      exact ⟨l, hmem l hl, .inr hk⟩
    · cases h
  · refine ⟨c.top, List.mem_cons_self, ?_⟩
    unfold Position.ofChain? at h
    split at h <;> simp_all

/-- Around a type is a variable or what the schema language gives the type to. -/
theorem Nested.exists_declaration {ls : List Link} (h : Nested ls) {l : Link} (hl : l ∈ ls)
    (hk : l.kind.any RuleKind.writesType = true) :
    (∃ m ∈ ls, m.kind = some .variableDefinition) ∨ ∃ m ∈ ls, m.givesType = true := by
  obtain ⟨m, hm, hq⟩ := h.exists_place_around (p := RuleKind.writesType)
    (q := fun k i => k == .variableDefinition || k.givesTypeAt i) (by decide) hl hk
  obtain ⟨k, hk, hq⟩ := (Option.any_eq_true _ _).1 hq
  obtain hq | hq := Bool.or_eq_true_iff.1 hq
  · exact .inl ⟨m, hm, hk.trans (congrArg some (beq_iff_eq.1 hq))⟩
  · exact .inr ⟨m, hm, by rw [Link.givesType, hk]; exact hq⟩

/-- **Types are suggested for variables**, or in a list of the schema language. -/
theorem Chain.IsPlaced.variableType_cases {c : Chain} (h : c.IsPlaced)
    (ho : Position.ofChain? c = some .variableType) :
    (∃ l ∈ c.links, l.kind = some .variableDefinition) ∨ c.IsListed := by
  obtain ⟨l, hl, hk | hk⟩ := exists_of_variableType ho
  · exact .inl ⟨l, hl, hk⟩
  · refine (h.nested.exists_declaration hl (by rw [hk]; rfl)).imp_right fun hm => ?_
    exact ⟨⟨l, hl, hk⟩, hm⟩

/-! ### Inside a type -/

/-- Whether a link gives a type, or is a part of one that is **given right around it**. -/
def Link.IsGiven (l : Link) (outer : List Link) : Prop :=
  l.givesType = true ∨
    (l.kind = some .namedType ∨ l.kind.any RuleKind.wrapsType = true) ∧
      (enclosingKind? outer = some .fieldDef ∨ enclosingKind? outer = some .inputValueDef)

/-- What is named where a type is given, and by the parts of a type. -/
theorem Grammar.eq_of_mem_namers {k : RuleKind} {x : RuleKind × Nat} (h : x ∈ namers k) :
    (x.1.givesTypeAt x.2 = true → k = .type) ∧
      (x.1 = .type → k = .nonNullType ∨ k = .listType) ∧
      (x.1 = .nonNullType → k = .namedType) ∧ x.1 ≠ .namedType := by
  have hall : ∀ k ∈ RuleKind.all, ∀ x ∈ namers k, (x.1.givesTypeAt x.2 = true → k = .type) ∧
      (x.1 = .type → k = .nonNullType ∨ k = .listType) ∧
      (x.1 = .nonNullType → k = .namedType) ∧ x.1 ≠ .namedType := by decide +kernel
  exact hall k (RuleKind.mem_all k) x h

/-- A link that gives a type is what encloses the parts of the type. -/
theorem enclosingKind?_of_givesType {l : Link} (h : l.givesType = true) (ls : List Link) :
    enclosingKind? (l :: ls) = some .fieldDef ∨ enclosingKind? (l :: ls) = some .inputValueDef := by
  obtain ⟨k, hk, hg⟩ := (Option.any_eq_true _ _).1 h
  have hkinds : k = .fieldDef ∨ k = .inputValueDef := by
    unfold RuleKind.givesTypeAt at hg
    split at hg <;> simp_all
  rcases hkinds with rfl | rfl <;>
    simp [enclosingKind?, hk, RuleKind.wrapsType]

/-- The links that choose how a type is written are looked through. -/
theorem enclosingKind?_of_wrapsType {l : Link} (h : l.kind.any RuleKind.wrapsType = true)
    (ls : List Link) : enclosingKind? (l :: ls) = enclosingKind? ls := by
  have hdrop := List.dropWhile_cons_of_pos (p := fun l : Link => l.kind.any RuleKind.wrapsType)
    (l := ls) h
  exact congrArg (fun ls : List Link => ls.head?.bind (·.kind)) hdrop

/-- Inside a type that the schema language gives, and that has no open list, are only its **parts**. -/
theorem Nested.isGiven {l : Link} {ls : List Link} (h : Nested (l :: ls))
    (hg : ∃ m ∈ l :: ls, m.givesType = true) (hn : ∀ m ∈ l :: ls, m.kind ≠ some .listType) :
    l.IsGiven ls := by
  generalize he : l :: ls = ms at h
  induction h generalizing l ls with
  | document hd =>
    obtain ⟨rfl, rfl⟩ := List.cons.inj he
    obtain ⟨m, hm, hg⟩ := hg
    rcases List.mem_cons.1 hm with rfl | hm
    · exact .inl hg
    · obtain rfl := List.mem_singleton.1 hm
      cases hg
  | @inside t o os k r ht ho hs ih =>
    obtain ⟨rfl, rfl⟩ := List.cons.inj he
    obtain ⟨m, hm, hg⟩ := hg
    rcases List.mem_cons.1 hm with rfl | hm
    · exact .inl hg
    obtain ⟨k', r', ho'⟩ := hs.isLive_head
    have hnames := eq_of_mem_namers (ho'.mem_namers ho)
    have hlist : k ≠ .listType := fun hk => hn l List.mem_cons_self (hk ▸ ht.kind)
    -- The link around it gives the type, or is a part of it that names another part.
    rcases ih ⟨m, hm, hg⟩ (fun m hm => hn m (List.mem_cons_of_mem _ hm)) rfl with hgive | ⟨hk, he⟩
    · have hat : k'.givesTypeAt o.step = true := by simpa [Link.givesType, ho'.kind] using hgive
      obtain rfl := hnames.1 hat
      exact .inr ⟨.inr (by rw [ht.kind]; rfl), enclosingKind?_of_givesType hgive os⟩
    · rw [ho'.kind] at hk
      obtain hk | hk := hk
      · exact absurd (Option.some.inj hk) hnames.2.2.2
      · refine .inr ⟨?_, by rwa [enclosingKind?_of_wrapsType (by rw [ho'.kind]; exact hk)]⟩
        rw [ht.kind]
        cases k' with
        | type =>
          obtain rfl := (hnames.2.1 rfl).resolve_right hlist
          exact .inr rfl
        | nonNullType => exact .inl (congrArg some (hnames.2.2.1 rfl))
        | _ => cases hk

/-- Nothing is suggested at a given type or a part of one. -/
theorem Link.IsGiven.ofChain? {l : Link} {ls : List Link} (h : l.IsGiven ls) :
    Position.ofChain? ⟨l, ls⟩ = none := by
  obtain hg | ⟨hk | hk, he⟩ := h
  · obtain ⟨k, hk, hg⟩ := (Option.any_eq_true _ _).1 hg
    unfold RuleKind.givesTypeAt at hg
    split at hg
    · next hi => simp [Position.ofChain?, hk, hi]
    · next hi => simp [Position.ofChain?, hk, hi]
    · cases hg
  · rcases he with he | he <;> simp [Position.ofChain?, hk, he, Position.ofTypeName?]
  · obtain ⟨k, hk, hw⟩ := (Option.any_eq_true _ _).1 hk
    cases k with
    | type | nonNullType => simp [Position.ofChain?, hk]
    | _ => cases hw

/-! ### At a cursor -/

/-- Outside comments the chain without an invalid token is **placed**. -/
theorem Chain.IsRegular.isPlaced_valid {c : Chain} (h : c.IsRegular)
    (hc : c.top.kind ≠ some .comment) : c.valid.IsPlaced := by
  cases h with
  | inside h => rwa [h.valid_eq]
  | @outside d k h ha hk =>
    obtain rfl | rfl := hk
    · exact h
    · exact absurd rfl hc

/-- **Where types are suggested.** Unless the brackets of a list are open in the schema language,
the types for variables are suggested inside the declaration of a variable only, and nothing at all
is suggested in a type that the schema language gives. -/
theorem complete_variableType (document : List Char) (c : Cursor)
    (hl : ¬(c.locate document).chain.valid.IsListed) :
    (Position.ofChain? (c.locate document).chain.valid = some .variableType →
      ∃ l ∈ (c.locate document).chain.valid.links, l.kind = some .variableDefinition) ∧
    ((∃ l ∈ (c.locate document).chain.valid.links, l.givesType = true) →
      ∀ s, complete s document c = .ok []) := by
  have hregular := c.isRegular_locate document
  have hnothing : Position.ofChain? (c.locate document).chain.valid = none →
      ∀ s, complete s document c = .ok [] := by
    intro ho s
    rw [complete_eq_offers, Chain.offers_of_position_none ho]
    exact congrArg Except.ok (narrow_nil _)
  by_cases hc : (c.locate document).chain.top.kind = some .comment
  · -- Nothing is suggested in a comment.
    have ho : Position.ofChain? (c.locate document).chain.valid = none := by
      rw [Chain.valid, if_neg (by simp [hc]), Position.ofChain?, hc]
    exact ⟨fun h => by simp [ho] at h, fun _ => hnothing ho⟩
  have hp := hregular.isPlaced_valid hc
  refine ⟨fun ho => (hp.variableType_cases ho).resolve_right hl, fun hg => hnothing ?_⟩
  exact (hp.nested.isGiven hg fun m hm hk => hl ⟨⟨m, hm, hk⟩, hg⟩).ofChain?

/-- In the list of a variable the input types are suggested, and behind the colon of a field in the
schema language nothing is. -/
theorem complete_variableType_list :
    ∃ (s : Schema) (q p : List Char), q = "query ($ids: [".toList ∧ p = "type A \x7b f: ".toList ∧
      ¬(endToken q).chain.valid.IsListed ∧ ¬(endToken p).chain.valid.IsListed ∧
      Position.ofChain? (endToken q).chain.valid = some .variableType ∧
      (∃ l ∈ (endToken q).chain.valid.links, l.kind = some .variableDefinition) ∧
      (complete s q (Cursor.atEnd q)).toOption.map (fun ss => ss.map (·.text)) = some ["ID"] ∧
      (∃ l ∈ (endToken p).chain.valid.links, l.givesType = true) ∧
      complete s p (Cursor.atEnd p) = .ok [] := by
  let s : Schema := {
    query := some "Query",
    types := [
      { name := "Query", body := .object [] [{ name := "id", type := .named "ID" }] },
      { name := "ID", body := .scalar }] }
  have hq : ¬(endToken "query ($ids: [".toList).chain.valid.IsListed := by
    unfold Chain.IsListed
    decide +kernel
  have hp : ¬(endToken "type A \x7b f: ".toList).chain.valid.IsListed := by
    unfold Chain.IsListed
    decide +kernel
  have ho : Position.ofChain? (endToken "query ($ids: [".toList).chain.valid =
      some .variableType := by decide +kernel
  have hg : ∃ l ∈ (endToken "type A \x7b f: ".toList).chain.valid.links, l.givesType = true := by
    decide +kernel
  exact ⟨s, _, _, rfl, rfl, hq, hp, ho, (complete_variableType _ _ hq).1 ho, by decide +kernel, hg,
    (complete_variableType _ _ hp).2 hg s⟩

/-- In a list of the schema language the types for variables are suggested, although no variable is
declared there. -/
theorem complete_schema_list :
    ∃ (s : Schema) (q : List Char), q = "type A \x7b f: [".toList ∧
      Position.ofChain? (endToken q).chain.valid = some .variableType ∧
      (¬∃ l ∈ (endToken q).chain.valid.links, l.kind = some .variableDefinition) ∧
      (∃ l ∈ (endToken q).chain.valid.links, l.givesType = true) ∧
      (complete s q (Cursor.atEnd q)).toOption.map (fun ss => ss.map (·.text)) = some ["ID"] := by
  let s : Schema := {
    query := some "Query",
    types := [
      { name := "Query", body := .object [] [{ name := "id", type := .named "ID" }] },
      { name := "ID", body := .scalar }] }
  exact ⟨s, _, rfl, by decide +kernel, by decide +kernel, by decide +kernel, by decide +kernel⟩

end QueryAssist
