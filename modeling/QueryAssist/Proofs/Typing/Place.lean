import QueryAssist.Proofs.Typing.Resting

/-! # A name at a place

Where a scan is at rest and something can be suggested, a name that is read next leads to a chain at
which the same can be suggested. Main definitions:

* **`Position.places`** — the constructs and steps at which a scan rests at a position.
* **`Position.Takes`** — whether a position is kept once a name is read.
* **`TypeContext.AgreeAt`** — two contexts that allow the same at a position.
* **`Chain.Keeps`** — a chain that keeps the place of another one.

Main statement: `Chain.keeps_afterName`, a name keeps the place where it is read. -/

namespace QueryAssist

open Grammar

/-! ### Places -/

namespace Position

/-- The constructs and steps at which a scan **rests** at a position. -/
def places : Position → List (RuleKind × Nat)
  | definitionKeyword => [(.document, 0)]
  | field => [(.selectionSet, 1), (.aliasedField, 2), (.field, 1), (.field, 2), (.aliasedField, 3),
      (.aliasedField, 4)]
  | argument => [(.arguments, 1)]
  | objectField => [(.objectValue, 1)]
  | inputValue => [(.listValue, 1), (.objectField, 2), (.argument, 2)]
  | typeCondition => [(.typeCondition, 1)]
  | fragmentSpread => [(.fragmentSpread, 1)]
  | variableType => [(.variableDefinition, 2), (.listType, 1)]
  | directive => [(.directive, 1), (.directive, 2)]

/-- The position at a step of a construct, as far as it does not depend on what is around. -/
def ofPlace? (k : RuleKind) (i : Nat) : Option Position :=
  ofChain? ⟨{ kind := some k, step := i }, []⟩

/-- A position **takes** a name if what can be suggested there can still be suggested once the name
is read. -/
def Takes (n : String) : Position → Prop
  | definitionKeyword => definitionOf? n = none
  | inputValue => n ∉ ["true", "false", "null"]
  | fragmentSpread | directive => False
  | field | argument | objectField | typeCondition | variableType => True

/-- Apart from the name of a type, a chain stands for the position that its construct and step say.
-/
theorem ofChain?_eq_ofPlace? {c : Chain} {k : RuleKind} (hk : c.top.kind = some k)
    (hn : k ≠ .namedType) : ofChain? c = ofPlace? k c.top.step := by
  unfold ofPlace? ofChain?
  rw [hk]
  generalize c.top.step = i
  -- What is around matters for the name of a type only.
  match i with
  | 0 | 1 | 2 | i + 3 => cases k <;> first | rfl | exact absurd rfl hn

end Position

namespace Grammar

/-- Whether a scan can rest at a step of a construct. -/
def restsAt (k : RuleKind) (ss : List Step) (i : Nat) : Bool :=
  (k == .document || (i != 0 && ss[i - 1]?.all fun s => !s.isList)) &&
    !(k == .aliasedField && i == 1)

/-- Every place at which a scan can rest is one of those of its position. -/
theorem mem_places_of_restsAt {k : RuleKind} {ss : List Step} {i : Nat} {o : Position}
    (h : standard k = some (.steps ss)) (hi : i < ss.length) (hr : restsAt k ss i = true)
    (ho : Position.ofPlace? k i = some o) : (k, i) ∈ o.places := by
  have := of_allSteps (p := fun k ss => (List.range ss.length).all fun i =>
    !restsAt k ss i || (Position.ofPlace? k i).all fun o => decide ((k, i) ∈ o.places))
    (by decide) h
  have := List.all_eq_true.1 this i (List.mem_range.2 hi)
  simpa [hr, ho] using this

end Grammar

namespace Chain

variable {c d e : Chain} {n : String} {o : Position}

/-- **Where a scan rests** at a position. -/
theorem IsSettled.mem_places (h : c.IsSettled) (he : c.top.IsEntered) (hc : ¬c.top.AwaitsColon)
    (ho : Position.ofChain? c = some o) :
    ∃ k ss, c.top.IsLive k (.steps ss) ∧ (k, c.top.step) ∈ o.places := by
  obtain ⟨ss, hss⟩ := h.steps
  obtain ⟨k, r, hl⟩ := h.isLive_top
  obtain rfl := Option.some.inj (hl.rule.symm.trans hss)
  have hr : restsAt k ss c.top.step = true := by
    have hcolon : ¬(k = .aliasedField ∧ c.top.step = 1) := fun hk => hc ⟨hk.1 ▸ hl.kind, hk.2⟩
    obtain hk | ⟨ss', i, s, hr, hi, hs, hlist⟩ := he
    · obtain rfl := Option.some.inj (hl.kind.symm.trans hk)
      rfl
    · obtain rfl : ss' = ss := Rule.steps.inj (Option.some.inj (hr.symm.trans hss))
      rw [hi] at hcolon ⊢
      simpa [restsAt, hs, hlist] using Decidable.not_and_iff_or_not.1 hcolon
  have hne : k ≠ .namedType := by
    rintro rfl
    obtain rfl := Rule.steps.inj (Option.some.inj hl.standard)
    have hp : c.top.step < 1 := hl.placed
    obtain h0 : c.top.step = 0 := by omega
    rw [h0] at hr
    cases hr
  rw [Position.ofChain?_eq_ofPlace? hl.kind hne] at ho
  exact ⟨k, ss, hl, mem_places_of_restsAt hl.standard hl.placed hr ho⟩

end Chain

/-! ### What is kept -/

/-- Two contexts **agree** at a position if they allow the same there, as far as they decide it. -/
def TypeContext.AgreeAt (c d : TypeContext) : Position → Prop
  | .field | .typeCondition => c.parent = d.parent
  | .argument => c.arguments = d.arguments
  | .objectField => c.objectFields = d.objectFields
  | .inputValue => c.input = d.input
  | .definitionKeyword | .variableType => True
  | .fragmentSpread | .directive => False

/-- The context of a **named part**, where a name begins a part of a list. -/
def TypeContext.enterNamed (c : TypeContext) (n : String) : Position → TypeContext
  | .argument => c.enterArgument (some n)
  | .objectField => c.enterObjectField (some n)
  | _ => c

/-- Where contexts agree there are the same candidates. -/
theorem candidates_congr (s : Schema) (document document' : List Char) (c c' : Chain)
    {ctx ctx' : TypeContext} {o : Position} (h : ctx.AgreeAt ctx' o) :
    candidates s document c ctx o = candidates s document' c' ctx' o := by
  cases o <;> simp_all [TypeContext.AgreeAt, candidates]

namespace Chain

open TypeContext

variable {b c d e : Chain} {n : String} {o : Position} {k : RuleKind} {ss : List Step}
  {t : Token} {a : List Char}

/-- A chain **keeps the place** of another one at a position if it stands there too, the same is
allowed, and no new fault of the schema shows. -/
structure Keeps (s : Schema) (o : Position) (d e : Chain) : Prop where
  position : Position.ofChain? e.valid = some o
  agree : (ofLinks s d.links).AgreeAt (ofLinks s e.links) o
  fault : (o = .inputValue → ∀ f, s.enumMembers? (ofLinks s d.links).input ≠ some (.faulty f)) →
    (ofLinks s e.links).fault = (ofLinks s d.links).fault

/-- The chain **after a name** with nothing behind it. -/
def afterName (n : String) (c : Chain) : Chain :=
  (Chain.react standard c (.token (.word n)) []).2

/-- It depends on what is settled only. -/
theorem afterName_congr (h : c.settle = d.settle) (n : String) : c.afterName n = d.afterName n :=
  congrArg Prod.snd (react_congr h _ _)

/-- A name that is admitted after some moves. -/
theorem IsSettled.afterName_of_falls (h : d.IsSettled) {x : Terminal}
    (hf : Falls (.word n) [] d b) (ha : Admits (.word n) [] b x) :
    d.afterName n = (b.record x.trace n).defer := by
  have hm := match?_eq_accepted_of_falls hf ha (h.toIsOpen.match?_budget_ne_exhausted _ _)
  rw [afterName, Chain.react, if_neg (by rintro ⟨⟩), h.settle_eq, hm]
  rfl

/-! ### Moves into a construct -/

/-- The construct that the step of a sequence stands for is entered. -/
theorem move_enter {s : Step} {r : Rule} (hl : d.top.IsLive k (.steps ss))
    (hs : ss[d.top.step]? = some s) (hsep : s.separator? = none) {k' : RuleKind}
    (hb : s.body = .rule k') (hr : standard k' = some r) : Move t a d (d.enter k' r) :=
  .enter (by rw [hl.rule]; rfl) (by rw [hl.wanted?_eq hs hsep, hb]) hr

/-- The construct that a fork chooses is entered. -/
theorem move_choice {f : Fork} {k' : RuleKind} {r : Rule} (hc : f.choose t a = some k')
    (hr : standard k' = some r) (d : Chain) (k : RuleKind) :
    Move t a (d.enter k (.fork f)) ((d.enter k (.fork f)).enter k' r) :=
  .enter rfl (by simp [Link.wanted?, Link.expected?, Chain.enter, hc, Step.body]) hr

/-- A construct that begins with a token admits it at first. -/
theorem admits_enter {x : Terminal} (hx : x.accepts t = true) (d : Chain) (k : RuleKind)
    (ss : List Step) : Admits t a (d.enter k (.steps (.terminal x :: ss))) x :=
  ⟨rfl, rfl, hx⟩

/-! ### One place after another -/

/-- A name is a field of a selection set. -/
theorem falls_selectionSet (hl : d.top.IsLive .selectionSet (.steps ss)) (hi : d.top.step = 1)
    (hn : n ≠ "...") : ∃ r, standard .field = some r ∧
      Falls (.word n) [] d ((d.enter .selection (.fork .selection)).enter .field r) ∧
      Admits (.word n) [] ((d.enter .selection (.fork .selection)).enter .field r)
        (.name "property") := by
  obtain rfl := Rule.steps.inj (Option.some.inj hl.standard)
  have hc : Fork.choose .selection (.word n) [] = some .field := by
    have hne : (Token.word n).text ≠ "..." := hn
    rw [Fork.choose, selectionOf_ne_dots hne]
    rfl
  refine ⟨_, rfl, .tail (.single (move_enter hl (by rw [hi]; rfl) rfl rfl rfl))
    (move_choice hc rfl d .selection), admits_enter rfl _ _ _⟩

/-- A name in a selection set begins **a field**, in the context of the selection. -/
theorem keeps_selectionSet (hd : d.IsSettled) (hl : d.top.IsLive .selectionSet (.steps ss))
    (hi : d.top.step = 1) (hn : n ≠ "...") (s : Schema) : Keeps s .field d (d.afterName n) := by
  obtain ⟨r, hr, hf, ha⟩ := falls_selectionSet hl hi hn
  rw [hd.afterName_of_falls hf ha]
  have hctx := parent_enterField s (ofLinks s d.links) (some n)
  exact ⟨rfl, hctx.1.symm, fun _ => hctx.2⟩

/-- A name in an argument list or an object literal begins **a part of it**, and the context is that
of the part. -/
theorem IsSettled.afterName_named (hd : d.IsSettled) (hl : d.top.IsLive k (.steps ss))
    (hplace : (k, d.top.step) ∈ o.places) (ho : o = .argument ∨ o = .objectField) (s : Schema) :
    Position.ofChain? (d.afterName n).valid = some o ∧
      ofLinks s (d.afterName n).links = (ofLinks s d.links).enterNamed n o := by
  obtain rfl | rfl := ho
  all_goals
    obtain ⟨rfl, hi⟩ := Prod.mk.inj (List.mem_singleton.1 hplace)
    obtain rfl := Rule.steps.inj (Option.some.inj hl.standard)
    rw [hd.afterName_of_falls (.single (move_enter hl (by rw [hi]; rfl) rfl rfl rfl))
      (admits_enter rfl _ _ _)]
    exact ⟨rfl, rfl⟩

/-- What is looked up for the parts of the list does not change. -/
theorem keeps_named (hd : d.IsSettled) (hl : d.top.IsLive k (.steps ss))
    (hplace : (k, d.top.step) ∈ o.places) (ho : o = .argument ∨ o = .objectField) (s : Schema) :
    Keeps s o d (d.afterName n) := by
  obtain ⟨hposition, hctx⟩ := hd.afterName_named (n := n) hl hplace ho s
  refine ⟨hposition, ?_, fun _ => ?_⟩
  all_goals
    rw [hctx]
    obtain rfl | rfl := ho <;> rfl

/-- A name other than the three literals is a member of an enum. -/
theorem valueOf?_word (hn : n ∉ ["true", "false", "null"]) :
    valueOf? (.word n) = some .enumValue := by
  simp only [List.mem_cons, List.not_mem_nil, or_false, not_or] at hn
  unfold valueOf?
  simp only [Token.word]
  split
  · exact absurd rfl hn.1
  · exact absurd rfl hn.2.1
  · exact absurd rfl hn.2.2
  · rfl

/-- A member of an enum changes nothing but the member, unless the enum is faulty. -/
theorem enterEnumValue_eq (s : Schema) (ctx : TypeContext) (m : Option String) :
    (ctx.enterEnumValue s m).input = ctx.input ∧
      ((∀ f, s.enumMembers? ctx.input ≠ some (.faulty f)) →
        (ctx.enterEnumValue s m).fault = ctx.fault) := by
  unfold TypeContext.enterEnumValue
  split
  · exact ⟨rfl, fun _ => rfl⟩
  · next f _ hf _ => exact ⟨rfl, fun h => absurd hf (h f)⟩
  · exact ⟨rfl, fun _ => rfl⟩

/-- A name where a literal is wanted is the **member of an enum**. -/
theorem afterName_value (hd : d.IsSettled) (he : d.top.IsEntered) (hc : ¬d.top.AwaitsColon)
    (ho : Position.ofChain? d = some .inputValue) (hn : n ∉ ["true", "false", "null"])
    (s : Schema) : Position.ofChain? (d.afterName n).valid = some .inputValue ∧
      ofLinks s (d.afterName n).links = (ofLinks s d.links).enterEnumValue s (some n) := by
  have hchoose : Fork.choose .value (.word n) [] = some .enumValue := valueOf?_word hn
  obtain ⟨k, ss, hl, hmem⟩ := hd.mem_places he hc ho
  -- At each of the places the next step is a value.
  obtain ⟨x, hs, hsep, hb⟩ : ∃ x : Step, ss[d.top.step]? = some x ∧ x.separator? = none ∧
      x.body = .rule .value := by
    have hss := hl.standard
    generalize d.top.step = i at hmem
    simp only [Position.places, List.mem_cons, Prod.mk.injEq, List.not_mem_nil, or_false] at hmem
    obtain ⟨rfl, rfl⟩ | ⟨rfl, rfl⟩ | ⟨rfl, rfl⟩ := hmem <;>
      obtain rfl := Rule.steps.inj (Option.some.inj hss) <;> exact ⟨_, rfl, rfl, rfl⟩
  rw [hd.afterName_of_falls (.tail (.single (move_enter hl hs hsep hb rfl))
    (move_choice hchoose rfl d .value)) (admits_enter rfl _ _ _)]
  exact ⟨rfl, rfl⟩

/-- It is a literal where one is wanted. -/
theorem keeps_value (hd : d.IsSettled) (he : d.top.IsEntered) (hc : ¬d.top.AwaitsColon)
    (ho : Position.ofChain? d = some .inputValue) (hn : n ∉ ["true", "false", "null"])
    (s : Schema) : Keeps s .inputValue d (d.afterName n) := by
  obtain ⟨ho, hctx⟩ := afterName_value hd he hc ho hn s
  obtain ⟨hi, hf⟩ := enterEnumValue_eq s (ofLinks s d.links) (some n)
  rw [← hctx] at hi hf
  exact ⟨ho, hi.symm, fun h => hf (h rfl)⟩

/-- The type that is written in a construct changes neither what is selected from nor the faults. -/
theorem enter_retype (s : Schema) (k : RuleKind) (l : Link) (x : Option String)
    (owner : Option Link) (ctx : TypeContext) :
    (ctx.enter s k { l with type := x } owner).parent = (ctx.enter s k l owner).parent ∧
      (ctx.enter s k { l with type := x } owner).fault = (ctx.enter s k l owner).fault := by
  cases k with
  | inlineFragment | fragmentDefinition =>
    simp only [TypeContext.enter]
    split <;> split <;> exact ⟨rfl, rfl⟩
  | _ => exact ⟨rfl, rfl⟩

/-- The name of a type changes nothing but the type. -/
theorem enter_namedType (s : Schema) (l : Link) (owner : Option Link) (ctx : TypeContext) :
    (ctx.enter s .namedType l owner).parent = ctx.parent ∧
      (ctx.enter s .namedType l owner).fault = ctx.fault := by
  simp only [TypeContext.enter]
  split <;> exact ⟨rfl, rfl⟩

/-- The type that a link says changes neither what is selected from nor what has gone wrong. -/
theorem ofLinks_retype (s : Schema) (l : Link) (x : Option String) (ls : List Link) :
    (ofLinks s ({ l with type := x } :: ls)).parent = (ofLinks s (l :: ls)).parent ∧
      (ofLinks s ({ l with type := x } :: ls)).fault = (ofLinks s (l :: ls)).fault := by
  obtain hk | ⟨k, hk⟩ := Option.eq_none_or_eq_some l.kind
  · simp only [ofLinks, hk, and_self]
  · have hk' : ({ l with type := x } : Link).kind = some k := hk
    rw [ofLinks_cons hk', ofLinks_cons hk]
    exact enter_retype s k l x ls.head? _

/-- It is the type in a type condition. -/
theorem keeps_typeCondition (hd : d.IsSettled) (hl : d.top.IsLive .typeCondition (.steps ss))
    (hi : d.top.step = 1) (s : Schema) : Keeps s .typeCondition d (d.afterName n) := by
  obtain rfl := Rule.steps.inj (Option.some.inj hl.standard)
  rw [hd.afterName_of_falls (.single (move_enter hl (by rw [hi]; rfl) rfl rfl rfl))
    (admits_enter rfl _ _ _)]
  obtain ⟨top, outer⟩ := d
  have hnest : Nested (top :: outer) := hd.nested
  cases hnest with
  | document hdoc => cases hdoc.kind.symm.trans hl.kind
  | @inside _ q ps =>
    -- The type is written into the construct around the condition, which it leaves as it is.
    have hkind : top.kind = some .typeCondition := hl.kind
    have hlinks : ∀ ls, ofLinks s (top :: ls) = ofLinks s ls := fun ls => ofLinks_cons hkind ls
    have hctx := ofLinks_retype s q (some n) ps
    have hname := fun l => enter_namedType s l (some top)
      (ofLinks s (top :: { q with type := some n } :: ps))
    refine ⟨?_, ?_, fun _ => ?_⟩
    · change Position.ofTypeName? (enclosingKind? (top :: _)) = _
      rw [enclosingKind?, List.dropWhile_cons_of_neg (by simp [hkind, RuleKind.wrapsType])]
      simp [hkind, Position.ofTypeName?]
    · refine ((hname _).1.trans ?_).symm
      rw [links_mk, hlinks, hlinks]
      exact hctx.1
    · refine (hname _).2.trans ?_
      rw [links_mk, hlinks, hlinks]
      exact hctx.2

/-- It is the type of a variable, or of the items of a list. -/
theorem keeps_type {x : Step} (hd : d.IsSettled) (hl : d.top.IsLive k (.steps ss))
    (hs : ss[d.top.step]? = some x) (hsep : x.separator? = none) (hb : x.body = .rule .type)
    (hk : k = .variableDefinition ∨ k = .listType)
    (hn : n ≠ "[") (s : Schema) :
    Keeps s .variableType d (d.afterName n) := by
  have hc : Fork.choose .type (.word n) [] = some .nonNullType := by
    have hne : (Token.word n).text ≠ "[" := hn
    rw [Fork.choose, if_neg (mt beq_iff_eq.1 hne)]
  rw [hd.afterName_of_falls (.tail (.tail (.single (move_enter hl hs hsep hb rfl))
    (move_choice hc rfl d .type)) (.enter rfl rfl rfl)) (admits_enter rfl _ _ _)]
  refine ⟨?_, trivial, fun _ => ?_⟩
  · change Position.ofTypeName? (enclosingKind? (_ :: _ :: d.top :: _)) = _
    have hout : d.top.kind.any RuleKind.wrapsType = false := by
      rw [hl.kind]
      rcases hk with rfl | rfl <;> rfl
    rw [enclosingKind?, List.dropWhile_cons_of_pos rfl, List.dropWhile_cons_of_pos rfl,
      List.dropWhile_cons_of_neg (by rw [hout]; exact Bool.false_ne_true)]
    rcases hk with rfl | rfl <;> simp [hl.kind, Position.ofTypeName?]
  · exact (enter_namedType s _ none (ofLinks s d.links)).2

/-- It is nothing where a definition begins, unless it is a keyword. -/
theorem keeps_document (hd : d.IsSettled) (hl : d.top.IsLive .document (.steps ss))
    (hn : definitionOf? n = none) (s : Schema) :
    Keeps s .definitionKeyword d (d.afterName n) := by
  have ho := hd.toIsOpen
  have hgive : d.giveUp = root := by
    have hstep := hl.currentStep?_document
    rw [show d.giveUp = unwind d.top.next d.outer from
      giveUp_of_isFlexible (by simp [Link.isFlexible, hstep, Step.isFlexible]) (by simp [hstep])]
    exact unwind_next_document ho hl.kind
  have henter : Move (.word n) [] d (d.enter .definition (.fork .definition)) := by
    obtain ⟨hr, hi⟩ := hl.document_step
    obtain rfl := Rule.steps.inj hr
    exact move_enter hl (by rw [hi]; rfl) rfl rfl rfl
  have hleave : Move (.word n) [] (d.enter .definition (.fork .definition)) root := by
    rw [← hgive, ← giveUp_enter (k := .definition) (r := .fork .definition) hl.cell rfl]
    have hw : (d.enter .definition (.fork .definition)).top.wanted? (.word n) [] = none := by
      simp [Link.wanted?, Link.expected?, Chain.enter, Fork.choose, Token.word, hn]
    exact .giveUp rfl (by simp [hw]) (by simp [hw])
  -- The name enters a definition and is given up there, and the document has nothing else for it.
  have hmis : match? standard (.word n) [] d.budget d = .misfit := by
    obtain ⟨m, hm⟩ : ∃ m, d.budget = m + 1 + 1 + 1 := ⟨d.budget - 3, by
      simp only [budget, links, List.length_cons]
      omega⟩
    rw [hm, match?_of_move henter, match?_of_move hleave, match?_root]
  have he : d.afterName n = d.enterInvalid := by
    rw [afterName, Chain.react, if_neg (by rintro ⟨⟩), hd.settle_eq, hmis]
  rw [he]
  have hrest : RestsAt d d.enterInvalid := .inr rfl
  refine ⟨?_, trivial, fun _ => ?_⟩
  · rw [hrest.valid_eq (by simp [hl.kind])]
    simp [Position.ofChain?, hl.kind]
  · rw [context_of_restsAt s hrest]

/-! ### The end of a field -/

/-- A step that may be left out is passed over for a token that does not begin it. -/
theorem falls_next {l : Link} {ps : List Link} {rs ts : List Step} {x : Step} {i : Nat}
    (hl : l.rule = some (.steps rs)) (hp : Plain (l :: ps)) (hd : rs.drop i = x :: ts)
    (ho : isOrderly (x :: ts) = true) (hs : x.isSkippable = true) (ht : t.IsOutside x.openings) :
    Falls t a ⟨l.place i false, ps⟩ (unwind (l.place (i + 1) false) ps) := by
  obtain ⟨hflex, hsep⟩ : x.isFlexible = true ∧ ∀ y sep, x ≠ .separated y sep := by
    cases x with
    | optional | list => exact ⟨rfl, nofun⟩
    | _ => cases hs
  have hgive : giveUp ⟨l.place i false, ps⟩ = unwind (l.place (i + 1) false) ps := by
    refine giveUp_of_isFlexible (isFlexible_place hl hd hflex false) fun y sep hy => ?_
    rw [currentStep?_place hl hd] at hy
    exact absurd (Option.some.inj hy) (hsep y sep)
  have hr : (l.place i false).rule.isNone = false := by simp [Link.place, hl]
  rw [← hgive]
  exact falls_giveUp (c := ⟨l.place i false, ps⟩) hp.head.2 hr (wanted?_place hl hd t a)
    (isOrderly_body ho) (isBare_body ho) (openings_body (isBare_body ho) ▸ ht)

/-- Steps that may be left out are **passed over** for a token that begins none of them. -/
theorem falls_skippable {l : Link} {ps : List Link} {rs ts : List Step} {x : Step} {i : Nat}
    (hl : l.rule = some (.steps rs)) (hp : Plain (l :: ps)) (hd : rs.drop i = x :: ts)
    (ho : isOrderly (x :: ts) = true)
    (hs : ∀ y ∈ x :: ts, y.isSkippable = true ∧ t.IsOutside y.openings) :
    Falls t a ⟨l.place i false, ps⟩ (unwind (l.place rs.length false) ps) := by
  -- The induction is on the steps that are left, each of which is passed over in turn.
  induction ts generalizing i x with
  | nil =>
    obtain ⟨hx, ht⟩ := hs x List.mem_cons_self
    have hlen : rs.length = i + 1 := by
      have := congrArg List.length hd
      rw [List.length_drop] at this
      simp only [List.length_singleton] at this
      omega
    rw [hlen]
    exact falls_next hl hp hd ho hx ht
  | cons y ts ih =>
    obtain ⟨hx, ht⟩ := hs x List.mem_cons_self
    have hd' : rs.drop (i + 1) = y :: ts := by rw [← List.drop_drop, hd]; rfl
    have hf := falls_next (a := a) hl hp hd ho hx ht
    rw [unwind_place hl hd'] at hf
    exact hf.trans (ih hd' (isOrderly_tail ho) fun z hz => hs z (List.mem_cons_of_mem x hz))

/-- Only the braces of a selection set name selections. -/
theorem eq_selectionSet_of_mem_names {k : RuleKind} {r : Rule} (h : standard k = some r)
    (hr : .selection ∈ r.names) : k = .selectionSet := by
  have := of_allRules (p := fun k r => k == .selectionSet || !r.names.contains .selection)
    (by decide) h
  simpa [hr] using this

/-- Around a field is a selection in the braces of a selection set. -/
theorem IsOpen.around_field {l : Link} {ls : List Link} (h : IsOpen ⟨l, ls⟩)
    (hk : l.isField = true) : ∃ (p q : Link) (ps : List Link), ls = p :: q :: ps ∧
      p.IsLive .selection (.fork .selection) ∧ (∃ ss, q.IsLive .selectionSet (.steps ss)) ∧
      q.step = 1 ∧ IsOpen ⟨q, ps⟩ := by
  have hn : Nested (l :: ls) := h.nested
  -- Only a selection names a field, and only a selection set names a selection.
  cases hn with
  | document hl =>
    rcases Link.isField_iff.1 hk with hk | hk <;> cases hl.kind.symm.trans hk
  | @inside _ p ls k r hl hp hs =>
    have hkind : k = .field ∨ k = .aliasedField :=
      (Link.isField_iff.1 hk).imp (fun h => Option.some.inj (hl.kind.symm.trans h))
        fun h => Option.some.inj (hl.kind.symm.trans h)
    obtain ⟨kp, rp, hlp⟩ := hs.isLive_head
    obtain ⟨r', hr', hmem⟩ := hp
    obtain rfl := Option.some.inj (hlp.rule.symm.trans hr')
    obtain rfl := eq_selection_of_mem_names hlp.standard hkind (Rule.mem_names_of_mem_namesAt hmem)
    obtain rfl := Option.some.inj hlp.standard
    cases hs with
    | document hl' => cases hl'.kind.symm.trans hlp.kind
    | @inside _ q ps k' r' hl' hq hs' =>
      obtain rfl := Option.some.inj (hl'.kind.symm.trans hlp.kind)
      obtain ⟨kq, rq, hlq⟩ := hs'.isLive_head
      obtain ⟨rq', hrq, hmem⟩ := hq
      obtain rfl := Option.some.inj (hlq.rule.symm.trans hrq)
      obtain rfl := eq_selectionSet_of_mem_names hlq.standard (Rule.mem_names_of_mem_namesAt hmem)
      obtain rfl := Option.some.inj hlq.standard
      refine ⟨p, q, ps, rfl, hlp, ⟨_, hlq⟩, ?_, hs', fun l hl => ?_⟩
      · have hplace : q.step < 3 := hlq.placed
        generalize q.step = i at hmem hplace
        match i, hmem with
        | 1, _ => rfl
        | 0, hmem | 2, hmem => cases hmem
      · exact h.idle l (List.mem_cons_of_mem _ (List.mem_cons_of_mem _ hl))

/-- A name begins nothing that comes after the name of a field. -/
theorem isOutside_fieldTail (n : String) :
    ∀ y ∈ fieldTail, y.isSkippable = true ∧ (Token.word n).IsOutside y.openings := by
  have hall : ∀ y ∈ fieldTail, y.isSkippable = true ∧
      Matcher.areApart [.kind .name] y.openings = true := by decide
  intro y hy
  obtain ⟨hs, ha⟩ := hall y hy
  exact ⟨hs, Token.isOutside_of_areApart ha List.mem_cons_self rfl⟩

/-- Once its field is complete a selection is left for the braces around it. -/
theorem unwind_selection {l p q : Link} {ps : List Link} (hl : l.isComplete = true)
    (hp : Plain (l :: p :: q :: ps)) (hs : p.IsLive .selection (.fork .selection))
    (hq : q.IsLive .selectionSet (.steps ss)) (hi : q.step = 1) :
    unwind l (p :: q :: ps) = ⟨q, ps⟩ := by
  have hpc : p.resume.isComplete = true := by
    obtain h | ⟨ts, ht, -⟩ := hs.resume
    · exact h
    · cases ht
  have hqr : q.resume = q := by
    obtain rfl := Rule.steps.inj (Option.some.inj hq.standard)
    have hcur : q.currentStep? = some (.list (.rule .selection)) := by
      rw [Link.currentStep?_eq_of_rule hq.rule, hi]
      rfl
    rw [Link.resume, hq.rule, hcur]
    rfl
  rw [unwind_cons hl hp.head.1 hp.tail, unwind_cons hpc ?_ hp.tail.tail, hqr,
    unwind_eq_self hq.isComplete_eq_false]
  rw [Link.needsAdvance_resume]
  exact hp.tail.head.1

/-- From what comes after the name of a field a name **falls back** to the selection set. -/
theorem falls_field (hd : d.IsSettled) (hl : d.top.IsLive k (.steps ss))
    (hk : d.top.isField = true) (htail : ss.drop d.top.step <:+ fieldTail) (n : String) :
    ∃ (p q : Link) (ps : List Link), d.outer = p :: q :: ps ∧
      p.IsLive .selection (.fork .selection) ∧ (∃ ss, q.IsLive .selectionSet (.steps ss)) ∧
      q.step = 1 ∧ IsSettled ⟨q, ps⟩ ∧ Falls (.word n) [] d ⟨q, ps⟩ := by
  obtain ⟨top, outer⟩ := d
  obtain ⟨p, q, ps, rfl, hp, ⟨qs, hq⟩, hi, ho⟩ := hd.toIsOpen.around_field hk
  have hplain : Plain (top :: p :: q :: ps) := hd.toIsOpen.plain
  obtain ⟨x, ts, hdrop⟩ : ∃ x ts, ss.drop top.step = x :: ts :=
    ⟨_, _, List.drop_eq_getElem_cons hl.placed⟩
  have hrule : top.rule = some (.steps ss) := hl.rule
  -- All that may follow the name of a field can be skipped, and none of it begins with a name.
  have hout : ∀ y ∈ x :: ts, y.isSkippable = true ∧ (Token.word n).IsOutside y.openings :=
    fun y hy => isOutside_fieldTail n y (htail.subset (hdrop ▸ hy))
  have hself : top.place top.step false = top := by
    have hx : ss[top.step]? = some x := List.head?_drop.symm.trans (congrArg List.head? hdrop)
    have hsep : x.separator? = none := by
      have := (hout x List.mem_cons_self).1
      cases x <;> first | rfl | cases this
    rw [Link.place, ← hl.needsSeparator_eq_false hx hsep]
  have hf := falls_skippable (a := []) hrule hplain hdrop
    (hdrop ▸ isOrderly_drop (isOrderly_of_standard hl.standard) _) hout
  have hcomp : (top.place ss.length false).isComplete = true := by
    rw [Link.isComplete, show (top.place ss.length false).rule = _ from hrule]
    exact decide_eq_true (Nat.le_refl _)
  have hplain' : Plain (top.place ss.length false :: p :: q :: ps) :=
    List.forall_mem_cons.2 ⟨hplain.head, hplain.tail⟩
  rw [hself, unwind_selection hcomp hplain' hp hq hi] at hf
  exact ⟨p, q, ps, rfl, hp, ⟨qs, hq⟩, hi, ⟨ho, qs, hq.rule⟩, hf⟩

/-- What a field is selected from is what is selected from in the braces around it. -/
theorem context_field (s : Schema) {l p q : Link} {ps : List Link} (hl : l.isField = true)
    (hp : p.kind = some .selection) :
    (ofLinks s (l :: p :: q :: ps)).parent = (ofLinks s (q :: ps)).parent ∧
      (ofLinks s (l :: p :: q :: ps)).fault = (ofLinks s (q :: ps)).fault := by
  have hsel : ofLinks s (p :: q :: ps) = ofLinks s (q :: ps) := ofLinks_cons hp (q :: ps)
  rw [← hsel]
  exact context_of_isField s hl (p :: q :: ps)

/-- A name after the name of a field is the next field. -/
theorem keeps_field (hd : d.IsSettled) (hl : d.top.IsLive k (.steps ss))
    (hk : d.top.isField = true) (htail : ss.drop d.top.step <:+ fieldTail) (hn : n ≠ "...")
    (s : Schema) : Keeps s .field d (d.afterName n) := by
  obtain ⟨p, q, ps, hout, hp, ⟨qs, hq⟩, hi, -, hf⟩ := falls_field hd hl hk htail n
  obtain ⟨r, hr, hf', ha⟩ := falls_selectionSet (d := ⟨q, ps⟩) hq hi hn
  rw [hd.afterName_of_falls (hf.trans hf') ha]
  obtain ⟨hpar, hfault⟩ := parent_enterField s (ofLinks s (q :: ps)) (some n)
  obtain ⟨hpar', hfault'⟩ := context_field s hk hp.kind (q := q)
  rw [← hout] at hpar' hfault'
  exact ⟨rfl, hpar'.trans hpar.symm, fun _ => hfault.trans hfault'.symm⟩

/-- A name after an alias and its colon is that of the field. -/
theorem keeps_aliasedField (hd : d.IsSettled) (hl : d.top.IsLive .aliasedField (.steps ss))
    (hi : d.top.step = 2) (s : Schema) : Keeps s .field d (d.afterName n) := by
  obtain rfl := Rule.steps.inj (Option.some.inj hl.standard)
  have ha : Admits (.word n) [] d (.name "qualifier") :=
    ⟨by rw [hl.rule]; rfl, by rw [hl.wanted?_eq (by rw [hi]; rfl) rfl]; rfl, rfl⟩
  rw [hd.afterName_of_falls .refl ha]
  generalize he : (d.record (Terminal.name "qualifier").trace n).defer = e
  have hfield : d.top.isField = true := Link.isField_iff.2 (.inr hl.kind)
  have hfield' : e.top.isField = true := he ▸ hfield
  have hout : ofLinks s e.outer = ofLinks s d.outer := he ▸ rfl
  obtain ⟨hpar, hfault⟩ := context_of_isField s hfield d.outer
  obtain ⟨hpar', hfault'⟩ := context_of_isField s hfield' e.outer
  rw [hout] at hpar' hfault'
  refine ⟨?_, hpar.trans hpar'.symm, fun _ => hfault'.trans hfault.symm⟩
  rw [valid, if_neg (kind_ne_invalid hfield')]
  exact position_of_isField hfield'

/-! ### All places -/

/-- A field can be suggested in a selection set, after an alias, and after the name of a field as
long as the next selection can follow. -/
theorem IsSettled.field_cases (hd : d.IsSettled) (he : d.top.IsEntered)
    (hc : ¬d.top.AwaitsColon) (ho : Position.ofChain? d = some .field) :
    ∃ k ss, d.top.IsLive k (.steps ss) ∧
      ((k = .selectionSet ∧ d.top.step = 1) ∨ (k = .aliasedField ∧ d.top.step = 2) ∨
        (d.top.isField = true ∧ ss.drop d.top.step <:+ fieldTail)) := by
  obtain ⟨k, ss, hl, hmem⟩ := hd.mem_places he hc ho
  have hss := hl.standard
  have hsuffix : ∀ j, fieldTail.drop j <:+ fieldTail := fun j => List.drop_suffix j fieldTail
  refine ⟨k, ss, hl, ?_⟩
  generalize d.top.step = i at hmem ⊢
  simp only [Position.places, List.mem_cons, Prod.mk.injEq, List.not_mem_nil, or_false] at hmem
  obtain ⟨rfl, rfl⟩ | ⟨rfl, rfl⟩ | ⟨rfl, rfl⟩ | ⟨rfl, rfl⟩ | ⟨rfl, rfl⟩ | ⟨rfl, rfl⟩ := hmem <;>
    obtain rfl := Rule.steps.inj (Option.some.inj hss)
  · exact .inl ⟨rfl, rfl⟩
  · exact .inr (.inl ⟨rfl, rfl⟩)
  · exact .inr (.inr ⟨Link.isField_iff.2 (.inl hl.kind), hsuffix 0⟩)
  · exact .inr (.inr ⟨Link.isField_iff.2 (.inl hl.kind), hsuffix 1⟩)
  · exact .inr (.inr ⟨Link.isField_iff.2 (.inr hl.kind), hsuffix 0⟩)
  · exact .inr (.inr ⟨Link.isField_iff.2 (.inr hl.kind), hsuffix 1⟩)

/-- **A name keeps the place** where it is read, if the position there takes it. -/
theorem keeps_afterName (hd : d.IsSettled) (he : d.top.IsEntered) (hc : ¬d.top.AwaitsColon)
    (ho : Position.ofChain? d = some o) (hname : IsName n.toList) (hn : o.Takes n) (s : Schema) :
    Keeps s o d (d.afterName n) := by
  have hdots : n ≠ "..." := hname.ne (by decide)
  have hbracket : n ≠ "[" := hname.ne (by decide)
  obtain ⟨k, ss, hl, hmem⟩ := hd.mem_places he hc ho
  have hss := hl.standard
  generalize hi : d.top.step = i at hmem
  -- Each position has its own places, and its own lemma.
  cases o with
  | definitionKeyword =>
    obtain ⟨rfl, -⟩ := Prod.mk.inj (List.mem_singleton.1 hmem)
    exact keeps_document hd hl hn s
  | field =>
    obtain ⟨k, ss, hl, ⟨rfl, hi⟩ | ⟨rfl, hi⟩ | ⟨hk, htail⟩⟩ := hd.field_cases he hc ho
    · exact keeps_selectionSet hd hl hi hdots s
    · exact keeps_aliasedField hd hl hi s
    · exact keeps_field hd hl hk htail hdots s
  | argument => exact keeps_named hd hl (hi ▸ hmem) (.inl rfl) s
  | objectField => exact keeps_named hd hl (hi ▸ hmem) (.inr rfl) s
  | inputValue => exact keeps_value hd he hc ho hn s
  | typeCondition =>
    obtain ⟨rfl, rfl⟩ := Prod.mk.inj (List.mem_singleton.1 hmem)
    exact keeps_typeCondition hd hl hi s
  | variableType =>
    simp only [Position.places, List.mem_cons, Prod.mk.injEq, List.not_mem_nil, or_false] at hmem
    obtain ⟨rfl, rfl⟩ | ⟨rfl, rfl⟩ := hmem <;>
      obtain rfl := Rule.steps.inj (Option.some.inj hss)
    · exact keeps_type hd hl (by rw [hi]; rfl) rfl rfl (.inl rfl) hbracket s
    · exact keeps_type hd hl (by rw [hi]; rfl) rfl rfl (.inr rfl) hbracket s
  | fragmentSpread | directive => exact hn.elim

end Chain

end QueryAssist
