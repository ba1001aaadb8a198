import QueryAssist.Proofs.Open.Unaliased
import QueryAssist.Proofs.Open.Input

/-! # Contexts without aliases

All that the type context of an open selection set, of open arguments and of an open literal knows
comes from the heads around it and from the names on the way in. A field with an alias is looked up
again for its arguments, which makes no difference where the type around it is the one that its
parent was found from. Main definitions:

* **`TypeContext.insideHead`**, **`Schema.contextIn`** — the context inside heads, by these alone.
* **`TypeContext.intoLiteral`** — the context some steps into a literal.
* **`LeadsTo`** — what a document leads to, whatever comes after it.

Main statement: `complete_dropAliases`, without its aliases a document has the same context and the
same suggestions at its end. -/

namespace QueryAssist

open Grammar Chain Step Terminal TypeContext

/-! ### Contexts of heads -/

/-- The context **inside a head**, from the one around it. -/
def TypeContext.insideHead (s : Schema) (ctx : TypeContext) : Head → TypeContext
  | .query => { ctx with type := s.query.bind s.ref? }
  | .mutation => { ctx with type := s.mutation.bind s.ref? }
  | .subscription => { ctx with type := s.subscription.bind s.ref? }
  | .fragment t | .inline (some t) => { ctx with type := s.ref? t }
  | .field n => ctx.enterField s (some n)
  | .inline none | .spread => ctx

/-- The context inside the selection set of a head. -/
def TypeContext.selectIn (s : Schema) (ctx : TypeContext) (h : Head) : TypeContext :=
  { ctx.insideHead s h with parent := s.baseType? (ctx.insideHead s h).type }

/-- The context in the selection sets of some heads, each in the one before. -/
def Schema.contextIn (s : Schema) (hs : List Head) : TypeContext :=
  hs.foldl (TypeContext.selectIn s) {}

/-- A selection set in others selects from what those select. -/
theorem Schema.contextIn_concat (s : Schema) (hs : List Head) (h : Head) :
    s.contextIn (hs ++ [h]) = (s.contextIn hs).selectIn s h := by
  simp [contextIn]

/-- The context at the arguments of a field that is selected in some heads. -/
def Schema.contextAt (s : Schema) (hs : List Head) (n : String) : TypeContext :=
  let ctx := (s.contextIn hs).enterField s (some n)
  { ctx with arguments := ctx.field.map (·.args) }

/-- The context at the arguments of a directive of a head. -/
def Schema.contextOf (s : Schema) (hs : List Head) (h : Head) (n : String) : TypeContext :=
  { (s.contextIn hs).insideHead s h with
    directive := s.directive? n, arguments := (s.directive? n).map (·.args) }

/-- The context after a step into a literal. -/
def TypeContext.intoStep (s : Schema) (ctx : TypeContext) : LiteralStep → TypeContext
  | .item => { ctx with input := ctx.input.bind TypeRef.item? }
  | .field n => { ctx with objectFields := s.inputFields? ctx.input }.enterObjectField (some n)

/-- The context **some steps into a literal** of an argument. Where a field of an object is next its
fields are known. -/
def TypeContext.intoLiteral (s : Schema) (ctx : TypeContext) (a : String) (spot : LiteralSpot)
    (p : List LiteralStep) : TypeContext :=
  let inner := p.foldl (TypeContext.intoStep s) (ctx.enterArgument (some a))
  if spot = .member then { inner with objectFields := s.inputFields? inner.input } else inner

/-! ### Contexts of chains -/

namespace Chain

variable {s : Schema} {b c d : Chain} {hs : List Head} {h : Head} {k : RuleKind} {i j : Nat}
  {n t : Option String} {a : String} {spot : LiteralSpot} {p : List LiteralStep}

/-- The construct of a head has the context inside the head. -/
theorem enter_builds (hb : h.Builds k i n t) (ctx : TypeContext) (owner : Option Link) :
    ctx.enter s k (.opened k j n t) owner = ctx.insideHead s h := by
  cases hb with
  | fragment _ ht | inlineOn _ ht =>
    simp only [TypeContext.enter, Link.opened, written?_some ht]
    rfl
  | field hk => cases hk with
    | _ => rfl
  | _ => rfl

/-- A chain that selects in some heads has their context. -/
theorem SelectsIn.ofLinks_eq (hc : c.SelectsIn hs) : ofLinks s c.links = s.contextIn hs := by
  induction hc with
  | shorthand => rfl
  | definition hd hb =>
    rw [ofLinks_inside, ofLinks_inside, ofLinks_definitionChain, enter_builds hb]
    rfl
  | selection hc hd hb ih =>
    rw [ofLinks_inside, ofLinks_inside, ofLinks_inSelection, enter_builds hb, ih,
      Schema.contextIn_concat]
    rfl

/-- So has one at the directives of a head. -/
theorem HostsIn.ofLinks_eq (hd : d.HostsIn hs h) :
    ofLinks s d.links = (s.contextIn hs).insideHead s h := by
  cases hd with
  | definition _ hb =>
    rw [ofLinks_inside, ofLinks_definitionChain, enter_builds hb]
    rfl
  | selection hc _ hb => rw [ofLinks_inside, ofLinks_inSelection, enter_builds hb, hc.ofLinks_eq]

/-- At the arguments of a field the context is that of the field, **with or without an alias**. -/
theorem AtArguments.ofLinks_eq {m : String} (hc : c.AtArguments (.field hs m)) :
    ofLinks s c.links = s.contextAt hs m := by
  have hargs := (hc.context s).1
  cases hc with
  | @field hs c k i m hc hk hn =>
    have hctx := hc.context s
    rw [hc.ofLinks_eq] at hctx
    rw [ofLinks_inside, ofLinks_inside, ofLinks_inSelection, hc.ofLinks_eq] at hargs ⊢
    have henter : (s.contextIn hs).enter s k (.opened k i (some m) none) (some c.inSelection.top) =
        (s.contextIn hs).enterField s (some m) := by
      cases hk with
      | _ => rfl
    rw [henter] at hargs ⊢
    have hfield : Schema.argumentsOf? s (.field hs m) =
        ((s.contextIn hs).enterField s (some m)).field.map (·.args) := by
      rw [(hctx.enterField hn).1]
      rfl
    rw [hfield] at hargs
    simp only [TypeContext.enter] at hargs ⊢
    rw [hargs]
    rfl

/-- Some steps into a literal the context only depends on the one at the arguments. -/
theorem IsInto.ofLinks_eq (h : b.IsInto a spot p c) :
    ofLinks s c.links = (ofLinks s b.links).intoLiteral s a spot p := by
  induction h with
  | argument => rfl
  | list _ hs ih | object _ hs ih =>
    rw [ofLinks_inside, ofLinks_inside, ih]
    simp only [intoLiteral, if_neg hs, List.foldl_append]
    rfl
  | field _ hn ih =>
    rw [ofLinks_inside, ih]
    simp only [intoLiteral, if_true, List.foldl_append]
    rfl

end Chain

/-! ### What documents lead to -/

/-- A document **leads to** chains with a property and a given context if it is read up to one,
whatever comes after it. -/
def LeadsTo (s : Schema) (w : List SpacedToken) (P : Chain → Prop) (ctx : TypeContext) : Prop :=
  ∀ rest, LaidOut (w ++ rest) → ∃ c, P c ∧ ofLinks s c.links = ctx ∧ Reads .start w rest [] c

section Documents

variable {s : Schema} {hs : List Head} {h : Head} {o : ArgumentOwner} {a : String}
  {spot : LiteralSpot} {p : List LiteralStep} {w t : List SpacedToken} {ctx : TypeContext}

/-- Open selection sets lead to the context of their heads. -/
theorem Opens.leadsTo (ho : Opens hs w) : LeadsTo s w (SelectsIn hs) (s.contextIn hs) := by
  intro rest hw
  obtain ⟨c, hc, hrd⟩ := ho.reads hw
  exact ⟨c, hc, hc.ofLinks_eq, hrd⟩

/-- The parenthesis of a directive leads to the context of its head and of the directive. -/
theorem Hosts.leadsTo {v : List SpacedToken} {d n b : SpacedToken} (ho : Hosts hs h w)
    (hv : Derives [list (rule .directive)] v) (hd : d.token = .mark "@") (hn : n.token.kind = .name)
    (hb : b.token = .mark "(") :
    LeadsTo s (w ++ (v ++ [d, n, b])) (AtArguments (.directive n.token.text))
      (s.contextOf hs h n.token.text) := by
  intro rest hw
  have hlaid : n.IsLaid := hw.laid n (by simp)
  rw [List.append_assoc] at hw
  have hend : ∀ rest, EndsHead ((v ++ [d, n, b]) ++ rest) := fun rest => by
    rw [List.append_assoc]
    exact EndsHead.append ⟨d, _, rfl, .inl hd⟩ hv
  obtain ⟨c, hc, hhost⟩ := ho.reads hw (hend rest)
  have hw := hw.of_append
  rw [List.append_assoc] at hw
  have hend' : EndsHead (v ++ [d, n, b]) := by simpa using hend []
  refine ⟨_, .directive hc hlaid.text_ne, ?_,
    hhost.trans (hc.reads_directive hv hd hn hb hw) hend'.follows (by simp)⟩
  rw [ofLinks_inside, ofLinks_inside, hc.ofLinks_eq]
  simp only [TypeContext.enter, argumentsOf, Link.opened, written?_some hlaid.text_ne]
  rfl

/-- **Arguments lead to the same context without the aliases** before them. -/
theorem OpensArguments.exists_leadsTo (ho : OpensArguments o w) (hx : BeginsExecutably w) :
    ∃ ctx, LeadsTo s w (AtArguments o) ctx ∧
      LeadsTo s (dropAliases false w) (AtArguments o) ctx := by
  obtain ⟨hdrop, -⟩ := ho.unaliased hx
  cases ho with
  | @field hs n w z u b ho hz hn hb =>
    have hleads : ∀ w, OpensArguments (.field hs n) w →
        LeadsTo s w (AtArguments (.field hs n)) (s.contextAt hs n) := by
      intro w ho rest hw
      obtain ⟨c, hc, hrd⟩ := ho.reads hw
      exact ⟨c, hc, hc.ofLinks_eq, hrd⟩
    exact ⟨_, hleads _ (.field ho hz hn hb), hleads _ hdrop⟩
  | @directive hs h w v d x b ho hv hd hn hb =>
    refine ⟨s.contextOf hs h x.token.text, ho.leadsTo hv hd hn hb, ?_⟩
    rw [(ho.dropAliases_directive hx.of_append hv hd hn hb).1]
    exact (ho.unaliased hx.of_append).1.leadsTo (dropAliases_directives hv).1 hd hn hb

/-- What goes into a literal leads on. -/
theorem GoesInto.leadsTo (ht : GoesInto a spot p t) (hw : LeadsTo s w (AtArguments o) ctx) :
    LeadsTo s (w ++ t) (AtLiteral o a spot p) (ctx.intoLiteral s a spot p) := by
  intro rest hlaid
  rw [List.append_assoc] at hlaid
  obtain ⟨b, hb, rfl, hrd⟩ := hw (t ++ rest) hlaid
  obtain ⟨c, hc, hrd'⟩ := ht.reads hb hlaid.of_append
  exact ⟨c, hc.atLiteral hb, hc.ofLinks_eq, hrd.append hrd'⟩

end Documents

/-! ### The end of a document -/

/-- Some tokens **end open**: at the brace of a selection set, at the parenthesis of arguments, or
where a literal or a member of one is next. -/
def EndsOpen (w : List SpacedToken) : Prop :=
  (∃ hs, Opens hs w) ∨ (∃ o, OpensArguments o w) ∨ ∃ o a spot p, OpensLiteral o a spot p w

/-- The positions at which the context alone tells the candidates. -/
def Position.isOfContext : Position → Bool
  | .field | .argument | .objectField | .inputValue => true
  | _ => false

/-- At such a position **the context tells** what is offered. -/
theorem Chain.offers_eq_of_context {c d : Chain} {o : Position} {s : Schema}
    (hc : Position.ofChain? c.valid = some o) (hd : Position.ofChain? d.valid = some o)
    (ho : o.isOfContext = true) (h : ofLinks s c.links = ofLinks s d.links) (q p : List Char) :
    c.offers s q = d.offers s p := by
  rw [offers_of_position hc, offers_of_position hd, h]
  have hcand : candidates s q c.valid (ofLinks s d.links) o =
      candidates s p d.valid (ofLinks s d.links) o := by
    cases o <;> first | rfl | cases ho
  rw [hcand]

/-- A document ends at a chain that it leads to, if its last token is a mark. -/
theorem LeadsTo.exists_endsAt {s : Schema} {w : List SpacedToken} {P : Chain → Prop}
    {ctx : TypeContext} (h : LeadsTo s w P ctx) {lead : List Char} {x : SpacedToken}
    (hlead : ∀ c ∈ lead, isSeparator c = true) (hw : LaidOut w) (hx : w.getLast? = some x)
    (hp : x.token.kind = .punctuation) (ht : isFilterable x.token.text.toList = false)
    (hg : x.gap = []) : ∃ c, P c ∧ ofLinks s c.links = ctx ∧ EndsAt (lead ++ render w) c := by
  obtain ⟨u, rfl⟩ := List.getLast?_eq_some_iff.1 hx
  obtain ⟨c, hc, hctx, hrd⟩ := h [] (by rwa [List.append_nil])
  exact ⟨c, hc, hctx, endsAt_of_run hlead hw hrd.takesAll hp ht hg⟩

/-- Open arguments end with a parenthesis. -/
theorem OpensArguments.exists_last {o : ArgumentOwner} {w : List SpacedToken}
    (h : OpensArguments o w) : ∃ u b, w = u ++ [b] ∧ b.token = .mark "(" := by
  cases h with
  | @field hs n w z u b _ _ _ hb => exact ⟨w ++ (z ++ u), b, by simp, hb⟩
  | @directive hs h w v d x b _ _ _ _ hb => exact ⟨w ++ (v ++ [d, x]), b, by simp, hb⟩

/-- An open document and the one without its aliases **lead to the same**: to chains at the same
position, with the same context, and their last token is the same mark. -/
theorem EndsOpen.exists_leadsTo {w : List SpacedToken} (h : EndsOpen w) (hx : BeginsExecutably w)
    (s : Schema) :
    ∃ (P : Chain → Prop) (ctx : TypeContext) (o : Position) (x : SpacedToken),
      (∀ c, P c → Position.ofChain? c.valid = some o) ∧ o.isOfContext = true ∧
      LeadsTo s w P ctx ∧ LeadsTo s (dropAliases false w) P ctx ∧
      w.getLast? = some x ∧ (dropAliases false w).getLast? = some x ∧
      x.token.kind = .punctuation ∧ isFilterable x.token.text.toList = false := by
  have hmark : ∀ {x : SpacedToken} {text : String}, x.token = .mark text →
      isFilterable text.toList = false →
      x.token.kind = .punctuation ∧ isFilterable x.token.text.toList = false := by
    intro x text hx ht
    rw [hx]
    exact ⟨rfl, ht⟩
  -- The document ends in a selection set, at arguments or in a literal.
  obtain ⟨hs, ho⟩ | ⟨o, ho⟩ | ⟨o, a, spot, p, ho⟩ := h
  · obtain ⟨u, b, rfl, hb⟩ := ho.exists_last
    have hne : b.token ≠ .mark ":" := by
      rw [hb]
      decide
    obtain ⟨hk, ht⟩ := hmark hb (by decide)
    refine ⟨SelectsIn hs, s.contextIn hs, .field, b, fun c hc => ?_, rfl, ho.leadsTo,
      (ho.unaliased hx).1.leadsTo, List.getLast?_concat, getLast?_dropAliases (.inr hne), hk, ht⟩
    have hvalid : c.valid = c := if_neg (by simp [hc.kind_top])
    rw [hvalid]
    exact hc.position
  · obtain ⟨ctx, hw, hv⟩ := ho.exists_leadsTo (s := s) hx
    have hlast := getLast?_dropAliases_of_enclosed (ho.unaliased hx).2
    obtain ⟨u, b, rfl, hb⟩ := ho.exists_last
    rw [List.getLast?_concat] at hlast
    obtain ⟨hk, ht⟩ := hmark hb (by decide)
    refine ⟨AtArguments o, ctx, .argument, b, fun c hc => ?_, rfl, hw, hv,
      List.getLast?_concat, hlast, hk, ht⟩
    cases hc <;> rfl
  · obtain ⟨u, t, rfl, hu, ht⟩ := ho.exists_append
    obtain ⟨ctx, hw, hv⟩ := hu.exists_leadsTo (s := s) hx.of_append
    obtain ⟨hdrop, henc⟩ := ht.dropAliases_append (hu.unaliased hx.of_append).2
    have hlast := getLast?_dropAliases_of_enclosed henc
    obtain ⟨v, b, he, hb⟩ := ho.exists_last
    have hb' : (u ++ t).getLast? = some b := by rw [he, List.getLast?_concat]
    have hkt : b.token.kind = .punctuation ∧ isFilterable b.token.text.toList = false := by
      obtain hb | hb | hb := hb <;> exact hmark hb (by decide)
    refine ⟨AtLiteral o a spot p, ctx.intoLiteral s a spot p,
      if spot = .member then .objectField else .inputValue, b, fun c hc => ?_, ?_,
      ht.leadsTo hw, hdrop ▸ ht.leadsTo hv, hb', hlast.trans hb', hkt.1, hkt.2⟩
    · have hvalid : c.valid = c := if_neg hc.kind_ne
      rw [hvalid]
      exact hc.position
    · split <;> rfl

/-- **Aliases do not change completion.** Where a document ends at an opening brace, at the
parenthesis of arguments, or where a literal or a member of one is next, the document without its
aliases has the same type context at its end, in all that it knows, and the same suggestions. -/
theorem complete_dropAliases (s : Schema) {lead : List Char} {w : List SpacedToken}
    (hlead : ∀ c ∈ lead, isSeparator c = true) (hw : LaidOut w) (hx : BeginsExecutably w)
    (ho : EndsOpen w) (hend : ∀ x ∈ w.getLast?, x.gap = []) :
    let document := lead ++ render w
    let unaliased := lead ++ render (dropAliases false w)
    ofLinks s ((Cursor.atEnd unaliased).locate unaliased).chain.links =
        ofLinks s ((Cursor.atEnd document).locate document).chain.links ∧
      complete s unaliased (Cursor.atEnd unaliased) =
        complete s document (Cursor.atEnd document) := by
  obtain ⟨P, ctx, o, x, hP, hctx, hleads, hleads', hlast, hlast', hk, ht⟩ :=
    ho.exists_leadsTo hx s
  have hgap := hend x hlast
  obtain ⟨c, hc, hce, hat⟩ := hleads.exists_endsAt hlead hw hlast hk ht hgap
  obtain ⟨d, hd, hde, hat'⟩ :=
    hleads'.exists_endsAt hlead (hw.unaliased false) hlast' hk ht hgap
  dsimp only
  rw [complete_eq_offers_of_not_isFilterable hat.text,
    complete_eq_offers_of_not_isFilterable hat'.text, hat.chain, hat'.chain]
  exact ⟨hde.trans hce.symm,
    offers_eq_of_context (hP d hd) (hP c hc) hctx (hde.trans hce.symm) _ _⟩

/-- After another field with an alias and at an argument of one, the members of its enum are
suggested with the aliases and without them. -/
theorem complete_dropAliases_argument :
    ∃ s lead w, lead ++ render w = "\n\x7b n : name u : user ( by :".toList ∧
      lead ++ render (dropAliases false w) = "\n\x7b name user ( by :".toList ∧
      (∀ c ∈ lead, isSeparator c = true) ∧ LaidOut w ∧ BeginsExecutably w ∧ EndsOpen w ∧
      (∀ x ∈ w.getLast?, x.gap = []) ∧
      complete s (lead ++ render w) (Cursor.atEnd (lead ++ render w)) =
        .ok [{ text := "RED", type := some (.named "Color") }] ∧
      complete s (lead ++ render (dropAliases false w))
          (Cursor.atEnd (lead ++ render (dropAliases false w))) =
        complete s (lead ++ render w) (Cursor.atEnd (lead ++ render w)) := by
  let s : Schema := {
    query := some "Query",
    types := [
      { name := "Query", body := .object [] [
          { name := "name", type := .named "String" },
          { name := "user", type := .named "Query",
            args := [{ name := "by", type := .named "Color" }] }] },
      { name := "Color", body := .enum (.known [{ name := "RED" }]) }] }
  let spaced (t : Token) : SpacedToken := ⟨t, [' ']⟩
  let w : List SpacedToken := [spaced (.mark "\x7b"), spaced (.word "n"), spaced (.mark ":"),
    spaced (.word "name"), spaced (.word "u"), spaced (.mark ":"), spaced (.word "user"),
    spaced (.mark "("), spaced (.word "by"), ⟨.mark ":", []⟩]
  have hsuits : RuleKind.Suits .aliasedField ((w.drop 1).take 3) :=
    (by decide : '\n' ∉ [' '])
  have hsibling : Derives [list (rule .selection)] ((w.drop 1).take 3) :=
    .again (.answer rfl (by decide) hsuits (.rule rfl
      (.terminal rfl (.terminal rfl (.terminal rfl (.skip (.stop (.skip .nil)))))))) (.stop .nil)
  have hname : NamesField "user" ((w.drop 4).take 3) :=
    .aliased (a := spaced (.word "u")) (x := spaced (.word "user")) rfl (by decide) rfl rfl
  have harguments : OpensArguments (.field [.query] "user") (w.take 8) :=
    .field (.shorthand (.stop .nil) rfl) hsibling hname rfl
  have ho : OpensLiteral (.field [.query] "user") "by" .value [] w :=
    .argument (z := []) (x := spaced (.word "by")) harguments (.stop .nil) rfl rfl
  have hlaid : LaidOut w := by decide
  have hx : BeginsExecutably w := .of_keywords (by decide)
  have hend : ∀ x ∈ w.getLast?, x.gap = [] := by decide
  have hlead : ∀ c ∈ ['\n'], isSeparator c = true := List.all_eq_true.1 rfl
  have hopen : EndsOpen w := .inr (.inr ⟨_, _, _, _, ho⟩)
  exact ⟨s, _, w, by decide, by decide, hlead, hlaid, hx, hopen, hend, by decide +kernel,
    (complete_dropAliases s hlead hlaid hx hopen hend).2⟩

end QueryAssist
