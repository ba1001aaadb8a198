import QueryAssist.Proofs.Open.Literal
import QueryAssist.Proofs.Open.Selection

/-! # Completing literals

In a literal that is open the type context knows the type that must be there, whatever lists and
objects are open around it. Main definition:

* **`TypeContext.Demands`** — whether a context demands a type of a literal.

Main statements: `Chain.AtLiteral.context`, by induction on the chain, and `complete_literal`, the
literals of that type, or the fields of that object, are suggested at the end of an open
document. -/

namespace QueryAssist

open Chain

/-- A type context **demands** a type where something is next in a literal: it is the type of the
input, inside an object its fields are known, and no fault shows. -/
structure TypeContext.Demands (s : Schema) (ctx : TypeContext) (spot : LiteralSpot)
    (t : Option TypeRef) : Prop where
  input : ctx.input = t
  objectFields : spot = .member → ctx.objectFields = s.inputFields? t
  fault : ctx.fault = none

/-- An input value is found among those that are known. -/
theorem inputOf?_eq (vs : Option (List InputValue)) (n : String) :
    ((vs.getD []).find? (·.name == n)).map (·.type) = Schema.inputOf? vs n := by
  cases vs with
  | none => rfl
  | some vs => rfl

/-- With an alias the field is looked up again by its name. -/
theorem TypeContext.argumentsOf_aliasedField (s : Schema) {n : String} (hn : n ≠ "")
    (ctx : TypeContext) :
    ctx.argumentsOf s (some (.opened .aliasedField 3 (some n) none)) =
      (s.fieldOf? ctx.parent n).map (·.args) := by
  change ((written? (some n)).bind fun m => s.fieldOf? ctx.parent m).map _ = _
  rw [written?_some hn]
  rfl

namespace Chain

open TypeContext

variable {c d : Chain} {o : ArgumentOwner} {a : String} {spot : LiteralSpot} {p : List LiteralStep}
  {hs : List Head} {h : Head}

/-- No fault shows at the directives of a head. -/
theorem HostsIn.fault_eq (hd : d.HostsIn hs h) (s : Schema) : (ofLinks s d.links).fault = none := by
  cases hd with
  | definition _ hb =>
    rw [ofLinks_inside, ofLinks_definitionChain]
    exact ((selectsFrom_none s).enter_head hb).2
  | selection hc _ hb =>
    rw [ofLinks_inside, ofLinks_inSelection]
    exact ((hc.context s).enter_head hb).2

/-- At the arguments of an owner **its arguments are known**. -/
theorem AtArguments.context (hc : c.AtArguments o) (s : Schema) :
    (ofLinks s c.links).arguments = s.argumentsOf? o ∧ (ofLinks s c.links).fault = none := by
  cases hc with
  | @field hs c k i n hc hk hn =>
    have hctx := hc.context s
    obtain ⟨hparent, hfault⟩ := parent_enterField s (ofLinks s c.links) (some n)
    rw [ofLinks_inside, ofLinks_inside, ofLinks_inSelection]
    -- Only with an alias is the field looked up again for its arguments.
    cases hk with
    | field =>
      refine ⟨?_, hfault.trans hctx.fault⟩
      exact congrArg (Option.map (·.args)) (hctx.enterField hn).1
    | aliasedField =>
      refine ⟨?_, hfault.trans hctx.fault⟩
      have hargs := argumentsOf_aliasedField s hn ((ofLinks s c.links).enterField s (some n))
      rw [hparent, hctx.parent] at hargs
      exact hargs
  | directive hd hn =>
    rw [ofLinks_inside, ofLinks_inside]
    refine ⟨?_, hd.fault_eq s⟩
    simp only [TypeContext.enter, argumentsOf, Link.opened, written?_some hn]
    rfl

/-- At a literal **the context demands the type** that the steps into it lead to. -/
theorem AtLiteral.context (hc : c.AtLiteral o a spot p) (s : Schema) :
    (ofLinks s c.links).Demands s spot (s.inputAt o a p) := by
  -- The induction is on the chain. A list or an object passes on what its literal demands, and an
  -- object keeps its fields for the names in it.
  induction hc with
  | @argument c a hc =>
    obtain ⟨hargs, hfault⟩ := hc.context s
    rw [ofLinks_inside]
    refine ⟨?_, nofun, hfault⟩
    calc ((ofLinks s c.links).enterArgument (some a)).input
      _ = Schema.inputOf? (ofLinks s c.links).arguments a := inputOf?_eq _ a
      _ = s.inputAt o a [] := by rw [hargs]; rfl
  | list _ ih =>
    rw [ofLinks_inside, ofLinks_inside, Schema.inputAt_concat]
    refine ⟨?_, nofun, ih.fault⟩
    exact congrArg (·.bind TypeRef.item?) ih.input
  | object _ ih =>
    rw [ofLinks_inside, ofLinks_inside]
    refine ⟨ih.input, fun _ => ?_, ih.fault⟩
    exact congrArg s.inputFields? ih.input
  | @field c a n p _ hn ih =>
    rw [ofLinks_inside, Schema.inputAt_concat]
    refine ⟨?_, nofun, ih.fault⟩
    calc ((ofLinks s c.links).enterObjectField (some n)).input
      _ = Schema.inputOf? (ofLinks s c.links).objectFields n := by
        rw [enterObjectField, written?_some hn]
        exact inputOf?_eq _ n
      _ = s.inputIn (s.inputAt o a p) (.field n) := by rw [ih.objectFields rfl]; rfl

/-- The position in a literal. -/
theorem AtLiteral.position (hc : c.AtLiteral o a spot p) :
    Position.ofChain? c = some (if spot = .member then .objectField else .inputValue) := by
  cases hc with
  | _ => rfl

/-- A chain at a literal does not stand for an invalid token. -/
theorem AtLiteral.kind_ne (hc : c.AtLiteral o a spot p) : c.top.kind ≠ some .invalid := by
  cases hc with
  | _ => nofun

end Chain

/-- An open literal ends with a mark. -/
theorem OpensLiteral.exists_last {o : ArgumentOwner} {a : String} {spot : LiteralSpot}
    {p : List LiteralStep} {w : List SpacedToken} (h : OpensLiteral o a spot p w) :
    ∃ u b, w = u ++ [b] ∧
      (b.token = .mark ":" ∨ b.token = .mark "[" ∨ b.token = .mark "\x7b") := by
  cases h with
  | @argument w z x c _ _ _ hc => exact ⟨w ++ (z ++ [x]), c, by simp, .inl hc⟩
  | @list _ _ _ w z b _ _ hb => exact ⟨w ++ z, b, by simp, .inr (.inl hb)⟩
  | @object _ _ _ w z b _ _ hb => exact ⟨w ++ z, b, by simp, .inr (.inr hb)⟩
  | @field _ _ w z x c _ _ _ hc => exact ⟨w ++ (z ++ [x]), c, by simp, .inl hc⟩

/-- **Completing literals is right for every nesting**: at the end of a document that opens a
literal every token fits. After a colon and inside a list the type that is due is the one that the
steps into the argument lead to, and its literals are suggested; inside an object its fields are
known and suggested. -/
theorem complete_literal (s : Schema) {lead : List Char} {o : ArgumentOwner} {a : String}
    {spot : LiteralSpot} {p : List LiteralStep} {w : List SpacedToken}
    (hlead : ∀ c ∈ lead, isSeparator c = true) (hw : LaidOut w) (ho : OpensLiteral o a spot p w)
    (hend : ∀ x ∈ w.getLast?, x.gap = []) :
    let document := lead ++ render w
    let c := ((Cursor.atEnd document).locate document).chain
    let ctx := TypeContext.ofLinks s c.links
    let due := s.inputAt o a p
    (∀ t ∈ Scan.tokens document, t.style ≠ "invalidchar") ∧
      (spot ≠ .member → Position.ofChain? c = some .inputValue ∧ ctx.input = due ∧
        complete s document (Cursor.atEnd document) = Candidates.literals s due) ∧
      (spot = .member → Position.ofChain? c = some .objectField ∧
        ctx.objectFields = s.inputFields? due ∧
        complete s document (Cursor.atEnd document) =
          .ok (Candidates.inputValues (s.inputFields? due))) := by
  obtain ⟨u, b, rfl, hb⟩ := ho.exists_last
  have hlaid : LaidOut ((u ++ [b]) ++ []) := by rwa [List.append_nil]
  -- The document is read up to a chain that stands where the steps into the argument lead.
  obtain ⟨d, hd, e, hrun, -, he⟩ := ho.reads hlaid
  obtain rfl := he rfl
  have hat : EndsAt (lead ++ render (u ++ [b])) e := by
    refine endsAt_of_run hlead hw hrun ?_ ?_ (hend b (by simp))
    · rcases hb with hb | hb | hb <;> rw [hb] <;> rfl
    · rcases hb with hb | hb | hb <;> rw [hb] <;> decide
  have hctx := hd.context s
  have hcomplete := hat.complete_eq hd.kind_ne hd.position hctx.fault
  have hposition := hd.position
  dsimp only
  rw [hat.chain]
  refine ⟨hat.fits, fun hs => ?_, fun hs => ?_⟩
  · rw [if_neg hs] at hposition hcomplete
    refine ⟨hposition, hctx.input, ?_⟩
    rw [hcomplete, candidates, hctx.input]
  · rw [if_pos hs] at hposition hcomplete
    refine ⟨hposition, hctx.objectFields hs, ?_⟩
    rw [hcomplete, candidates, hctx.objectFields hs]

/-- In a field of an object in a list the members of the enum that it is of are suggested. -/
theorem complete_literal_nested :
    ∃ s lead w, lead ++ render w = "\n\x7b user ( by : [ \x7b color :".toList ∧
      (∀ c ∈ lead, isSeparator c = true) ∧ LaidOut w ∧
      OpensLiteral (.field [.query] "user") "by" .value [.item, .field "color"] w ∧
      (∀ x ∈ w.getLast?, x.gap = []) ∧
      complete s (lead ++ render w) (Cursor.atEnd (lead ++ render w)) =
        .ok [{ text := "RED", type := some (.named "Color") }] := by
  let s : Schema := {
    query := some "Query",
    types := [
      { name := "Query", body := .object [] [{
          name := "user", type := .named "Query",
          args := [{ name := "by", type := .nonNull (.list (.named "Key")) }] }] },
      { name := "Key", body := .inputObject [{ name := "color", type := .named "Color" }] },
      { name := "Color", body := .enum (.known [{ name := "RED" }]) }] }
  let spaced (t : Token) : SpacedToken := ⟨t, [' ']⟩
  let w : List SpacedToken := [spaced (.mark "\x7b"), spaced (.word "user"), spaced (.mark "("),
    spaced (.word "by"), spaced (.mark ":"), spaced (.mark "["), spaced (.mark "\x7b"),
    spaced (.word "color"), ⟨.mark ":", []⟩]
  have hname : NamesField "user" ((w.drop 1).take 1) := .plain (x := spaced (.word "user")) rfl
  have harguments : OpensArguments (.field [.query] "user") (w.take 3) :=
    .field (z := []) (.shorthand (.stop .nil) rfl) (.stop .nil) hname rfl
  have hargument : OpensLiteral (.field [.query] "user") "by" .value [] (w.take 5) :=
    .argument (z := []) (x := spaced (.word "by")) harguments (.stop .nil) rfl rfl
  have hobject : OpensLiteral (.field [.query] "user") "by" .member [.item] (w.take 7) :=
    .object (.list hargument .value rfl) (.item (.stop .nil)) rfl
  have ho : OpensLiteral (.field [.query] "user") "by" .value [.item, .field "color"] w :=
    .field (z := []) (x := spaced (.word "color")) hobject (.stop .nil) rfl rfl
  have hlaid : LaidOut w := by decide
  have hend : ∀ x ∈ w.getLast?, x.gap = [] := by decide
  have hlead : ∀ c ∈ ['\n'], isSeparator c = true := List.all_eq_true.1 rfl
  obtain ⟨-, hvalue, -⟩ := complete_literal s hlead hlaid ho hend
  obtain ⟨-, -, hcomplete⟩ := hvalue nofun
  exact ⟨s, _, w, by decide, hlead, hlaid, ho, hend, hcomplete.trans (by decide)⟩

end QueryAssist
