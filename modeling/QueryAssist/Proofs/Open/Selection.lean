import QueryAssist.Proofs.Layout.Ending
import QueryAssist.Proofs.Open.Reading

/-! # Completing fields

In a selection set that is open the type context knows the type that the heads around it select
from, however deep it is. Main definition:

* **`TypeContext.SelectsFrom`** — whether a context selects from a type.

Main statements: `Chain.SelectsIn.context`, by induction on the chain, and `complete_selection`, the
fields of that type are suggested at the end of an open document. -/

namespace QueryAssist

open Grammar Chain

/-- A type context **selects from** a type if it is its type, the type that this names is the parent
and no fault shows. -/
structure TypeContext.SelectsFrom (s : Schema) (ctx : TypeContext) (t : Option TypeRef) : Prop where
  type : ctx.type = t
  parent : ctx.parent = s.baseType? t
  fault : ctx.fault = none

/-- A name that is not empty was written. -/
theorem written?_some {n : String} (hn : n ≠ "") : written? (some n) = some n := by
  simp [written?, hn]

namespace TypeContext

variable {s : Schema} {c : Chain} {k : RuleKind} {i : Nat} {n t : Option String}

/-- The context inside a construct. -/
theorem ofLinks_inside (s : Schema) (c : Chain) (k : RuleKind) (i : Nat) (n t : Option String) :
    ofLinks s (c.inside k i n t).links =
      (ofLinks s c.links).enter s k (.opened k i n t) (some c.top) := rfl

/-- At the start of a document nothing is known. -/
theorem ofLinks_definitionChain (s : Schema) : ofLinks s definitionChain.links = {} := rfl

/-- The context inside a selection is the one around it. -/
theorem ofLinks_inSelection (s : Schema) (c : Chain) :
    ofLinks s c.inSelection.links = ofLinks s c.links := rfl

/-- The empty context selects from nothing. -/
theorem selectsFrom_none (s : Schema) : SelectsFrom s {} none := ⟨rfl, rfl, rfl⟩

/-- A field changes nothing but the field and the type. -/
theorem parent_enterField (s : Schema) (ctx : TypeContext) (n : Option String) :
    (ctx.enterField s n).parent = ctx.parent ∧ (ctx.enterField s n).fault = ctx.fault := by
  unfold TypeContext.enterField
  split <;> exact ⟨rfl, rfl⟩

end TypeContext

namespace TypeContext.SelectsFrom

variable {s : Schema} {ctx : TypeContext} {around t : Option TypeRef}

/-- Without a type there are no fields. -/
theorem fieldOf?_eq_none (h : SelectsFrom s ctx none) (n : String) :
    s.fieldOf? ctx.parent n = none := by
  rw [h.parent]
  rfl

/-- A field is looked up in the type that is selected from. -/
theorem enterField (h : SelectsFrom s ctx around) {n : String} (hn : n ≠ "") :
    (ctx.enterField s (some n)).field = s.fieldOf? (s.baseType? around) n ∧
      (ctx.enterField s (some n)).type = (s.fieldOf? (s.baseType? around) n).map (·.type) := by
  unfold TypeContext.enterField
  rw [written?_some hn]
  -- Without a type around it the parent is unknown too, and no field is found in it.
  cases around with
  | none =>
    rw [← h.parent, h.fieldOf?_eq_none, h.type]
    exact ⟨rfl, rfl⟩
  | some a =>
    rw [h.type, h.parent]
    exact ⟨rfl, rfl⟩

/-- The construct of a head has **the type inside the head**. -/
theorem enter_head {h : Head} {k : RuleKind} {i j : Nat} {n l : Option String} {owner : Option Link}
    (hctx : SelectsFrom s ctx around) (hb : h.Builds k i n l) :
    (ctx.enter s k (.opened k j n l) owner).type = s.typeIn around h ∧
      (ctx.enter s k (.opened k j n l) owner).fault = none := by
  cases hb with
  | query | mutation | subscription => exact ⟨rfl, hctx.fault⟩
  | fragment _ ht | inlineOn _ ht =>
    simp only [TypeContext.enter, Link.opened, written?_some ht]
    exact ⟨rfl, hctx.fault⟩
  | @field _ _ m hk hn =>
    obtain ⟨-, hf⟩ := parent_enterField s ctx (some m)
    cases hk with
    | field | aliasedField => exact ⟨(hctx.enterField hn).2, hf.trans hctx.fault⟩
  | inline => exact ⟨hctx.type, hctx.fault⟩
  | spread => exact ⟨hctx.type, hctx.fault⟩

/-- A selection set selects from the type around it. -/
theorem enter_selectionSet {l : Link} {owner : Option Link} (ht : ctx.type = t)
    (hf : ctx.fault = none) : SelectsFrom s (ctx.enter s .selectionSet l owner) t := by
  subst ht
  exact ⟨rfl, rfl, hf⟩

end TypeContext.SelectsFrom

namespace Chain

open TypeContext

variable {c : Chain} {hs : List Head}

/-- A chain in the selection sets of some heads has **the context that the heads give**. -/
theorem SelectsIn.context (h : c.SelectsIn hs) (s : Schema) :
    (ofLinks s c.links).SelectsFrom s (s.selected hs) := by
  -- The induction is on the chain: the context of its selection set is all that a head depends on.
  induction h with
  | shorthand =>
    rw [ofLinks_inside]
    exact .enter_selectionSet rfl rfl
  | definition hd hb =>
    rw [ofLinks_inside, ofLinks_inside, ofLinks_definitionChain]
    obtain ⟨ht, hf⟩ := (selectsFrom_none s).enter_head hb
    exact .enter_selectionSet ht hf
  | selection hc hd hb ih =>
    rw [ofLinks_inside, ofLinks_inside, ofLinks_inSelection, Schema.selected_concat]
    obtain ⟨ht, hf⟩ := ih.enter_head hb
    exact .enter_selectionSet ht hf

/-- Such a chain is at a selection set. -/
theorem SelectsIn.kind_top (h : c.SelectsIn hs) : c.top.kind = some .selectionSet := by
  cases h with
  | _ => rfl

/-- Fields can be suggested where a chain selects in some heads. -/
theorem SelectsIn.position (h : c.SelectsIn hs) : Position.ofChain? c = some .field := by
  cases h with
  | _ => rfl

end Chain

namespace Opens

variable {hs : List Head} {w : List SpacedToken}

/-- An open document ends with an opening brace. -/
theorem exists_last (h : Opens hs w) : ∃ u b, w = u ++ [b] ∧ b.token = .mark "\x7b" := by
  cases h with
  | @shorthand w b _ hb => exact ⟨w, b, rfl, hb⟩
  | @definition _ w u v b _ _ _ _ hb => exact ⟨w ++ (u ++ v), b, by simp, hb⟩
  | @selection _ _ w z u v b _ _ _ _ _ _ hb => exact ⟨w ++ (z ++ (u ++ v)), b, by simp, hb⟩

end Opens

/-- **Completing fields is right for every nesting**: at the end of an open document every token
fits, the position is one of a field in a selection set, the context is that of the type that the
heads select from, and the fields of this type are suggested. -/
theorem complete_selection (s : Schema) {lead : List Char} {hs : List Head} {w : List SpacedToken}
    (hlead : ∀ c ∈ lead, isSeparator c = true) (hw : LaidOut w) (ho : Opens hs w)
    (hend : ∀ x ∈ w.getLast?, x.gap = []) :
    let document := lead ++ render w
    let c := ((Cursor.atEnd document).locate document).chain
    (∀ t ∈ Scan.tokens document, t.style ≠ "invalidchar") ∧
      c.top.kind = some .selectionSet ∧ Position.ofChain? c = some .field ∧
      (TypeContext.ofLinks s c.links).type = s.selected hs ∧
      (TypeContext.ofLinks s c.links).parent = s.baseType? (s.selected hs) ∧
      complete s document (Cursor.atEnd document) =
        .ok (Candidates.fields s (s.baseType? (s.selected hs))) := by
  obtain ⟨u, b, rfl, hb⟩ := ho.exists_last
  have hlaid : LaidOut ((u ++ [b]) ++ []) := by rwa [List.append_nil]
  obtain ⟨d, hd, e, hrun, -, he⟩ := ho.reads hlaid
  obtain rfl := he rfl
  -- The document ends with a brace, after which nothing is due and nothing narrows.
  have hat : EndsAt (lead ++ render (u ++ [b])) e := by
    refine endsAt_of_run hlead hw hrun ?_ ?_ (hend b (by simp))
    · rw [hb]
      rfl
    · rw [hb]
      decide
  have hctx := hd.context s
  have hkind := hd.kind_top
  have hcomplete := hat.complete_eq (by simp [hkind]) hd.position hctx.fault
  dsimp only
  rw [hat.chain]
  refine ⟨hat.fits, hkind, hd.position, hctx.type, hctx.parent, ?_⟩
  rw [hcomplete, candidates, hctx.parent]

/-- Inside a field with an alias, after another field, the fields of its type are suggested. -/
theorem complete_selection_aliased :
    ∃ s lead w, lead ++ render w = "\nquery \x7b id u : user \x7b".toList ∧
      (∀ c ∈ lead, isSeparator c = true) ∧ LaidOut w ∧ Opens [.query, .field "user"] w ∧
      (∀ x ∈ w.getLast?, x.gap = []) ∧
      complete s (lead ++ render w) (Cursor.atEnd (lead ++ render w)) =
        .ok [{ text := "name", type := some (.named "String") }] := by
  let s : Schema := {
    query := some "Query",
    types := [
      { name := "Query",
        body := .object [] [{ name := "user", type := .nonNull (.named "User") }] },
      { name := "User", body := .object [] [{ name := "name", type := .named "String" }] }] }
  let spaced (t : Token) : SpacedToken := ⟨t, [' ']⟩
  let w : List SpacedToken := [spaced (.word "query"), spaced (.mark "\x7b"), spaced (.word "id"),
    spaced (.word "u"), spaced (.mark ":"), spaced (.word "user"), ⟨.mark "\x7b", []⟩]
  have hquery : Opens [.query] (w.take 2) :=
    .definition (v := []) (.stop .nil) rfl (.operation rfl rfl (.skip (.skip .nil)))
      (.stop .nil) rfl
  have hsibling : Derives [.list (.rule .selection)] ((w.drop 2).take 1) :=
    .again (.answer (a := .field) rfl (by decide) trivial
      (.rule rfl (.terminal rfl (.skip (.stop (.skip .nil)))))) (.stop .nil)
  have hname : NamesField "user" ((w.drop 3).take 3) :=
    .aliased (a := spaced (.word "u")) (x := spaced (.word "user")) rfl (by decide) rfl rfl
  have hfield : (Head.field "user").Writes ((w.drop 3).take 3) := .field hname (.skip .nil)
  have ho : Opens [.query, .field "user"] w :=
    .selection (v := []) hquery hsibling rfl rfl hfield (.stop .nil) rfl
  have hlaid : LaidOut w := by decide
  have hend : ∀ x ∈ w.getLast?, x.gap = [] := by decide
  have hlead : ∀ c ∈ ['\n'], isSeparator c = true := List.all_eq_true.1 rfl
  obtain ⟨-, -, -, -, -, hcomplete⟩ := complete_selection s hlead hlaid ho hend
  exact ⟨s, _, w, by decide, hlead, hlaid, ho, hend, hcomplete.trans (by decide)⟩

end QueryAssist
