import QueryAssist.Completion.Outcome
import QueryAssist.Proofs.Layout.Scanning

/-! # Completing at the end of a document

The suggestions at a cursor are what the chain of its token offers, narrowed by what was typed. A
document that ends right after a punctuation mark is completed there from the chain that a run over
its tokens leads to. A mark narrows nothing. Main definitions:

* **`Chain.offers`** — what is offered at a chain.
* **`EndsAt`** — whether a document ends at a chain, with nothing typed that narrows.

Main statements: `complete_eq_offers`, `endsAt_of_run`, and `EndsAt.complete_eq`, what is suggested
there. -/

namespace QueryAssist

open Chain

/-! ### What was typed -/

/-- What is left of a text that is stripped is in the text. -/
theorem mem_of_mem_strip {c : Char} {cs : List Char} (h : c ∈ strip cs) : c ∈ cs := by
  have hend : c ∈ (cs.dropWhile isBlank).reverse :=
    (List.dropWhile_sublist _).subset (List.mem_reverse.1 h)
  exact (List.dropWhile_sublist _).subset (List.mem_reverse.1 hend)

/-- What was typed of a token without word characters narrows nothing. -/
theorem isFilterable_typed {text : String} (h : isFilterable text.toList = false) (c : Cursor)
    (row start : Int) : isFilterable (c.typed row start text) = false := by
  have hsub : ∀ d ∈ c.typed row start text, d ∈ text.toList := by
    intro d hd
    have hd := mem_of_mem_strip hd
    split at hd
    · exact List.mem_of_mem_take hd
    · exact hd
  rw [isFilterable, List.any_eq_false] at h ⊢
  intro d hd
  exact h d (hsub d hd)

/-! ### What is offered at a chain -/

namespace Chain

open TypeContext

variable {c : Chain} {o : Position}

/-- What is **offered** at a chain of a document, before what was typed narrows it. -/
def offers (s : Schema) (document : List Char) (c : Chain) : Except SchemaFault (List Suggestion) :=
  match Position.ofChain? c.valid with
  | none => .ok []
  | some o =>
    match (ofLinks s c.links).fault with
    | some f => .error f
    | none => candidates s document c.valid (ofLinks s c.links) o

/-- Nothing is offered where there is no position. -/
theorem offers_of_position_none (h : Position.ofChain? c.valid = none) (s : Schema)
    (q : List Char) : c.offers s q = .ok [] := by
  simp only [offers, h]

/-- At a position the candidates are offered, unless a fault shows. -/
theorem offers_of_position (h : Position.ofChain? c.valid = some o) (s : Schema) (q : List Char) :
    c.offers s q = match (ofLinks s c.links).fault with
      | some f => .error f
      | none => candidates s q c.valid (ofLinks s c.links) o := by
  simp only [offers, h]

end Chain

/-- **The suggestions at a token** are what is offered at its chain, narrowed. -/
theorem Outcome.map_suggestions_atToken (s : Schema) (q : List Char) (c : Cursor)
    (t : PlacedToken) :
    (atToken s q c t).map suggestions =
      (t.chain.offers s q).map (narrow (c.typed t.row t.start t.text)) := by
  unfold atToken Chain.offers
  dsimp only
  cases Position.ofChain? t.chain.valid with
  | none => exact (congrArg Except.ok (narrow_nil _)).symm
  | some o =>
    cases (TypeContext.ofLinks s t.chain.links).fault with
    | some f => rfl
    | none =>
      dsimp only
      cases candidates s q t.chain.valid _ o <;> rfl

/-- **The suggestions** are what is offered at the chain of the token at the cursor, narrowed. -/
theorem complete_eq_offers (s : Schema) (q : List Char) (c : Cursor) :
    complete s q c = ((c.locate q).chain.offers s q).map
      (narrow (c.typed (c.locate q).row (c.locate q).start (c.locate q).text)) :=
  Outcome.map_suggestions_atToken s q c (c.locate q)

/-- Where nothing is typed they are **all that is offered**. -/
theorem complete_eq_offers_of_not_isFilterable {s : Schema} {q : List Char} {c : Cursor}
    (h : isFilterable (c.locate q).text.toList = false) :
    complete s q c = (c.locate q).chain.offers s q := by
  rw [complete_eq_offers]
  have hn := narrow_of_not_isFilterable
    (isFilterable_typed h c (c.locate q).row (c.locate q).start)
  cases (c.locate q).chain.offers s q with
  | error f => rfl
  | ok ss => exact congrArg Except.ok (hn ss)

/-! ### The end of a document -/

/-- A document **ends at** a chain if every token fits, the last one leads to the chain, and nothing
of it that is before the cursor at the end narrows the suggestions. -/
structure EndsAt (document : List Char) (d : Chain) : Prop where
  fits : ∀ t ∈ Scan.tokens document, t.style ≠ "invalidchar"
  chain : ((Cursor.atEnd document).locate document).chain = d
  text : isFilterable ((Cursor.atEnd document).locate document).text.toList = false

/-- The text of two lists of tokens is that of the one and that of the other. -/
theorem render_append (v w : List SpacedToken) : render (v ++ w) = render v ++ render w := by
  simp [render]

/-- The last line of a document that ends right after a token is not empty. -/
theorem getLast?_splitLines_render {x : SpacedToken} (hx : x.token.IsWhole) (hg : x.gap = [])
    (lead : List Char) (w : List SpacedToken) :
    (splitLines (lead ++ render (w ++ [x]))).getLast? ≠ some [] := by
  obtain ⟨cs, c, hc⟩ : ∃ cs c, x.token.text.toList = cs ++ [c] :=
    ⟨_, _, (List.dropLast_concat_getLast hx.toList_ne_nil).symm⟩
  have hne : c ≠ '\n' := by
    rintro rfl
    exact hx.oneLine (by simp [hc])
  have hdoc : lead ++ render (w ++ [x]) = (lead ++ (render w ++ cs)) ++ [c] := by
    rw [render_append, render_cons, hc, hg]
    simp
  rw [hdoc]
  exact getLast?_splitLines_ne_nil hne

/-- A document whose last token is a mark **ends at the chain** that a run over its tokens leads
to. -/
theorem endsAt_of_run {lead : List Char} {w : List SpacedToken} {x : SpacedToken} {d : Chain}
    (hlead : ∀ c ∈ lead, isSeparator c = true) (hw : LaidOut (w ++ [x]))
    (hr : TakesAll [] .start (w ++ [x]) d) (hp : x.token.kind = .punctuation)
    (ht : isFilterable x.token.text.toList = false) (hg : x.gap = []) :
    EndsAt (lead ++ render (w ++ [x])) d := by
  have hends := Scan.ends_tokens hlead hw hr
  have hlast : x ∈ (w ++ [x]).getLast? := by simp
  have hwhole : x.token.IsWhole := (hw.laid x (by simp)).whole
  have hloc := Cursor.locate_atEnd (getLast?_splitLines_render hwhole hg lead w)
  refine ⟨hends.fits, ?_, ?_⟩
  -- Punctuation leaves nothing due, so the chain is the one that the run leads to.
  · have hexact := hends.exact (by simp) fun y hy => by
      obtain rfl := Option.mem_unique hlast hy
      exact hp
    rw [Scan.chainAfter, hloc] at hexact
    exact hexact
  · obtain ⟨t, hmem, htext⟩ := hends.last x hlast hg
    obtain rfl := Option.mem_unique hmem hloc
    rw [htext]
    exact ht

/-- Where nothing narrows, the **candidates of the chain are suggested**, all of them. -/
theorem complete_eq_candidates {document : List Char} {cursor : Cursor} {d : Chain} {p : Position}
    {s : Schema} (hc : (cursor.locate document).chain = d)
    (ht : isFilterable (cursor.locate document).text.toList = false)
    (hd : d.top.kind ≠ some .invalid) (hp : Position.ofChain? d = some p)
    (hf : (TypeContext.ofLinks s d.links).fault = none) :
    complete s document cursor = candidates s document d (TypeContext.ofLinks s d.links) p := by
  have hvalid : d.valid = d := if_neg hd
  rw [complete_eq_offers_of_not_isFilterable ht, hc, offers_of_position (hvalid.symm ▸ hp), hvalid,
    hf]

/-- So it is at the end of a document. -/
theorem EndsAt.complete_eq {document : List Char} {d : Chain} {p : Position} {s : Schema}
    (h : EndsAt document d) (hd : d.top.kind ≠ some .invalid) (hp : Position.ofChain? d = some p)
    (hf : (TypeContext.ofLinks s d.links).fault = none) :
    complete s document (Cursor.atEnd document) =
      candidates s document d (TypeContext.ofLinks s d.links) p :=
  complete_eq_candidates h.chain h.text hd hp hf

end QueryAssist
