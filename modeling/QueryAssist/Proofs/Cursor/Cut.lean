import QueryAssist.Completion.Outcome
import QueryAssist.Proofs.Chain.Misfit
import QueryAssist.Proofs.Cursor.Ahead
import QueryAssist.Proofs.Cursor.Locate
import QueryAssist.Proofs.Cursor.Prefix
import QueryAssist.Proofs.Open.Selection

/-! # Cutting a document at a cursor

Where a token ends at a cursor, the text after it tells at most between an alias and a field, and
between the two ways to go on after three dots. Main definitions:

* **`cutAt`** — a document up to a place on one of its lines.
* **`Chain.Agree`** — two chains, one with more text to come, that differ only in such a choice.

Main statements: `Chain.Agree.react`, a piece that lies in the front keeps chains in agreement,
`Scan.exists_agree`, what that makes of a line, and `complete_cutAt`, what follows a cursor at the
end of a token does not change what is suggested there. -/

namespace QueryAssist

open Grammar

/-- Whether a link is a field, with an alias or without. -/
def Link.isField (l : Link) : Bool := l.kind == some .field || l.kind == some .aliasedField

/-- A link is a field if its construct is one, with an alias or without. -/
theorem Link.isField_iff {l : Link} :
    l.isField = true ↔ l.kind = some .field ∨ l.kind = some .aliasedField := by
  simp [Link.isField]

namespace Chain

variable {c d f : Chain} {ls : List Link} {x : Piece} {a : List Char}

/-! ### Places that gaps keep -/

/-- A chain **rests at** another one if at most an invalid token was read since. -/
def RestsAt (d c : Chain) : Prop := c = d ∨ c = d.enterInvalid

/-- A chain that rests at a settled one settles to it. -/
theorem RestsAt.settle_eq (h : RestsAt d c) (hd : d.IsSettled) : c.settle = d := by
  obtain rfl | rfl := h
  · exact hd.settle_eq
  · exact hd.settle_enter _

/-- What is no token leaves a chain at rest. -/
theorem restsAt_react (hx : ∀ t, x ≠ .token t) (c : Chain) (a : List Char) :
    RestsAt c.settle (react standard c x a).2 := by
  cases x with
  | gap => exact .inl rfl
  | unknown => exact .inr rfl
  | token t => exact absurd rfl (hx t)

/-- An invalid token is passed over for the chain around it. -/
theorem RestsAt.valid_eq (h : RestsAt d c) (hd : d.top.kind ≠ some .invalid) : c.valid = d := by
  obtain rfl | rfl := h
  · exact if_neg hd
  · rfl

/-! ### Inside a field -/

/-- A chain is **in a field** among some links if its innermost link is a field inside them, or it
rests at such a chain. -/
structure InField (ls : List Link) (c : Chain) : Prop where
  isField : c.settle.top.isField = true
  outer : c.settle.outer = ls
  rests : (c.top.isField = true ∧ c.outer = ls) ∨ RestsAt c.settle c

/-- What is no token leaves a chain in the field. -/
theorem InField.react (h : InField ls c) (hc : c.IsRegular) (hx : ∀ t, x ≠ .token t) :
    InField ls (react standard c x a).2 := by
  have hr := restsAt_react hx c a
  have hs := hr.settle_eq hc.settle
  exact ⟨hs ▸ h.isField, hs ▸ h.outer, .inr (hs.symm ▸ hr)⟩

/-- A field is no invalid token. -/
theorem kind_ne_invalid {l : Link} (h : l.isField = true) : l.kind ≠ some .invalid := by
  rcases Link.isField_iff.1 h with h | h <;> simp [h]

/-- In a field, fields can be suggested. -/
theorem position_of_isField (h : c.top.isField = true) : Position.ofChain? c = some .field := by
  rcases Link.isField_iff.1 h with h | h <;> simp [Position.ofChain?, h]

/-- So they can in a chain that rests in a field. -/
theorem InField.position (h : InField ls c) : Position.ofChain? c.valid = some .field := by
  obtain ⟨ht, -⟩ | hr := h.rests
  · rw [Chain.valid, if_neg (kind_ne_invalid ht)]
    exact position_of_isField ht
  · rw [hr.valid_eq (kind_ne_invalid h.isField)]
    exact position_of_isField h.isField

/-- A field adds nothing to what is selected from around it. -/
theorem context_of_isField (s : Schema) {l : Link} (h : l.isField = true) (ls : List Link) :
    (TypeContext.ofLinks s (l :: ls)).parent = (TypeContext.ofLinks s ls).parent ∧
      (TypeContext.ofLinks s (l :: ls)).fault = (TypeContext.ofLinks s ls).fault := by
  rcases Link.isField_iff.1 h with h | h <;> rw [TypeContext.ofLinks_cons h] <;>
    exact TypeContext.parent_enterField s _ _

/-- Nor does an invalid token. -/
theorem context_of_restsAt (s : Schema) (h : RestsAt d c) :
    TypeContext.ofLinks s c.links = TypeContext.ofLinks s d.links := by
  obtain rfl | rfl := h
  · rfl
  · rw [show d.enterInvalid.links = d.enterInvalid.top :: d.links from rfl,
      TypeContext.ofLinks_cons (show d.enterInvalid.top.kind = some .invalid from rfl)]
    rfl

/-- The fields are those of the type that the links around it give, and no fault comes up. -/
theorem InField.context (h : InField ls c) (s : Schema) :
    (TypeContext.ofLinks s c.links).parent = (TypeContext.ofLinks s ls).parent ∧
      (TypeContext.ofLinks s c.links).fault = (TypeContext.ofLinks s ls).fault := by
  obtain ⟨ht, ho⟩ | hr := h.rests
  · rw [← ho]
    exact context_of_isField s ht c.outer
  · rw [context_of_restsAt s hr, ← h.outer]
    exact context_of_isField s h.isField c.settle.outer

/-- In fields among the same links the same is offered. -/
theorem InField.offers_eq (hc : InField ls c) (hd : InField ls d) (s : Schema)
    (q p : List Char) : c.offers s q = d.offers s p := by
  obtain ⟨hcp, hcf⟩ := hc.context s
  obtain ⟨hdp, hdf⟩ := hd.context s
  rw [offers_of_position hc.position, offers_of_position hd.position, hcf, hdf]
  dsimp only [candidates]
  rw [hcp, hdp]

/-- The name of a field is accepted into it. -/
theorem inField_accept {k : RuleKind} {r : Rule} {t : Token} (hd : d.IsOpen)
    (hn : d.top.Names k) (hk : k = .field ∨ k = .aliasedField) (hr : standard k = some r)
    (ht : (Terminal.name "property").accepts t = true) :
    InField d.links ((d.enter k r).accept (.name "property") t) := by
  have hkind : t.kind = .name := beq_iff_eq.1 ht
  have hacc : (d.enter k r).accept (.name "property") t =
      ⟨{ kind := some k, name := some t.text, rule := some r, needsAdvance := true }, d.links⟩ := by
    rw [Chain.accept, if_neg (by rw [hkind]; rintro ⟨⟩)]
    rfl
  have ha : Admits t [] (d.enter k r) (.name "property") := by
    rcases hk with rfl | rfl <;> obtain rfl := Option.some.inj hr <;> exact ⟨rfl, rfl, ht⟩
  have hs := (hd.enter hn hr).settle_accept ha
  have hidle := hd.idle_top
  rw [hacc] at hs ⊢
  rcases hk with rfl | rfl <;> obtain rfl := Option.some.inj hr
  · refine ⟨?_, ?_, .inl ⟨rfl, rfl⟩⟩ <;> rw [hs] <;> rfl
  · refine ⟨?_, ?_, .inl ⟨rfl, rfl⟩⟩ <;> rw [hs] <;> rfl

/-! ### After three dots -/

/-- A chain **awaits the name of a spread** if it stands right after its three dots. -/
structure AwaitsSpread (f : Chain) : Prop where
  settled : f.IsSettled
  kind : f.top.kind = some .fragmentSpread
  step : f.top.step = 1

/-- Three dots are accepted into a spread. -/
theorem awaitsSpread_accept {r : Rule} {t : Token} (hd : d.IsOpen)
    (hk : d.top.Names .fragmentSpread) (hr : standard .fragmentSpread = some r)
    (ht : (Terminal.punctuation "...").accepts t = true) :
    AwaitsSpread ((d.enter .fragmentSpread r).accept (.punctuation "...") t) := by
  have hkind : t.kind = .punctuation := beq_iff_eq.1 (Bool.and_eq_true _ _ ▸ ht).1
  have ha : Admits t [] (d.enter .fragmentSpread r) (.punctuation "...") := by
    obtain rfl := Option.some.inj hr
    exact ⟨rfl, rfl, ht⟩
  have hs := (hd.enter hk hr).isSettled_record ha.wanted t.text
  obtain rfl := Option.some.inj hr
  rw [Chain.accept, if_pos hkind]
  exact ⟨hs.advance, rfl, rfl⟩

/-- A chain that awaits the name of a spread stands where fragments can be suggested. -/
theorem AwaitsSpread.position (h : AwaitsSpread f) (hc : RestsAt f c) :
    Position.ofChain? c.valid = some .fragmentSpread := by
  rw [hc.valid_eq (by simp [h.kind])]
  simp [Position.ofChain?, h.kind, h.step]

/-- The name of a spread keeps the place. -/
theorem AwaitsSpread.position_react (h : AwaitsSpread f) (hc : RestsAt f c) {t : Token}
    (ht : t.kind = .name) :
    Position.ofChain? (react standard c (.token t) a).2.valid = some .fragmentSpread := by
  have hset := hc.settle_eq h.settled
  have ho := h.settled.toIsOpen
  obtain ⟨k, r, hl⟩ := ho.isLive_top
  obtain rfl := Option.some.inj (hl.kind.symm.trans h.kind)
  obtain rfl := Option.some.inj hl.standard
  have hsep : f.top.needsSeparator = false := by
    refine Bool.eq_false_iff.2 fun hn => ?_
    obtain ⟨s, sep, hs⟩ := hl.separated hn
    rw [Link.currentStep?_eq_of_rule hl.rule, h.step] at hs
    cases hs
  have ha : Admits t a f (.name "def") := by
    refine ⟨by rw [hl.rule]; rfl, ?_, beq_iff_eq.2 ht⟩
    simp only [Link.wanted?, Link.expected?, hl.rule, hsep, h.step]
    rfl
  have hm := match?_eq_accepted_of_falls .refl ha (ho.match?_budget_ne_exhausted t a)
  have hne : t.kind ≠ .comment := by rw [ht]; rintro ⟨⟩
  rw [react, if_neg hne, hset, hm]
  dsimp only
  rw [Chain.accept, if_neg (by rw [ht]; rintro ⟨⟩)]
  change Position.ofChain?
    (Chain.valid ⟨{ f.top with name := some t.text, needsAdvance := true }, f.outer⟩) = _
  rw [Chain.valid, if_neg (by simp [h.kind])]
  simp [Position.ofChain?, h.kind, h.step]

/-! ### Agree chains -/

/-- The chain stands at the name of a fragment that is spread. -/
def AtSpread (c : Chain) : Prop := Position.ofChain? c.valid = some .fragmentSpread

/-- Elsewhere what is offered does not depend on the document. -/
theorem offers_eq_of_not_atSpread (h : ¬AtSpread c) (s : Schema) (q p : List Char) :
    c.offers s q = c.offers s p := by
  cases ho : Position.ofChain? c.valid with
  | none => rw [offers_of_position_none ho, offers_of_position_none ho]
  | some o =>
    rw [offers_of_position ho, offers_of_position ho]
    have hne : o ≠ .fragmentSpread := by
      rintro rfl
      exact h ho
    cases o <;> first | rfl | exact absurd rfl hne

/-- Two chains **agree** before a text that is cut, the first one with more text after the cut,
if they are the same or differ in a choice that the text after the cut made. -/
inductive Agree (v w : List Char) : Chain → Chain → Prop
  /-- The same chain. -/
  | same (c : Chain) : Agree v w c c
  /-- A field with an alias and one without, and nothing but a gap up to the cut. -/
  | field {ls : List Link} {c d : Chain} (hv : ∀ ch ∈ v, Lexer.isGap ch = true)
      (hw : (w.dropWhile Lexer.isGap).head? = some ':') (hc : InField ls c) (hd : InField ls d) :
      Agree v w c d
  /-- A spread and an inline fragment, and nothing but a gap and part of the word `on` up to the
  cut. -/
  | spread {f c d : Chain} (hv : v.dropWhile Lexer.isGap <+: ['o', 'n']) (hf : f.AwaitsSpread)
      (h : RestsAt f c ∨ RestsAt f d) : Agree v w c d
  /-- The name of a spread right before the cut. -/
  | named {c d : Chain} (hv : v = []) (h : AtSpread c ∨ AtSpread d) : Agree v w c d

variable {v w : List Char}

/-- A chain makes the same of a token with two texts after it, or the texts choose two different
selections and the token is accepted as the first of either one. -/
theorem react_ahead (hc : c.IsRegular) (t : Token) (a b : List Char) :
    Chain.react standard c (.token t) a = Chain.react standard c (.token t) b ∨
    ∃ (e : Chain) (r q : Rule), e.IsOpen ∧ (∀ a, e.top.Names (selectionOf t a)) ∧
      selectionOf t a ≠ selectionOf t b ∧
      standard (selectionOf t a) = some r ∧ standard (selectionOf t b) = some q ∧
      (firstOfSelection t).accepts t = true ∧
      (Chain.react standard c (.token t) a).2 =
        (e.enter (selectionOf t a) r).accept (firstOfSelection t) t ∧
      (Chain.react standard c (.token t) b).2 =
        (e.enter (selectionOf t b) q).accept (firstOfSelection t) t := by
  unfold Chain.react
  dsimp only
  split
  · exact .inl rfl
  · obtain he | ⟨e, r, q, he, hf, hne, hr, hq, ha, hl, hm⟩ :=
      match?_ahead (.inr hc.settle.toIsOpen) t a b c.settle.budget
    · rw [he]
      exact .inl rfl
    · obtain ⟨k, r', hlive⟩ := he.isLive_top
      obtain rfl := Option.some.inj (hlive.rule.symm.trans hf)
      rw [hl, hm]
      exact .inr ⟨e, r, q, he, fun a => names_of_wanted? hlive (wanted?_selection hlive t a), hne,
        hr, hq, ha, rfl, rfl⟩

/-- A token that lies in the front **keeps chains in agreement**. -/
theorem agree_react_token (hc : c.IsRegular) (t : Token) (v w : List Char) :
    Agree v w (Chain.react standard c (.token t) (v ++ w)).2
      (Chain.react standard c (.token t) v).2 := by
  obtain he | ⟨e, r, q, he, hn, hne, hr, hq, ha, hl, hm⟩ := react_ahead hc t (v ++ w) v
  · rw [he]
    exact .same _
  · rw [hl, hm]
    obtain ⟨ht, hgap, hw, hsl, hsr⟩ | ⟨ht, hv, h⟩ := selectionOf_append hne
    · rw [firstOfSelection, if_neg (mt beq_iff_eq.1 ht)] at ha ⊢
      exact .field hgap hw (inField_accept he (hn _) (.inr hsl) hr ha)
        (inField_accept he (hn _) (.inl hsr) hq ha)
    · rw [firstOfSelection, if_pos (beq_iff_eq.2 ht)] at ha ⊢
      obtain hs | hs := h
      · have hn := hn (v ++ w)
        rw [hs] at hr hn ⊢
        exact .spread hv (awaitsSpread_accept he hn hr ha) (.inl (.inl rfl))
      · have hn := hn v
        rw [hs] at hq hn ⊢
        exact .spread hv (awaitsSpread_accept he hn hq ha) (.inr (.inl rfl))

/-- What is read within the front **keeps chains in agreement**. -/
theorem Agree.react (h : Agree v w c d) (hc : c.IsRegular) (hd : d.IsRegular) (hv : v ≠ [])
    (hn : (Lexer.piece (v ++ w)).2 ≤ v.length) :
    Agree (v.drop (Lexer.piece (v ++ w)).2) w
      (Chain.react standard c (Lexer.piece (v ++ w)).1 (v.drop (Lexer.piece (v ++ w)).2 ++ w)).2
      (Chain.react standard d (Lexer.piece (v ++ w)).1 (v.drop (Lexer.piece (v ++ w)).2)).2 := by
  obtain ⟨ch, r, rfl⟩ := List.exists_cons_of_ne_nil hv
  cases h with
  | same c =>
    -- Only a token can choose by what is ahead of it.
    cases hx : (Lexer.piece (ch :: r ++ w)).1 with
    | gap => exact .same _
    | unknown => exact .same _
    | token t => exact agree_react_token hc t _ w
  | field hgap hw hc' hd' =>
    have hx := Lexer.piece_ne_token (hgap ch List.mem_cons_self) (r ++ w)
    exact .field (fun d hd => hgap d (List.mem_of_mem_drop hd)) hw (hc'.react hc hx)
      (hd'.react hd hx)
  | named hnil => exact absurd hnil hv
  | @spread f _ _ hon hf hrest =>
    by_cases hch : Lexer.isGap ch = true
    -- A gap goes by, and the rest of the front is still the word or part of it.
    · have hx := Lexer.piece_ne_token hch (r ++ w)
      have hhead : ∀ d ∈ ((ch :: r).dropWhile Lexer.isGap).head?, isIgnored d = false := by
        intro d hd
        have hmem := hon.subset (List.mem_of_head? hd)
        simp only [List.mem_cons, List.not_mem_nil, or_false] at hmem
        rcases hmem with rfl | rfl <;> decide
      have hdrop : ((ch :: r).drop (Lexer.piece (ch :: r ++ w)).2).dropWhile Lexer.isGap =
          (ch :: r).dropWhile Lexer.isGap := by
        rw [Lexer.piece_of_append hn, Lexer.dropWhile_drop_piece hch hhead]
      refine .spread (hdrop ▸ hon) hf (hrest.imp (fun h => ?_) fun h => ?_)
      · exact h.settle_eq hf.settled ▸ restsAt_react hx _ _
      · exact h.settle_eq hf.settled ▸ restsAt_react hx _ _
    · -- The rest of the front is the word or part of it, which is read whole.
      rw [List.dropWhile_cons_of_neg hch] at hon
      obtain rfl : ch = 'o' := (List.cons_prefix_cons.1 hon).1
      have hname : ∀ d ∈ r, Lexer.isNameChar d = true := by
        intro d hd
        obtain rfl := List.mem_singleton.1 ((List.cons_prefix_cons.1 hon).2.subset hd)
        decide
      have hp : Lexer.piece ('o' :: r ++ w) = _ := Lexer.piece_name (by decide) (r ++ w)
      rw [hp]
      refine .named (List.drop_eq_nil_iff.2 ?_) (hrest.imp (hf.position_react · rfl)
        (hf.position_react · rfl))
      rw [List.takeWhile_append_of_pos hname]
      simp

end Chain

namespace Scan

open Chain

variable {row : Nat} {s r : Stream} {c d : Chain} {v w : List Char} {t : PlacedToken}

/-- The tokens of a line are the next piece and those after it. -/
theorem exists_lineTokens_eq (row : Nat) (hc : c.IsRegular) (hs : s.rest ≠ []) :
    ∃ style, (Chain.react standard c (Lexer.piece s.rest).1
        (s.rest.drop (Lexer.piece s.rest).2)).1 = .ok style ∧
      lineTokens row s c =
        place (s.take (Lexer.piece s.rest).2)
          (Chain.react standard c (Lexer.piece s.rest).1
            (s.rest.drop (Lexer.piece s.rest).2)).2 style row ::
        lineTokens row (s.take (Lexer.piece s.rest).2)
          (Chain.react standard c (Lexer.piece s.rest).1
            (s.rest.drop (Lexer.piece s.rest).2)).2 := by
  obtain ⟨style, hstyle⟩ := (hc.read s).2
  rw [Chain.read_eq standard c hs] at hstyle
  refine ⟨style, hstyle, ?_⟩
  rw [lineTokens, dif_neg hs, Chain.read_eq standard c hs]
  dsimp only at hstyle ⊢
  rw [styleOf, hstyle]

/-- A regular chain stays regular, whatever the next piece of a text is. -/
theorem isRegular_react (hc : c.IsRegular) (hs : s.rest ≠ []) :
    (Chain.react standard c (Lexer.piece s.rest).1
      (s.rest.drop (Lexer.piece s.rest).2)).2.IsRegular := by
  have := (hc.read s).1
  rwa [Chain.read_eq standard c hs] at this

/-- A token that ends in the front of a line is not before the end of the first piece. -/
theorem piece_length_le_of_mem (hc : c.IsRegular) (hs : s.rest ≠ [])
    (ht : t ∈ lineTokens row s c) : s.position + (Lexer.piece s.rest).2 ≤ t.stop := by
  have hle := Lexer.piece_length_le hs
  have hpos : (s.take (Lexer.piece s.rest).2).position = s.position + (Lexer.piece s.rest).2 := by
    rw [Stream.position_take]
    omega
  obtain ⟨y, -, hline⟩ := exists_lineTokens_eq row hc hs
  rw [hline] at ht
  rcases List.mem_cons.1 ht with rfl | ht
  · exact hpos.ge
  · exact (hpos.symm.le.trans (position_lt_of_mem_lineTokens ht).le)

/-- **One piece before a cut**: it is the first one of the whole line and of the cut one, and the
chains agree before what is left. -/
theorem exists_agree_piece (row : Nat) (hs : s.rest = v ++ w) (hr : r.rest = v)
    (h : Agree v w c d) (hc : c.IsRegular) (hd : d.IsRegular) (hv : v ≠ [])
    (hn : (Lexer.piece (v ++ w)).2 ≤ v.length) :
    ∃ (c' d' : Chain) (y z : String), c'.IsRegular ∧ d'.IsRegular ∧
      Agree (v.drop (Lexer.piece (v ++ w)).2) w c' d' ∧
      lineTokens row s c = place (s.take (Lexer.piece (v ++ w)).2) c' y row ::
        lineTokens row (s.take (Lexer.piece (v ++ w)).2) c' ∧
      lineTokens row r d = place (r.take (Lexer.piece (v ++ w)).2) d' z row ::
        lineTokens row (r.take (Lexer.piece (v ++ w)).2) d' := by
  have hsne : s.rest ≠ [] := by
    rw [hs]
    exact List.append_ne_nil_of_left_ne_nil hv w
  have hrne : r.rest ≠ [] := by rwa [hr]
  obtain ⟨y, -, hys⟩ := exists_lineTokens_eq row hc hsne
  obtain ⟨z, -, hzr⟩ := exists_lineTokens_eq row hd hrne
  have hcs := isRegular_react hc hsne
  have hdr := isRegular_react hd hrne
  have hpiece : Lexer.piece v = Lexer.piece (v ++ w) := (Lexer.piece_of_append hn).symm
  rw [hs, List.drop_append_of_le_length hn] at hys hcs
  rw [hr, hpiece] at hzr hdr
  exact ⟨_, _, y, z, hcs, hdr, h.react hc hd hv hn, hys, hzr⟩

/-- **The tokens up to a cut**: one that ends there is the last one of the cut line, and the chains
after the two agree. -/
theorem exists_agree (hs : s.rest = v ++ w) (hr : r.rest = v) (hp : r.position = s.position)
    (h : Agree v w c d) (hc : c.IsRegular) (hd : d.IsRegular) (hv : v ≠ [])
    (ht : t ∈ lineTokens row s c) (hstop : t.stop = s.position + v.length) :
    ∃ u, (lineTokens row r d).getLast? = some u ∧ u.start = t.start ∧ u.text = t.text ∧
      Agree [] w t.chain u.chain := by
  -- The induction is on the front of the line that is left.
  induction hlen : v.length using Nat.strongRecOn generalizing s r c d v with
  | ind n ih =>
    subst hlen
    have hsne : s.rest ≠ [] := by
      rw [hs]
      exact List.append_ne_nil_of_left_ne_nil hv w
    -- The piece that is read next lies in the front, since the token ends at its end.
    have hn : (Lexer.piece (v ++ w)).2 ≤ v.length := by
      have := piece_length_le_of_mem hc hsne ht
      rw [hs] at this
      omega
    have hpos := Lexer.piece_length_pos (v ++ w)
    obtain ⟨c', d', y, z, hc', hd', hagree, hys, hzr⟩ := exists_agree_piece row hs hr h hc hd hv hn
    generalize (Lexer.piece (v ++ w)).2 = n at *
    have hspos : (s.take n).position = s.position + n := Stream.position_take_of_append hs hn
    have hrpos : (r.take n).position = s.position + n := by
      rw [Stream.position_take, hp, hr]
      omega
    rw [hys] at ht
    rw [hzr]
    rcases List.mem_cons.1 ht with rfl | ht
    · have hnv : n = v.length := by
        change (s.take n).position = _ at hstop
        omega
      have hdrop : v.drop n = [] := List.drop_eq_nil_iff.2 hnv.ge
      have hend : (r.take n).rest = [] := by rw [Stream.rest_take, hr, hdrop]
      rw [lineTokens, dif_pos hend]
      refine ⟨_, rfl, hp, ?_, hdrop ▸ hagree⟩
      change String.ofList (r.rest.take n) = String.ofList (s.rest.take n)
      rw [hr, hs, List.take_append_of_le_length hn]
    · have hlt := position_lt_of_mem_lineTokens ht
      have hdrop : v.drop n ≠ [] := by
        rw [ne_eq, List.drop_eq_nil_iff]
        omega
      obtain ⟨u, hu, hstart, htext, hu'⟩ := ih (v.drop n).length
        (by rw [List.length_drop]; omega)
        (Stream.rest_take_of_append hs hn) (by rw [Stream.rest_take, hr])
        (hrpos.trans hspos.symm) hagree hc' hd' hdrop ht
        (by rw [List.length_drop]; omega) rfl
      refine ⟨u, ?_, hstart, htext, hu'⟩
      rw [List.getLast?_cons, hu]
      rfl

/-- Among tokens that end further and further right, one is the last that ends where it does. -/
theorem getLast?_filter_stop {ts : List PlacedToken}
    (h : ts.Pairwise fun t u => t.stop < u.stop) (ht : t ∈ ts) :
    (ts.filter fun u => decide ((u.stop : Int) ≤ t.stop)).getLast? = some t := by
  obtain ⟨as, bs, rfl⟩ := List.append_of_mem ht
  have hbs : bs.filter (fun u => decide ((u.stop : Int) ≤ t.stop)) = [] := by
    refine List.filter_eq_nil_iff.2 fun u hu => ?_
    have := (List.pairwise_cons.1 (List.pairwise_append.1 h).2.1).1 u hu
    simpa using this
  rw [List.filter_append, List.filter_cons_of_pos (by simp), hbs, List.getLast?_concat]

end Scan

/-! ### The cut document -/

/-- No line has a line break in it. -/
theorem notMem_of_mem_splitLines {cs l : List Char} (h : l ∈ splitLines cs) : '\n' ∉ l := by
  induction cs generalizing l with
  | nil =>
    obtain rfl := List.mem_singleton.1 h
    exact List.not_mem_nil
  | cons c cs ih =>
    by_cases hc : c = '\n'
    · subst hc
      rw [splitLines_feed] at h
      rcases List.mem_cons.1 h with rfl | h
      · exact List.not_mem_nil
      · exact ih h
    · obtain ⟨m, ms, hm⟩ := List.exists_cons_of_ne_nil (splitLines_ne_nil cs)
      rw [splitLines, if_neg hc, hm] at h
      rw [hm] at ih
      rcases List.mem_cons.1 h with rfl | h
      · rintro hn
        rcases List.mem_cons.1 hn with rfl | hn
        · exact hc rfl
        · exact ih List.mem_cons_self hn
      · exact ih (List.mem_cons_of_mem _ h)

/-- Lines that are joined are the lines of the text. -/
theorem splitLines_joinLines {ls : List (List Char)} (hne : ls ≠ []) (h : ∀ l ∈ ls, '\n' ∉ l) :
    splitLines (joinLines ls) = ls := by
  induction ls with
  | nil => exact absurd rfl hne
  | cons l ls ih =>
    have hl := h l List.mem_cons_self
    cases ls with
    | nil => simpa using splitLines_append hl splitLines_nil
    | cons m ms =>
      have hms := ih (List.cons_ne_nil _ _) fun l hl => h l (List.mem_cons_of_mem _ hl)
      rw [joinLines_cons_cons, splitLines_append hl (splitLines_feed _), hms, List.append_nil]

/-- Lines that are joined in two parts, the last of the one and the first of the other, are one
line. -/
theorem joinLines_append (ls : List (List Char)) (l k : List Char) (ms : List (List Char)) :
    joinLines (ls ++ [l]) ++ joinLines (k :: ms) = joinLines (ls ++ (l ++ k) :: ms) := by
  induction ls with
  | nil => cases ms <;> simp
  | cons m ls ih =>
    cases ls with
    | nil => simpa using ih
    | cons m' ls => simpa using ih

/-- The lines of two texts, put together: the last one of the first text goes on as the first one of
the second. -/
theorem splitLines_append_lines {p q l k : List Char} {ls ms : List (List Char)}
    (hp : splitLines p = ls ++ [l]) (hq : splitLines q = k :: ms) :
    splitLines (p ++ q) = ls ++ (l ++ k) :: ms := by
  have hlines : ∀ m ∈ ls ++ [l], '\n' ∉ m := fun m hm => notMem_of_mem_splitLines (hp ▸ hm)
  have hmore : ∀ m ∈ k :: ms, '\n' ∉ m := fun m hm => notMem_of_mem_splitLines (hq ▸ hm)
  rw [← joinLines_splitLines p, ← joinLines_splitLines q, hp, hq, joinLines_append]
  refine splitLines_joinLines (by simp) fun m hm => ?_
  obtain hm | hm := List.mem_append.1 hm
  · exact hlines m (List.mem_append_left _ hm)
  · obtain rfl | hm := List.mem_cons.1 hm
    · exact fun h => (List.mem_append.1 h).elim (hlines l (by simp)) (hmore k List.mem_cons_self)
    · exact hmore m (List.mem_cons_of_mem _ hm)

/-- What is added at the end of a document without a line break is added to its last line. -/
theorem splitLines_append_of_notMem {q l p : List Char} {ls : List (List Char)}
    (hl : splitLines q = ls ++ [l]) (hp : '\n' ∉ p) : splitLines (q ++ p) = ls ++ [l ++ p] := by
  refine splitLines_append_lines hl ?_
  simpa using splitLines_append hp splitLines_nil

/-- The document **cut** at a column of a row: the rows before it, and of the row itself what is
left of the column. -/
def cutAt (document : List Char) (row column : Nat) : List Char :=
  joinLines ((splitLines document).take row ++ [((splitLines document)[row]?.getD []).take column])

/-- The lines of a document that is cut are those before the row, and what is left of it. -/
theorem splitLines_cutAt {document l : List Char} {ls ms : List (List Char)}
    (hl : splitLines document = ls ++ l :: ms) (column : Nat) :
    splitLines (cutAt document ls.length column) = ls ++ [l.take column] := by
  have hlines : (splitLines document).take ls.length ++
      [((splitLines document)[ls.length]?.getD []).take column] = ls ++ [l.take column] := by
    simp [hl]
  rw [cutAt, hlines]
  refine splitLines_joinLines (by simp) fun m hm => ?_
  rcases List.mem_append.1 hm with hm | hm
  · exact notMem_of_mem_splitLines (hl ▸ List.mem_append_left _ hm)
  · obtain rfl := List.mem_singleton.1 hm
    have hmem : l ∈ splitLines document := by rw [hl]; simp
    have hn : '\n' ∉ l := notMem_of_mem_splitLines hmem
    exact fun h => hn (List.mem_of_mem_take h)

/-- Where chains agree at a cut, apart from the names of spreads, **the same is offered**. -/
theorem Chain.Agree.offers_eq {w : List Char} {c d : Chain} (h : Agree [] w c d)
    (hc : ¬AtSpread c) (hd : ¬AtSpread d) (s : Schema) (q p : List Char) :
    c.offers s q = d.offers s p := by
  cases h with
  | same => exact offers_eq_of_not_atSpread hc s q p
  | field hv hw hcf hdf => exact hcf.offers_eq hdf s q p
  | spread hv hf h => exact (h.elim (fun h => hc (hf.position h)) fun h => hd (hf.position h)).elim
  | named hv h => exact (h.elim hc hd).elim

/-- **What follows a cursor at the end of a token does not matter.** If the document is cut there,
the cursor is at the end of what is left, and the same is suggested, unless the one or the other is
at the name of a fragment that is spread. -/
theorem complete_cutAt (s : Schema) {q : List Char} {r c : Nat}
    (ht : ∃ t ∈ Scan.tokens q, t.row = r ∧ t.stop = c)
    (hq : Position.ofChain? (Cursor.locate ⟨r, c⟩ q).chain.valid ≠ some .fragmentSpread)
    (hcut : Position.ofChain? ((Cursor.atEnd (cutAt q r c)).locate (cutAt q r c)).chain.valid ≠
      some .fragmentSpread) :
    Cursor.atEnd (cutAt q r c) = ⟨r, c⟩ ∧
      complete s q ⟨r, c⟩ = complete s (cutAt q r c) ⟨r, c⟩ := by
  obtain ⟨t, htmem, hrow, rfl⟩ := ht
  obtain ⟨l, hl, -, hstop⟩ := Scan.row_of_mem_tokensFrom htmem
  obtain ⟨ls, ms, hlines, hlen⟩ := exists_append_of_getElem? hl
  obtain rfl : ls.length = r := by omega
  have hcutlines := splitLines_cutAt hlines t.stop
  have htake : (l.take t.stop).length = t.stop := List.length_take_of_le hstop
  have hend : Cursor.atEnd (cutAt q ls.length t.stop) = ⟨ls.length, t.stop⟩ := by
    simp [Cursor.atEnd, hcutlines, hstop]
  have hregular : (Scan.chainAfter .start (Scan.tokensFrom 0 .start ls)).IsRegular :=
    Scan.isRegular_chainAfter_tokensFrom Chain.isRegular_start
  have hmem := Scan.mem_lineTokens_of_row hlines htmem hrow
  have hpos : 0 < t.stop := Scan.position_lt_of_mem_lineTokens hmem
  have hne : l.take t.stop ≠ [] := List.length_pos_iff.1 (htake.symm ▸ hpos)
  -- The line and its front are read in agreement, up to the token that ends at the cut.
  obtain ⟨u, hu, hstart, htext, hagree⟩ := Scan.exists_agree (s := .ofLine l)
    (r := .ofLine (l.take t.stop)) (List.take_append_drop t.stop l).symm rfl rfl (.same _)
    hregular hregular hne hmem (by simpa using htake.symm)
  have hloc : Cursor.locate ⟨ls.length, t.stop⟩ q = t := by
    rw [Cursor.locate_row hlines, Scan.tokenAt_eq hlines]
    dsimp only
    rw [Scan.getLast?_filter_stop (Scan.pairwise_lineTokens ..) hmem]
    rfl
  have hlocu : Cursor.locate ⟨ls.length, t.stop⟩ (cutAt q ls.length t.stop) = u := by
    rw [Cursor.locate_row hcutlines, Scan.tokenAt_of_le hcutlines (Int.ofNat_le.2 htake.le), hu]
    rfl
  refine ⟨hend, ?_⟩
  rw [hend, hlocu] at hcut
  rw [hloc] at hq
  have hurow : u.row = t.row :=
    (Scan.row_of_mem_lineTokens (List.mem_of_getLast? hu)).1.trans hrow.symm
  rw [complete_eq_offers, complete_eq_offers, hloc, hlocu, hurow, hstart, htext,
    hagree.offers_eq hq hcut s q (cutAt q ls.length t.stop)]

/-- A colon after the cursor makes the word before it an alias. Without the colon it is a field, and
the same is suggested. -/
theorem complete_cutAt_alias :
    ∃ (s : Schema) (q : List Char), q = "\x7b u : user".toList ∧
      (∃ t ∈ Scan.tokens q, t.row = 0 ∧ t.stop = 3) ∧
      (Cursor.locate ⟨0, 3⟩ q).chain.top.kind = some .aliasedField ∧
      (Cursor.locate ⟨0, 3⟩ (cutAt q 0 3)).chain.top.kind = some .field ∧
      complete s q ⟨0, 3⟩ = .ok [{ text := "user", type := some (.named "User") }] ∧
      Cursor.atEnd (cutAt q 0 3) = ⟨0, 3⟩ ∧
      complete s q ⟨0, 3⟩ = complete s (cutAt q 0 3) ⟨0, 3⟩ := by
  let s : Schema := {
    query := some "Query",
    types := [{ name := "Query", body := .object [] [
      { name := "id", type := .named "ID" }, { name := "user", type := .named "User" }] }] }
  have ht : ∃ t ∈ Scan.tokens "\x7b u : user".toList, t.row = 0 ∧ t.stop = 3 := by decide +kernel
  exact ⟨s, _, rfl, ht, by decide +kernel, by decide +kernel, by decide +kernel,
    complete_cutAt s ht (by decide +kernel) (by decide +kernel)⟩

end QueryAssist
