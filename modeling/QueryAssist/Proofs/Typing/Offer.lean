import QueryAssist.Proofs.Chain.Around
import QueryAssist.Proofs.Typing.Suggestion

/-! # What is offered once an advance is made up for

An advance that is due changes the place of the innermost construct only, or leaves constructs that
their last step completes; whether it is made up for matters only where it changes the position.
Main definition:

* **`Link.SaysAs`** — links that differ in their places only.

Main statement: `Chain.IsReached.offers_settle`, what readings lead to offers the same once it is
settled, if the position is the same. -/

namespace QueryAssist

open Grammar

namespace Chain

variable {c d : Chain}

/-- A placed chain is inside the grammar. -/
theorem IsPlaced.kind_ne_invalid (h : c.IsPlaced) : c.top.kind ≠ some .invalid := by
  obtain ⟨k, r, hl⟩ := h.nested.isLive_head
  rw [hl.kind]
  rintro ⟨⟩
  cases hl.standard

theorem IsPlaced.valid_eq (h : c.IsPlaced) : c.valid = c := if_neg h.kind_ne_invalid

/-- A gap and a token outside the grammar change nothing of what is offered. -/
theorem RestsAt.offers_eq (h : RestsAt d c) (hd : d.IsSettled) (s : Schema) (q : List Char) :
    c.offers s q = d.offers s q := by
  simp only [offers, h.valid_eq hd.isPlaced.kind_ne_invalid, hd.isPlaced.valid_eq,
    context_of_restsAt s h]

end Chain

/-- Of the links around a spread only the fragment that they are in matters. -/
theorem Candidates.spreads_congr (s : Schema) (parent : Option TypeDef) {ls ms : List Link}
    (h : enclosingFragment? ls = enclosingFragment? ms) (hs : List FragmentHead) :
    spreads s parent ls hs = spreads s parent ms hs := by
  unfold spreads
  rw [h]

/-- Two links **say the same** if only their places differ. -/
structure Link.SaysAs (l m : Link) : Prop where
  kind : l.kind = m.kind
  name : l.name = m.name
  type : l.type = m.type

namespace Link.SaysAs

open TypeContext

variable {l m : Link}

/-- Links that say the same enter the same context. -/
theorem ofLinks_eq (h : l.SaysAs m) (s : Schema) (ls : List Link) :
    ofLinks s (l :: ls) = ofLinks s (m :: ls) := by
  simp only [ofLinks, enter, h.kind, h.name, h.type]

/-- Links that say the same are in the same fragment. -/
theorem enclosingFragment?_eq (h : l.SaysAs m) (ls : List Link) :
    Candidates.enclosingFragment? (l :: ls) = Candidates.enclosingFragment? (m :: ls) := by
  unfold Candidates.enclosingFragment? definitionLink? openLinks
  cases hk : m.kind with
  | none => simp [h.kind, hk]
  | some k =>
    simp only [List.takeWhile_cons, h.kind, hk, Option.isSome_some, if_true, List.find?_cons,
      Option.any_some]
    cases k.isDefinition <;> simp [h.kind, h.name, hk]

/-- The same is collected at links that say the same. -/
theorem candidates_eq (h : l.SaysAs m) (ls : List Link) (s : Schema) (q : List Char)
    (ctx : TypeContext) (o : Position) :
    candidates s q ⟨l, ls⟩ ctx o = candidates s q ⟨m, ls⟩ ctx o := by
  cases o with
  | fragmentSpread =>
    exact congrArg Except.ok (Candidates.spreads_congr s ctx.parent (h.enclosingFragment?_eq ls) _)
  | _ => rfl

/-- The same is offered at them where they stand for the same position. -/
theorem offers_eq (h : l.SaysAs m) {ls : List Link} (hl : Chain.valid ⟨l, ls⟩ = ⟨l, ls⟩)
    (hm : Chain.valid ⟨m, ls⟩ = ⟨m, ls⟩)
    (ho : Position.ofChain? ⟨l, ls⟩ = Position.ofChain? ⟨m, ls⟩) (s : Schema) (q : List Char) :
    Chain.offers s q ⟨l, ls⟩ = Chain.offers s q ⟨m, ls⟩ := by
  simp only [Chain.offers, hl, hm, ho, Chain.links_mk, h.ofLinks_eq, h.candidates_eq]

/-- A link says the same whether or not it was advanced. -/
theorem resume (l : Link) (b : Bool) : SaysAs { l with needsAdvance := b } l.resume := by
  unfold Link.resume
  repeat' split
  all_goals exact ⟨rfl, rfl, rfl⟩

end Link.SaysAs

/-! ### Members of an enum -/

/-- What is **known of an enum** is the same inside one of its members. -/
theorem literals_enterEnumValue (s : Schema) (ctx : TypeContext) (m : Option String) :
    (match (ctx.enterEnumValue s m).fault with
      | some f => Except.error f
      | none => Candidates.literals s (ctx.enterEnumValue s m).input) =
    match ctx.fault with
      | some f => .error f
      | none => Candidates.literals s ctx.input := by
  obtain ⟨hi, hf⟩ := Chain.enterEnumValue_eq s ctx m
  by_cases hm : ∃ f, s.enumMembers? ctx.input = some (.faulty f)
  · obtain ⟨f, hm⟩ := hm
    rw [hi, Candidates.literals_of_faulty hm]
    unfold TypeContext.enterEnumValue
    rw [hm]
    cases written? m <;> cases ctx.fault <;> rfl
  · rw [hi, hf fun f h => hm ⟨f, h⟩]

/-! ### The last step of a construct -/

/-- Whether a terminal takes a **mark**, and no other token. -/
def Terminal.isMark (e : Terminal) : Bool :=
  match e.matcher with
  | .exactly .punctuation _ => true
  | _ => false

/-- What a mark accepts is punctuation. -/
theorem Terminal.kind_of_isMark {e : Terminal} {t : Token} (h : e.isMark = true)
    (ha : e.accepts t = true) : t.kind = .punctuation := by
  unfold isMark at h
  unfold accepts at ha
  split at h
  · next text hm =>
    rw [hm] at ha
    simp only [Matcher.accepts, Bool.and_eq_true, beq_iff_eq] at ha
    exact ha.1
  · cases h

/-- Whether a step takes one token that is no mark. -/
def Step.takesWord : Step → Bool
  | terminal e => !e.isMark
  | _ => false

/-- At a last step that takes another token than a mark there is a position in the members of enums
and the names of types only. -/
theorem Grammar.ofPlace?_last {k : RuleKind} {ss : List Step} {x : Step} {e : Terminal}
    (h : standard k = some (.steps ss)) {i : Nat} (hi : i + 1 = ss.length) (hx : ss[i]? = some x)
    (hb : x.body = .terminal e) (he : e.isMark = false) (hk : k ≠ .namedType) :
    k = .enumValue ∨ Position.ofPlace? k i = none := by
  have := of_allSteps (p := fun k ss => !(ss[ss.length - 1]?.any fun x => x.body.takesWord) ||
    k == .enumValue || k == .namedType || (Position.ofPlace? k (ss.length - 1)).isNone)
    (by decide) h
  rw [← hi, Nat.add_sub_cancel, hx] at this
  simpa [hb, Step.takesWord, he, hk] using this

namespace Link

variable {l : Link} {k : RuleKind} {ss : List Step}

/-- A construct is complete after its last step only, which is not one that is repeated. -/
theorem IsLive.last_of_resume (h : l.IsLive k (.steps ss)) (hc : l.resume.isComplete = true) :
    l.step + 1 = ss.length ∧ ∃ x, ss[l.step]? = some x ∧ x.isList = false := by
  have hp : l.step < ss.length := h.placed
  obtain ⟨s, -, hr⟩ | ⟨s, sep, -, hr⟩ | ⟨hno, hr⟩ := h.resume_cases
  · rw [hr, h.isComplete_eq_false] at hc
    cases hc
  · rw [hr] at hc
    cases h.isComplete_eq_false.symm.trans hc
  · have hx : ss[l.step]? = some ss[l.step] := List.getElem?_eq_getElem hp
    refine ⟨?_, _, hx, hno _ ((currentStep?_eq_of_rule h.rule).trans hx)⟩
    rw [hr] at hc
    simp only [isComplete, Link.next, h.rule, Option.any_some, Rule.length,
      decide_eq_true_eq] at hc
    omega

end Link

namespace Chain

open TypeContext

variable {c d : Chain} {t : Token} {a : List Char} {e : Terminal} {k : RuleKind}

/-- After the name of a type nothing can be suggested. -/
theorem position_after_namedType (h : d.IsSettled) (hk : d.top.kind = some .namedType) :
    Position.ofChain? (d.advance true) = none := by
  obtain ⟨k, r, hl⟩ := h.isLive_top
  obtain rfl := Option.some.inj (hl.kind.symm.trans hk)
  have hi : d.top.step = 0 := by
    obtain rfl := Option.some.inj hl.standard
    exact Nat.lt_one_iff.1 hl.placed
  obtain ⟨k', hk', hp⟩ := resumesIn_unwind (n := 4)
    (p := fun k i => k != .namedType && (Position.ofPlace? k i).isNone) h.toIsOpen.plain h.nested hl
    (by rw [hi]; decide)
  rw [Bool.and_eq_true, bne_iff_ne] at hp
  rw [show d.advance true = unwind d.top.resume d.outer from
    advance_true_eq (by rw [hl.rule]; rfl), Position.ofChain?_eq_ofPlace? hk' hp.1]
  exact Option.isNone_iff_eq_none.1 hp.2

/-- Whatever wants a value other than a list is over with it, and so is what is around that. -/
theorem eq_listValue_of_position {q : Link} {qs : List Link} {r : Rule} (hp : Plain (q :: qs))
    (hs : Nested (q :: qs)) (hq : q.IsLive k r) (hm : (k, q.step) ∈ namers .value)
    (ho : Position.ofChain? (unwind q.resume qs) = some .inputValue) :
    k = .listValue ∧ q.step = 1 := by
  have hall : ∀ x ∈ namers .value, x = (.listValue, 1) ∨ resumesIn (fun k i =>
      k != .namedType && Position.ofPlace? k i != some .inputValue) 4 x.1 x.2 = true := by
    decide
  refine Prod.mk.inj ((hall _ hm).resolve_right fun hr => ?_)
  obtain ⟨k', hk', hpos⟩ := resumesIn_unwind hp hs hq hr
  rw [Bool.and_eq_true, bne_iff_ne, bne_iff_ne] at hpos
  rw [Position.ofChain?_eq_ofPlace? hk' hpos.1] at ho
  exact hpos.2 ho

/-- After the member of an enum another value can only be suggested **in a list**, which goes on
with it. -/
theorem advance_after_enumValue (h : d.IsSettled) (hk : d.top.kind = some .enumValue)
    (ho : Position.ofChain? (d.advance true) = some .inputValue) :
    ∃ p q ps, d.outer = p :: q :: ps ∧ p.kind = some .value ∧ d.advance true = ⟨q, ps⟩ := by
  obtain ⟨k, r, hl⟩ := h.isLive_top
  obtain rfl := Option.some.inj (hl.kind.symm.trans hk)
  obtain rfl := Option.some.inj hl.standard
  obtain ⟨p, ps, kp, rp, hout, hp, hmp, hs⟩ := Nested.exists_around h.nested hk (by decide)
  rw [show namers .enumValue = [(.value, 0)] by decide, List.mem_singleton] at hmp
  obtain ⟨rfl, -⟩ := Prod.mk.inj hmp
  obtain rfl := Option.some.inj hp.standard
  obtain ⟨q, qs, kq, rq, rfl, hq, hmq, hs'⟩ := hs.exists_around hp.kind (by decide)
  have hplain : Plain (d.top :: p :: q :: qs) := hout ▸ h.toIsOpen.plain
  -- The member and the value that it stands for are both complete.
  have htop : d.top.resume.isComplete = true := by
    have hi : d.top.step = 0 := Nat.lt_one_iff.1 hl.placed
    have hafter := hl.after?_eq
    rw [hi] at hafter
    by_contra hc
    rw [if_neg hc] at hafter
    cases hafter
  have hvalue : p.resume.isComplete = true := by
    obtain hc | ⟨ss, hr, -⟩ := hp.resume
    · exact hc
    · cases hr
  have hadv : d.advance true = unwind q.resume qs := by
    rw [show d.advance true = unwind d.top.resume d.outer from
      advance_true_eq (by rw [hl.rule]; rfl), hout,
      unwind_cons htop ((Link.needsAdvance_resume _).trans hplain.head.1) hplain.tail,
      unwind_cons hvalue ((Link.needsAdvance_resume _).trans hplain.tail.head.1) hplain.tail.tail]
  rw [hadv] at ho ⊢
  obtain ⟨rfl, hi⟩ := eq_listValue_of_position hplain.tail.tail hs' hq hmq ho
  obtain rfl := Option.some.inj hq.standard
  have hr : q.resume = q := by
    have hcur : q.currentStep? = some (.list (.rule .value)) := by
      rw [Link.currentStep?_eq_of_rule hq.rule, hi]
      rfl
    simp [Link.resume, hq.rule, hcur]
  refine ⟨p, q, qs, hout, hp.kind, ?_⟩
  rw [hr, unwind_eq_self hq.isComplete_eq_false]

/-- The next member of an enum is offered like the one before. -/
theorem IsSettled.offers_enumValue (h : d.IsSettled) (hk : d.top.kind = some .enumValue)
    (hp : Position.ofChain? d.defer = some .inputValue)
    (ho : Position.ofChain? (d.advance true) = some .inputValue) (s : Schema) (q : List Char) :
    d.defer.offers s q = (d.advance true).offers s q := by
  obtain ⟨p, q', ps, hout, hpk, hadv⟩ := advance_after_enumValue h hk ho
  have hctx : ofLinks s d.defer.links = (ofLinks s (q' :: ps)).enterEnumValue s d.top.name := by
    have hcons : ofLinks s d.defer.links = _ := ofLinks_cons hk d.outer
    rw [hcons, hout, ofLinks_cons hpk]
    rfl
  rw [offers_of_position (by rw [h.isPlaced_defer.valid_eq, hp]),
    offers_of_position (by rw [h.advance.isPlaced.valid_eq, ho]), hctx, hadv]
  exact literals_enterEnumValue s (ofLinks s (q' :: ps)) d.top.name

/-- **A token whose advance is due** offers the same once it is settled, if the position is the
same. -/
theorem IsSettled.offers_defer (h : d.IsSettled) (hw : d.top.wanted? t a = some (.terminal e))
    (ha : e.accepts t = true) (hk : t.kind ≠ .punctuation)
    (hp : Position.ofChain? d.defer = Position.ofChain? (d.advance true)) (s : Schema)
    (q : List Char) : d.defer.offers s q = (d.advance true).offers s q := by
  obtain ⟨k, r, hl⟩ := h.isLive_top
  obtain ⟨ss, hss⟩ := h.steps
  obtain rfl := Option.some.inj (hl.rule.symm.trans hss)
  have hvalid : d.defer.valid = d.defer := h.isPlaced_defer.valid_eq
  have hvalid' : (d.advance true).valid = d.advance true := h.advance.isPlaced.valid_eq
  cases hc : d.top.resume.isComplete with
  | false =>
    -- Only the place of the innermost construct is another one.
    have hadv : d.advance true = ⟨d.top.resume, d.outer⟩ :=
      (advance_true_eq (by rw [hl.rule]; rfl)).trans (unwind_eq_self hc)
    rw [hadv] at hp hvalid' ⊢
    exact (Link.SaysAs.resume d.top true).offers_eq hvalid hvalid' hp s q
  | true =>
    cases ho : Position.ofChain? d.defer with
    | none =>
      rw [offers_of_position_none (by rw [hvalid, ho]),
        offers_of_position_none (by rw [hvalid', ← hp, ho])]
    | some o =>
      obtain ⟨hlast, x, hx, hlist⟩ := hl.last_of_resume hc
      have hsep : x.separator? = none := by cases x <;> first | rfl | cases hlist
      have hbody : x.body = .terminal e :=
        Option.some.inj ((hl.wanted?_eq hx hsep t a).symm.trans hw)
      have hmark : e.isMark = false :=
        Bool.eq_false_iff.2 fun hm => hk (Terminal.kind_of_isMark hm ha)
      have hne : k ≠ .namedType := by
        rintro rfl
        rw [hp, position_after_namedType h hl.kind] at ho
        cases ho
      have hplace : Position.ofChain? d.defer = Position.ofPlace? k d.top.step :=
        Position.ofChain?_eq_ofPlace? (c := d.defer) hl.kind hne
      obtain rfl | hnone := ofPlace?_last hl.standard hlast hx hbody hmark hne
      · obtain rfl : Position.inputValue = o := Option.some.inj (hplace.symm.trans ho)
        exact h.offers_enumValue hl.kind ho (hp.symm.trans ho) s q
      · rw [hplace, hnone] at ho
        cases ho

/-- **An accepted token** offers the same once it is settled, if the position is the same. -/
theorem IsOpen.offers_accept (h : d.IsOpen) (ha : Admits t a d e)
    (hp : Position.ofChain? (d.accept e t).valid = Position.ofChain? (d.accept e t).settle)
    (s : Schema) (q : List Char) :
    (d.accept e t).offers s q = (d.accept e t).settle.offers s q := by
  have hd := h.isSettled_record ha.wanted t.text
  by_cases hk : t.kind = .punctuation
  · have hacc : d.accept e t = (d.record e.trace t.text).advance true := if_pos hk
    rw [hacc, hd.advance.settle_eq]
  · have hacc : d.accept e t = (d.record e.trace t.text).defer := if_neg hk
    have hwant : (d.record e.trace t.text).top.wanted? t a = some (.terminal e) := by
      obtain ⟨n, htop⟩ := exists_top_record d e.trace t.text
      rw [htop]
      exact ha.wanted
    rw [(h.accept ha).valid_eq, hacc, hd.settle_defer] at hp
    rw [hacc, hd.settle_defer]
    exact hd.offers_defer hwant ha.accepts hk hp s q

/-- **What readings lead to** offers the same once it is settled, if the position is the same. -/
theorem IsReached.offers_settle (h : c.IsReached)
    (hp : Position.ofChain? c.valid = Position.ofChain? c.settle) (s : Schema) (q : List Char) :
    c.offers s q = c.settle.offers s q := by
  -- Only the last reading matters: what it does to the position is known from its kind.
  cases h with
  | start => rfl
  | @read c h r hr =>
    have hs := h.isRegular.settle
    have hread := h.isRegular.isReading r
    generalize Chain.read standard r c = x at hread hp ⊢
    cases hread with
    | gap => rw [hs.settle_eq]
    | unknown | misfit =>
      have hrest : RestsAt c.settle c.settle.enterInvalid := .inr rfl
      rw [hrest.settle_eq hs]
      exact hrest.offers_eq hs s q
    | comment =>
      have hset : c.settle.enterComment.settle = c.settle := hs.settle_enter _
      rw [hset] at hp ⊢
      rw [offers_of_position_none rfl, offers_of_position_none]
      rw [hs.isPlaced.valid_eq, ← hp]
      rfl
    | token _ _ _ hd ha => exact hd.offers_accept ha hp s q

end Chain

end QueryAssist
