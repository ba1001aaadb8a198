import QueryAssist.Proofs.Chain.Nesting

/-! # Open chains

While a token is held against the grammar nothing is due and the links stay nested. Main
definitions:

* **`Chain.IsOpen`** — nested links with nothing due.
* **`Chain.IsSettled`** — an open chain whose innermost link is no fork.

Main statements, one for each move: `IsSettled.advance`, `IsOpen.enter`, `IsOpen.giveUp` and
`IsOpen.record`. Giving up also makes the chain smaller in the sense of `Chain.size`. -/

namespace QueryAssist

open Grammar

namespace Chain

/-- An **open** chain has nested links and nothing due. -/
structure IsOpen (c : Chain) : Prop where
  nested : Nested c.links
  idle : ∀ l ∈ c.links, l.needsAdvance = false

/-- A **settled** chain is open at a step of a list of steps. -/
structure IsSettled (c : Chain) : Prop extends IsOpen c where
  steps : ∃ ss, c.top.rule = some (.steps ss)

/-- Nothing is due in the innermost link of an open chain. -/
theorem IsOpen.idle_top {c : Chain} (h : c.IsOpen) : c.top.needsAdvance = false :=
  h.idle c.top List.mem_cons_self

/-- The innermost link of an open chain is live. -/
theorem IsOpen.isLive_top {c : Chain} (h : c.IsOpen) : ∃ k r, c.top.IsLive k r :=
  h.nested.isLive_head

/-- A link that is left is as it was. -/
theorem release_eq {p : Link} {ls : List Link} (h : Nested (p :: ls))
    (hp : p.needsAdvance = false) :
    ({ p with needsAdvance := false, cell := none } : Link) = p := by
  obtain ⟨k, r, hl⟩ := h.isLive_head
  rw [← hp, ← hl.cell]

/-! ### Unwinding -/

/-- A link that is complete, or live inside the next one. -/
def Fits (t : Link) (ps : List Link) : Prop :=
  t.isComplete = true ∨ ∃ k ss, t.IsLive k (.steps ss) ∧ ∃ p ∈ ps.head?, p.Names k

/-- A complete link is left, and the one around it is taken up again. -/
theorem unwind_of_isComplete {t p : Link} {ps : List Link} (ht : t.isComplete = true) :
    unwind t (p :: ps) =
      unwind ({ p with needsAdvance := t.needsAdvance, cell := none } : Link).resume ps := by
  rw [unwind, if_pos ht]

/-- A link that is not complete is not left. -/
theorem unwind_of_not_isComplete {t p : Link} {ps : List Link} (ht : t.isComplete = false) :
    unwind t (p :: ps) = ⟨t, p :: ps⟩ := by
  rw [unwind, if_neg (by simp [ht])]

/-- A live link stays innermost when it is unwound. -/
theorem unwind_of_isLive {t p : Link} {ps : List Link} {k : RuleKind} {ss : List Step}
    (ht : t.IsLive k (.steps ss)) : unwind t (p :: ps) = ⟨t, p :: ps⟩ :=
  unwind_of_not_isComplete ht.isComplete_eq_false

/-- **Unwinding** what fits into an open chain gives a settled one. -/
theorem isSettled_unwind {ps : List Link} (hs : Nested ps) (hi : ∀ l ∈ ps, l.needsAdvance = false)
    {t : Link} (ht : Fits t ps) (ha : t.needsAdvance = false) : IsSettled (unwind t ps) := by
  -- The induction is on the links around, from the inside out: a complete link is left for the next
  -- one, which fits in turn when it is taken up again.
  induction hs generalizing t with
  | @document d r hd =>
    obtain ht | ⟨k, ss, hl, p, hp, hn⟩ := ht
    · -- The document takes itself up again at its one step.
      obtain ⟨rfl, -⟩ := hd.document_step
      rw [unwind_of_isComplete ht, ha, release_eq (.document hd) (hi d (by simp)),
        hd.resume_document, unwind_of_isLive hd]
      exact ⟨⟨.document hd, hi⟩, _, hd.rule⟩
    · obtain rfl : d = p := by simpa using hp
      rw [unwind_of_isLive hl]
      exact ⟨⟨.inside hl hn (.document hd), by simpa [ha] using hi⟩, _, hl.rule⟩
  | @inside l p ls k r hl hn hs ih =>
    have hi' : ∀ l ∈ p :: ls, l.needsAdvance = false := fun x hx => hi x (List.mem_cons_of_mem _ hx)
    obtain ht | ⟨k', ss, hl', q, hq, hn'⟩ := ht
    · rw [unwind_of_isComplete ht, ha, release_eq (.inside hl hn hs) (hi l (by simp))]
      refine ih hi' ?_ (by simp [hi l])
      obtain h | ⟨ss, rfl, h⟩ := hl.resume
      · exact .inl h
      · exact .inr ⟨k, ss, h, p, rfl, hn⟩
    · obtain rfl : l = q := by simpa using hq
      rw [unwind_of_isLive hl']
      refine ⟨⟨.inside hl' hn' (.inside hl hn hs), ?_⟩, _, hl'.rule⟩
      intro x hx
      rcases List.mem_cons.1 hx with rfl | hx
      · exact ha
      · exact hi x hx

/-- Unwinding either changes nothing or leaves fewer links. -/
theorem unwind_eq_or_length_lt (t : Link) (ps : List Link) (hp : ps ≠ []) :
    unwind t ps = ⟨t, ps⟩ ∨ (unwind t ps).outer.length < ps.length := by
  induction ps generalizing t with
  | nil => exact absurd rfl hp
  | cons p ps ih =>
    cases ht : t.isComplete with
    | false => exact .inl (unwind_of_not_isComplete ht)
    | true =>
      rw [unwind_of_isComplete ht]
      refine .inr ?_
      rcases ps with - | ⟨q, ps⟩
      · simp [unwind]
      · obtain h | h := ih ({ p with needsAdvance := t.needsAdvance, cell := none } : Link).resume
          (by simp)
        · simp [h]
        · exact Nat.lt_trans h (Nat.lt_succ_self _)

/-! ### Going on to the next step -/

/-- The next step of the innermost link fits around it, unless it is the document. -/
theorem IsOpen.fits_next {t : Link} {ls : List Link} (h : IsOpen ⟨t, ls⟩)
    (hd : t.kind ≠ some .document) : Nested ls ∧ Fits t.next ls := by
  cases h.nested with
  | document hl => exact absurd hl.kind hd
  | inside hl hn hs =>
    refine ⟨hs, ?_⟩
    obtain hc | ⟨ss, rfl, hl⟩ := hl.next
    · exact .inl hc
    · exact .inr ⟨_, ss, hl, _, rfl, hn⟩

/-- After the last step of the document only the root is left. -/
theorem unwind_next_document {t : Link} {ls : List Link} (h : IsOpen ⟨t, ls⟩)
    (hd : t.kind = some .document) : unwind t.next ls = root := by
  cases h.nested with
  | document hl =>
    obtain ⟨rfl, hs⟩ := hl.document_step
    have hr : t.rule = some (.steps [.list (.rule .definition)]) := hl.rule
    have hc : t.next.isComplete = true := by
      simp [Link.isComplete, Link.next, hr, Rule.length]
    have ha : t.next.needsAdvance = false := h.idle_top
    rw [unwind_of_isComplete hc, ha]
    rfl
  | inside hl hn hs =>
    obtain rfl := Option.some.inj (hl.kind.symm.trans hd)
    exact (hs.document_notMem hn).elim

/-- Going on to the next step keeps a chain settled or leaves only the root. -/
theorem IsOpen.unwind_next {t : Link} {ls : List Link} (h : IsOpen ⟨t, ls⟩) :
    unwind t.next ls = root ∨ IsSettled (unwind t.next ls) := by
  by_cases hd : t.kind = some .document
  · exact .inl (unwind_next_document h hd)
  · obtain ⟨hs, hf⟩ := h.fits_next hd
    exact .inr (isSettled_unwind hs (fun l hl => h.idle l (List.mem_cons_of_mem _ hl)) hf
      h.idle_top)

/-- Turning to the separator of a list or back changes nothing else. -/
theorem IsOpen.turn {c : Chain} {s sep : Step} (h : c.IsOpen)
    (hs : c.top.currentStep? = some (.separated s sep)) :
    IsSettled ⟨{ c.top with needsSeparator := !c.top.needsSeparator }, c.outer⟩ := by
  obtain ⟨k, r, hl⟩ := h.isLive_top
  obtain ⟨ss, rfl, -⟩ := hl.steps_of_currentStep? hs
  have hl' : Link.IsLive { c.top with needsSeparator := !c.top.needsSeparator } k (.steps ss) :=
    ⟨hl.kind, hl.rule, hl.standard, hl.placed, fun _ => ⟨s, sep, hs⟩, hl.cell⟩
  refine ⟨⟨h.nested.replace_head hl hl', fun l hm => ?_⟩, ss, hl.rule⟩
  rcases List.mem_cons.1 hm with rfl | hm
  · exact h.idle_top
  · exact h.idle l (List.mem_cons_of_mem _ hm)

/-- **Advancing** after a step that was taken keeps a chain settled. -/
theorem IsSettled.advance {c : Chain} (h : c.IsSettled) : IsSettled (c.advance true) := by
  obtain ⟨k, r, hl⟩ := h.isLive_top
  unfold Chain.advance
  split
  · exact h
  · next s sep hs =>
    simpa using h.turn hs
  · next hs _ =>
    -- The step of the document is a list, which the first case is about.
    by_cases hd : c.top.kind = some .document
    · obtain rfl := Option.some.inj (hl.kind.symm.trans hd)
      exact absurd hl.currentStep?_document (hs _)
    · obtain ⟨hn, hf⟩ := IsOpen.fits_next (t := c.top) h.toIsOpen hd
      exact isSettled_unwind hn (fun l hm => h.idle l (List.mem_cons_of_mem _ hm)) hf h.idle_top

/-! ### Entering -/

/-- What is **wanted** at a live link, if it is a construct, is one that the link names. -/
theorem names_of_wanted? {l : Link} {k k' : RuleKind} {r : Rule} {t : Token} {ahead : List Char}
    (h : l.IsLive k r) (hw : l.wanted? t ahead = some (.rule k')) : l.Names k' := by
  cases r with
  | fork f =>
    have hs : l.needsSeparator = false := h.needsSeparator_fork
    have hstep : l.step = 0 := h.placed
    simp only [Link.wanted?, Link.expected?, h.rule, hs, hstep, beq_self_eq_true, if_true,
      Bool.false_eq_true, if_false, Option.map_map, Option.map_eq_some_iff] at hw
    obtain ⟨k'', hc, he⟩ := hw
    obtain rfl : k'' = k' := by simpa [Step.body] using he
    exact ⟨_, h.rule, Fork.mem_answers_of_choose hc⟩
  | steps ss =>
    cases hn : l.needsSeparator with
    | true =>
      obtain ⟨s, sep, hs⟩ := h.separated hn
      rw [Link.currentStep?_eq_of_rule h.rule] at hs
      have hs' : ss[l.step]? = some (.separated s sep) := hs
      -- A separator is a token, so no construct is wanted here.
      obtain ⟨e, rfl⟩ := separator_eq_terminal h.standard (List.mem_of_getElem? hs')
      simp [Link.wanted?, Link.expected?, h.rule, hn, hs', Step.separator?, Step.body] at hw
    | false =>
      simp only [Link.wanted?, Link.expected?, h.rule, hn, Bool.false_eq_true, if_false,
        Option.map_eq_some_iff] at hw
      obtain ⟨s, hs, hb⟩ := hw
      exact ⟨_, h.rule, by simp [Rule.namesAt, hs, hb, Step.construct?]⟩

/-- What a live link names has a rule. -/
theorem isSome_of_names {l : Link} {k k' : RuleKind} {r : Rule} (h : l.IsLive k r)
    (hn : l.Names k') : (standard k').isSome := by
  obtain ⟨r', hr, hk⟩ := hn
  obtain rfl := Option.some.inj (hr.symm.trans h.rule)
  exact isSome_of_mem_names h.standard (Rule.mem_names_of_mem_namesAt hk)

/-- A construct that is begun stands at the first place of its rule. -/
theorem isLive_enter {c : Chain} {k : RuleKind} {r : Rule} (hr : standard k = some r) :
    (c.enter k r).top.IsLive k r := by
  refine ⟨rfl, rfl, hr, ?_, nofun, rfl⟩
  cases r with
  | fork f => rfl
  | steps ss => exact List.length_pos_iff.2 (steps_ne_nil hr)

/-- **Entering** a construct that is named keeps a chain open. -/
theorem IsOpen.enter {c : Chain} {k : RuleKind} {r : Rule} (h : c.IsOpen) (hk : c.top.Names k)
    (hr : standard k = some r) : (c.enter k r).IsOpen := by
  refine ⟨.inside (isLive_enter hr) hk h.nested, fun l hl => ?_⟩
  rcases List.mem_cons.1 hl with rfl | hl
  · exact h.idle_top
  · exact h.idle l hl

/-! ### Giving up -/

/-- Backing out of an open chain ends at a link whose step may be passed over. -/
theorem IsOpen.backOut {t : Link} {ls : List Link} (h : IsOpen ⟨t, ls⟩) :
    ∃ q qs, backOut t ls = ⟨q, qs⟩ ∧ q.isFlexible = true ∧ IsOpen ⟨q, qs⟩ ∧
      ((q = t ∧ qs = ls) ∨ qs.length < ls.length) := by
  obtain ⟨hn, hi⟩ := h
  change Nested (t :: ls) at hn
  change ∀ l ∈ t :: ls, _ at hi
  induction ls generalizing t with
  | nil => cases hn
  | cons p ps ih =>
    by_cases hf : t.isFlexible = true
    · exact ⟨t, p :: ps, by simp [Chain.backOut, hf], hf, ⟨hn, hi⟩, .inl ⟨rfl, rfl⟩⟩
    · cases hn with
      -- The one step of the document may be passed over, so the search ends there at the latest.
      | document hl =>
        refine absurd ?_ hf
        simp [Link.isFlexible, hl.currentStep?_document, Step.isFlexible]
      | inside hl hp hs =>
        have hi' : ∀ l ∈ p :: ps, l.needsAdvance = false := fun x hx =>
          hi x (List.mem_cons_of_mem _ hx)
        obtain ⟨q, qs, hq, hqf, hqo, hlt⟩ := ih hs hi'
        refine ⟨q, qs, ?_, hqf, hqo, .inr ?_⟩
        · have hr : t.rule.isNone = false := by rw [hl.rule]; rfl
          rw [Chain.backOut, if_neg (by simp [hr, hf]), hi t (by simp),
            release_eq hs (hi' p (by simp)), hq]
        · rcases hlt with ⟨-, rfl⟩ | hlt
          · exact Nat.lt_succ_self _
          · exact Nat.lt_succ_of_lt hlt

/-- A step that is missing is passed over. -/
theorem IsOpen.advance_false {t : Link} {ls : List Link} (h : IsOpen ⟨t, ls⟩) :
    Chain.advance ⟨t, ls⟩ false = unwind t.next ls := by
  obtain ⟨k, r, hl⟩ := h.isLive_top
  unfold Chain.advance
  split
  · rfl
  · next s sep hs =>
    obtain ⟨ss, rfl, hss⟩ := hl.steps_of_currentStep? hs
    obtain ⟨e, rfl⟩ := separator_eq_terminal hl.standard (List.mem_of_getElem? hss)
    simp only [Step.isFlexible, Bool.and_false, Bool.or_self, Bool.false_eq_true, if_false]
    rfl
  · rfl

/-- A flexible step is a step of some rule. -/
theorem rule_isNone_eq_false_of_isFlexible {l : Link} (h : l.isFlexible = true) :
    l.rule.isNone = false := by
  cases hr : l.rule with
  | none => simp [Link.isFlexible, Link.currentStep?, hr] at h
  | some r => rfl

/-- **Giving up** goes on to the next step of the nearest link that may pass over its own. -/
theorem IsOpen.giveUp_eq {c : Chain} (h : c.IsOpen) :
    ∃ q qs, c.giveUp = unwind q.next qs ∧ IsOpen ⟨q, qs⟩ ∧
      ((q = c.top ∧ qs = c.outer) ∨ qs.length < c.outer.length) := by
  obtain ⟨q, qs, hq, hf, ho, hlt⟩ := IsOpen.backOut (t := c.top) h
  refine ⟨q, qs, ?_, ho, hlt⟩
  unfold Chain.giveUp
  rw [hq]
  dsimp only
  rw [rule_isNone_eq_false_of_isFlexible hf, if_neg (by simp), ho.advance_false]

/-- Giving up keeps a chain settled or leaves only the root. -/
theorem IsOpen.giveUp {c : Chain} (h : c.IsOpen) : c.giveUp = root ∨ c.giveUp.IsSettled := by
  obtain ⟨q, qs, he, ho, -⟩ := h.giveUp_eq
  rw [he]
  exact ho.unwind_next

/-- The **size** of a chain bounds the times that it can give up. -/
def size (c : Chain) : Nat := 64 * c.outer.length + 8 * (8 - c.top.step)

/-- Giving up makes a chain smaller. -/
theorem IsOpen.size_giveUp_add_le {c : Chain} (h : c.IsOpen) : c.giveUp.size + 8 ≤ c.size := by
  obtain ⟨k, r, hl⟩ := h.isLive_top
  have hstep : c.top.step < 7 := by
    have hp := hl.placed
    cases r with
    | fork f => simp only [Rule.HasPlace] at hp; omega
    | steps ss => exact Nat.lt_of_lt_of_le hp (length_le_seven hl.standard)
  obtain ⟨q, qs, he, ho, hlt⟩ := h.giveUp_eq
  have hne : qs ≠ [] := by
    rintro rfl
    cases ho.nested
  have hu := unwind_eq_or_length_lt q.next qs hne
  unfold size
  -- Either the innermost link goes on by a step, or some link is left, which counts for as much
  -- as all the steps of a rule.
  rcases hlt with ⟨rfl, rfl⟩ | hlt <;> rcases hu with hu | hu <;> rw [he]
  · rw [hu]
    simp only [Link.next]
    omega
  · omega
  · rw [hu]
    simp only
    omega
  · omega

/-! ### Recording -/

/-- A fork wants no token. -/
theorem wanted?_ne_terminal_of_fork {l : Link} {k : RuleKind} {f : Fork} {t : Token}
    {ahead : List Char} (hl : l.IsLive k (.fork f)) (e : Terminal) :
    l.wanted? t ahead ≠ some (.terminal e) := by
  simp only [Link.wanted?, Link.expected?, hl.rule, hl.needsSeparator_fork, Bool.false_eq_true,
    if_false]
  split
  · simp [Step.body]
  · simp

/-- What holds of all terminals of the grammar holds of the one that is wanted. -/
theorem IsOpen.of_allTerminals {c : Chain} {p : Terminal → Bool} (h : c.IsOpen)
    (hp : allTerminals p = true) {t : Token} {ahead : List Char} {e : Terminal}
    (hw : c.top.wanted? t ahead = some (.terminal e)) : p e = true := by
  obtain ⟨k, r, hl⟩ := h.isLive_top
  cases r with
  | fork f => exact absurd hw (wanted?_ne_terminal_of_fork hl e)
  | steps ss =>
    simp only [Link.wanted?, Link.expected?, hl.rule, Option.map_eq_some_iff] at hw
    obtain ⟨s, hs, hb⟩ := hw
    -- The terminal is a separator or the step itself.
    split at hs
    · obtain ⟨s', hs', hsep⟩ := Option.bind_eq_some_iff.1 hs
      have hm := List.mem_of_getElem? hs'
      obtain ⟨a, b, rfl⟩ : ∃ a b, s' = .separated a b := by
        cases s' with
        | separated a b => exact ⟨a, b, rfl⟩
        | _ => cases hsep
      obtain ⟨e', rfl⟩ := separator_eq_terminal hl.standard hm
      obtain rfl := Option.some.inj hsep
      obtain rfl : e' = e := Step.terminal.inj hb
      exact Grammar.of_allTerminals hp hl.standard hm (.inr rfl)
    · exact Grammar.of_allTerminals hp hl.standard (List.mem_of_getElem? hs) (.inl hb)

/-- Around the two links outside a wanted token is at least one more that is live. -/
theorem IsOpen.nested_drop_two {t p q : Link} {ps : List Link} {tok : Token} {ahead : List Char}
    {e : Terminal} (h : IsOpen ⟨t, p :: q :: ps⟩) (hw : t.wanted? tok ahead = some (.terminal e)) :
    Nested (q :: ps) ∧ ∃ k r, p.IsLive k r ∧ q.Names k := by
  cases h.nested with
  | inside hl hn hs =>
    cases hs with
    | document hd =>
      -- The document only names the choice of definition, which is a fork.
      obtain ⟨r', hr', hk⟩ := hn
      obtain ⟨rfl, hstep⟩ := hd.document_step
      obtain rfl := Option.some.inj (hr'.symm.trans hd.rule)
      rw [hstep] at hk
      obtain rfl := List.mem_singleton.1 hk
      obtain rfl := Option.some.inj (hl.standard.symm.trans (rfl : standard .definition = _))
      exact absurd hw (wanted?_ne_terminal_of_fork hl e)
    | inside hp hq hs => exact ⟨hs, _, _, hp, hq⟩

/-- **Recording** what a token leaves behind keeps a chain open. -/
theorem IsOpen.record {c : Chain} {t : Token} {ahead : List Char} {e : Terminal} (h : c.IsOpen)
    (hw : c.top.wanted? t ahead = some (.terminal e)) (text : String) :
    (c.record e.trace text).IsOpen := by
  obtain ⟨top, outer⟩ := c
  obtain ⟨k, r, hl⟩ := h.isLive_top
  have hi : ∀ l ∈ outer, l.needsAdvance = false := fun l hm =>
    h.idle l (List.mem_cons_of_mem _ hm)
  have htop : top.needsAdvance = false := h.idle_top
  cases e.trace with
  | none => exact h
  | name =>
    refine ⟨h.nested.replace_head hl (hl.relabel _ _), ?_⟩
    exact List.forall_mem_cons.2 ⟨htop, hi⟩
  | type =>
    match outer with
    | [] => exact h
    | [p] => exact h
    -- The type is written two links further out, and that link has to stay live.
    | p :: q :: ps =>
      obtain ⟨hs, k', r', hp, hq⟩ := h.nested_drop_two hw
      obtain ⟨k'', r'', hlq⟩ := hs.isLive_head
      have hs' := hs.replace_head hlq (hlq.relabel q.name (some text))
      refine ⟨Nested.replace_head (.inside hl ?_ (.inside hp hq hs')) hl (hl.relabel _ _), ?_⟩
      · cases h.nested with
        | inside hl' hn _ =>
          rwa [Option.some.inj (hl.kind.symm.trans hl'.kind)]
      · simp only [List.mem_cons, forall_eq_or_imp] at hi
        exact List.forall_mem_cons.2 ⟨htop, List.forall_mem_cons.2 ⟨hi.1,
          List.forall_mem_cons.2 ⟨hi.2.1, hi.2.2⟩⟩⟩

/-- Recording changes nothing of the innermost link but its name. -/
theorem rule_top_record (c : Chain) (tr : Trace) (text : String) :
    (c.record tr text).top.rule = c.top.rule := by
  unfold Chain.record
  repeat' split
  all_goals rfl

/-- Where a token is wanted, what it leaves behind keeps the chain settled. -/
theorem IsOpen.isSettled_record {c : Chain} {t : Token} {ahead : List Char} {e : Terminal}
    (h : c.IsOpen) (hw : c.top.wanted? t ahead = some (.terminal e)) (text : String) :
    (c.record e.trace text).IsSettled := by
  refine ⟨h.record hw text, ?_⟩
  obtain ⟨k, r, hl⟩ := h.isLive_top
  rw [rule_top_record, hl.rule]
  cases r with
  | steps ss => exact ⟨ss, rfl⟩
  | fork f => exact absurd hw (wanted?_ne_terminal_of_fork hl e)

end Chain

end QueryAssist
