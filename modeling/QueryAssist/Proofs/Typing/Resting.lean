import QueryAssist.Proofs.Typing.Appended

/-! # Where a scan comes to rest

Between two tokens the innermost construct stands right after a step that was taken, so never at its
first step and never past a step that may be repeated. The name of an alias is followed by its colon
on the same line. Main definitions:

* **`Link.IsEntered`** — a link right after a step that was taken.
* **`Link.AwaitsColon`** — a link between an alias and its colon.
* **`Chain.Rests`** — a chain with some text of a line ahead at which both hold.

Main statements: `Chain.Rests.react`, what is read next keeps a chain at rest, and
`Scan.rests_chainAfter_tokensFrom`, what that makes of the lines of a document. -/

namespace QueryAssist

open Grammar

/-! ### Steps that were taken -/

/-- A step that may be repeated comes neither first nor after another one. -/
theorem Grammar.exists_step_before_list {k : RuleKind} {ss : List Step} {i : Nat} {s : Step}
    (h : standard k = some (.steps ss)) (hk : k ≠ .document) (hs : ss[i]? = some s)
    (hl : s.isList = true) : ∃ j b, i = j + 1 ∧ ss[j]? = some b ∧ b.isList = false := by
  have := of_allSteps (p := fun k ss => k == .document || (List.range ss.length).all fun i =>
    ss[i]?.all fun s => !s.isList || (i != 0 && ss[i - 1]?.all fun b => !b.isList)) (by decide) h
  have hi : i < ss.length := (List.getElem?_eq_some_iff.1 hs).1
  simp only [Bool.or_eq_true, beq_iff_eq, hk, false_or] at this
  have := List.all_eq_true.1 this i (List.mem_range.2 hi)
  rw [hs, Option.all_some, hl] at this
  simp only [Bool.not_true, Bool.false_or, Bool.and_eq_true, bne_iff_ne, ne_eq] at this
  obtain ⟨j, rfl⟩ := Nat.exists_eq_succ_of_ne_zero this.1
  have hj : ss[j]? = some ss[j] := List.getElem?_eq_getElem (by omega)
  refine ⟨j, _, rfl, hj, ?_⟩
  have := this.2
  simpa [hj] using this

/-- Only a selection names fields. -/
theorem Grammar.eq_selection_of_mem_names {k k' : RuleKind} {r : Rule} (h : standard k = some r)
    (hk : k' = .field ∨ k' = .aliasedField) (hr : k' ∈ r.names) : k = .selection := by
  have := of_allRules (p := fun k r => k == .selection ||
    !r.names.contains .field && !r.names.contains .aliasedField) (by decide) h
  rcases hk with rfl | rfl <;> simpa [hr] using this

namespace Link

variable {l : Link} {k : RuleKind} {r : Rule}

/-- A link is **entered** if it stands right after a step that was taken and is not repeated. The
document stays at its one step. -/
def IsEntered (l : Link) : Prop :=
  l.kind = some .document ∨
    ∃ ss i s, l.rule = some (.steps ss) ∧ l.step = i + 1 ∧ ss[i]? = some s ∧ s.isList = false

/-- A link **awaits the colon** of an alias. -/
def AwaitsColon (l : Link) : Prop := l.kind = some .aliasedField ∧ l.step = 1

/-- A link at a step that may be repeated is entered. -/
theorem IsLive.isEntered_of_isList {s : Step} (h : l.IsLive k r) (hs : l.currentStep? = some s)
    (hl : s.isList = true) : l.IsEntered := by
  by_cases hk : k = .document
  · exact .inl (hk ▸ h.kind)
  · obtain ⟨ss, rfl, hss⟩ := h.steps_of_currentStep? hs
    obtain ⟨j, b, hj, hb, hl⟩ := exists_step_before_list h.standard hk hss hl
    exact .inr ⟨ss, j, b, h.rule, hj, hb, hl⟩

/-- **A construct that is taken up again is entered**, unless it is complete. -/
theorem IsLive.isEntered_resume (h : l.IsLive k r) (hc : l.resume.isComplete = false) :
    l.resume.IsEntered := by
  obtain ⟨s, hs, hl⟩ | ⟨s, sep, hs, hl⟩ | ⟨hno, hl⟩ := h.resume_cases
  · rw [hl]
    exact h.isEntered_of_isList hs rfl
  · rw [hl]
    exact h.isEntered_of_isList hs rfl
  · rw [hl] at hc ⊢
    obtain hn | ⟨ss, rfl, hn⟩ := h.next
    · rw [hn] at hc
      cases hc
    · have hlt : l.step < ss.length := Nat.lt_of_succ_lt hn.placed
      have hs : ss[l.step]? = some ss[l.step] := List.getElem?_eq_getElem hlt
      refine .inr ⟨ss, l.step, _, h.rule, rfl, hs, hno _ ?_⟩
      rw [currentStep?_eq_of_rule h.rule]
      exact hs

/-- An alias that awaits its colon was at its name before. -/
theorem IsLive.step_eq_zero_of_resume (h : l.IsLive k r) (hc : l.resume.AwaitsColon) :
    k = .aliasedField ∧ l.step = 0 := by
  have hkind : l.resume.kind = l.kind := by
    unfold Link.resume
    repeat' split
    all_goals rfl
  obtain rfl : k = .aliasedField := Option.some.inj (h.kind.symm.trans (hkind.symm.trans hc.1))
  obtain rfl := Option.some.inj h.standard
  refine ⟨rfl, ?_⟩
  -- None of the steps of an alias up to the colon may be repeated.
  have hno : l.step ≤ 1 → ∀ s, l.currentStep? = some s → s.isList = false := by
    intro hle s hs
    rw [currentStep?_eq_of_rule h.rule] at hs
    obtain h0 | h1 := Nat.le_one_iff_eq_zero_or_eq_one.1 hle
    · rw [h0] at hs
      obtain rfl := Option.some.inj hs
      rfl
    · rw [h1] at hs
      obtain rfl := Option.some.inj hs
      rfl
  obtain ⟨s, hs, hl⟩ | ⟨s, sep, hs, hl⟩ | ⟨-, hl⟩ := h.resume_cases
  · rw [hl] at hc
    cases hno hc.2.le _ hs
  · rw [hl] at hc
    cases hno hc.2.le _ hs
  · rw [hl] at hc
    exact Nat.succ.inj hc.2

/-- At a step that has no separator none is due. -/
theorem IsLive.needsSeparator_eq_false {ss : List Step} {s : Step} (h : l.IsLive k (.steps ss))
    (hs : ss[l.step]? = some s) (hsep : s.separator? = none) : l.needsSeparator = false := by
  refine Bool.eq_false_iff.2 fun hn => ?_
  obtain ⟨b, sep, hb⟩ := h.separated hn
  rw [currentStep?_eq_of_rule h.rule] at hb
  obtain rfl := Option.some.inj (hs.symm.trans hb)
  cases hsep

/-- What is wanted there. -/
theorem IsLive.wanted?_eq {ss : List Step} {s : Step} (h : l.IsLive k (.steps ss))
    (hs : ss[l.step]? = some s) (hsep : s.separator? = none) (t : Token) (a : List Char) :
    l.wanted? t a = some s.body := by
  simp only [wanted?, expected?, h.rule, hs, h.needsSeparator_eq_false hs hsep,
    Bool.false_eq_true, if_false, Option.map_some]

end Link

namespace Chain

variable {c d : Chain} {t : Token} {a : List Char}

/-! ### The innermost link after a move -/

/-- **The innermost link after unwinding** is the one that is unwound, or one around it that is
taken up again. -/
theorem unwind_top_cases {t p : Link} {ps : List Link} (hs : Nested (p :: ps))
    (hi : ∀ l ∈ p :: ps, l.needsAdvance = false) (hp : ∃ k, p.Names k)
    (ha : t.needsAdvance = false) :
    (t.isComplete = false ∧ unwind t (p :: ps) = ⟨t, p :: ps⟩) ∨
    ∃ (q : Link) (k : RuleKind) (r : Rule), q.IsLive k r ∧ (∃ k', q.Names k') ∧
      q.resume.isComplete = false ∧ (unwind t (p :: ps)).top = q.resume := by
  -- The induction is on the links around, which are taken up as long as they are complete.
  induction ps generalizing t p with
  | nil => cases hs
  | cons q qs ih =>
    cases ht : t.isComplete with
    | false => exact .inl ⟨rfl, unwind_of_not_isComplete ht⟩
    | true =>
      rw [unwind_of_isComplete ht, ha, release_eq hs (hi p List.mem_cons_self)]
      obtain ⟨k, r, hl⟩ := hs.isLive_head
      cases hc : p.resume.isComplete with
      | false =>
        refine .inr ⟨p, k, r, hl, hp, hc, ?_⟩
        rw [unwind_of_not_isComplete hc]
      | true =>
        cases hs with
        | document hd =>
          obtain ⟨rfl, -⟩ := hd.document_step
          rw [hd.resume_document, hd.isComplete_eq_false] at hc
          cases hc
        | inside hl' hn hs' =>
          have hi' : ∀ l ∈ q :: qs, l.needsAdvance = false := fun l hm =>
            hi l (List.mem_cons_of_mem _ hm)
          obtain ⟨hne, -⟩ | h := ih hs' hi' ⟨_, hn⟩
            ((Link.needsAdvance_resume p).trans (hi p List.mem_cons_self))
          · rw [hc] at hne
            cases hne
          · exact .inr h

/-- The innermost link after a step that was taken is one that is taken up again. -/
theorem IsSettled.exists_advance_top (h : c.IsSettled) :
    ∃ (q : Link) (k : RuleKind) (r : Rule), q.IsLive k r ∧ (q = c.top ∨ ∃ k', q.Names k') ∧
      q.resume.isComplete = false ∧ (c.advance true).top = q.resume := by
  obtain ⟨k, r, hl⟩ := h.isLive_top
  have hr : c.top.rule.isNone = false := by rw [hl.rule]; rfl
  rw [show c.advance true = unwind c.top.resume c.outer from advance_true_eq hr]
  cases hc : c.top.resume.isComplete with
  | false => exact ⟨c.top, k, r, hl, .inl rfl, hc, by rw [unwind_eq_self hc]⟩
  | true =>
    -- A link that is complete is left, and one of those around it is taken up again.
    have hn : Nested (c.top :: c.outer) := h.nested
    obtain ⟨top, outer⟩ := c
    cases hn with
    | document hd =>
      obtain ⟨rfl, -⟩ := hd.document_step
      rw [hd.resume_document, hd.isComplete_eq_false] at hc
      cases hc
    | inside hl' hp hs =>
      obtain ⟨hne, -⟩ | ⟨q, k, r, hq, hn, h⟩ := unwind_top_cases hs
        (fun l hm => h.idle l (List.mem_cons_of_mem _ hm)) ⟨_, hp⟩
        ((Link.needsAdvance_resume top).trans h.idle_top)
      · rw [hc] at hne
        cases hne
      · exact ⟨q, k, r, hq, .inr hn, h⟩

/-- After giving up the innermost link is past its first step, or is the document. -/
theorem IsOpen.top_giveUp (h : c.IsOpen) :
    c.giveUp = root ∨ c.giveUp.top.kind = some .document ∨ c.giveUp.top.step ≠ 0 := by
  obtain ⟨q, qs, he, ho, -⟩ := h.giveUp_eq
  rw [he]
  by_cases hd : q.kind = some .document
  · exact .inl (unwind_next_document ho hd)
  · refine .inr ?_
    have hn : Nested (q :: qs) := ho.nested
    cases hn with
    | document hl => exact absurd hl.kind hd
    | inside hl hp hs =>
      obtain ⟨-, hu⟩ | ⟨q', k, r, hq, -, hc, hu⟩ := unwind_top_cases (t := q.next) hs
        (fun l hm => ho.idle l (List.mem_cons_of_mem _ hm)) ⟨_, hp⟩ ho.idle_top
      · rw [hu]
        exact .inr (Nat.succ_ne_zero _)
      · rw [hu]
        obtain hk | ⟨ss, i, s, -, hi, -⟩ := hq.isEntered_resume hc
        · exact .inl hk
        · exact .inr (by rw [hi]; exact Nat.succ_ne_zero i)

/-! ### What is entered for a token -/

/-- A chain is **aimed** at a token if its innermost construct, when at its first step, is the
document or was entered for the token. -/
def IsAimed (t : Token) (a : List Char) (c : Chain) : Prop :=
  c.top.step = 0 → c.top.kind = some .document ∨
    ∃ p ∈ c.outer.head?, ∃ k, c.top.kind = some k ∧ p.wanted? t a = some (.rule k)

/-- Moves keep a chain aimed. -/
theorem IsOpen.isAimed_of_falls (h : c.IsOpen) (hc : c.IsAimed t a) (hf : Falls t a c d) :
    d = root ∨ (d.IsOpen ∧ d.IsAimed t a) := by
  -- Induction on the moves: entering chooses by the token, and giving up ends at a later step.
  induction hf with
  | refl => exact .inr ⟨h, hc⟩
  | tail _ hm ih =>
    obtain rfl | ⟨ho, ha⟩ := ih
    · cases hm with
      | enter hr => cases hr
      | giveUp hr => cases hr
    · cases hm with
      | enter hr hw hk =>
        obtain ⟨k, r, hl⟩ := ho.isLive_top
        exact .inr ⟨ho.enter (names_of_wanted? hl hw) hk, fun _ => .inr ⟨_, rfl, _, rfl, hw⟩⟩
      | giveUp =>
        obtain hr | hs := ho.giveUp
        · exact .inl hr
        · refine .inr ⟨hs.toIsOpen, fun h0 => .inl ?_⟩
          obtain hr | hk | hne := ho.top_giveUp
          · rw [hr] at hs
            obtain ⟨k, r, hl⟩ := hs.isLive_top
            cases hl.kind
          · exact hk
          · exact absurd h0 hne

/-- What a token leaves behind in the innermost link is at most its name. -/
theorem exists_top_record (c : Chain) (tr : Trace) (text : String) :
    ∃ n, (c.record tr text).top = { c.top with name := n } := by
  unfold Chain.record
  repeat' split
  all_goals exact ⟨_, rfl⟩

/-- After an accepted token the innermost link is one that is taken up again. -/
theorem IsOpen.exists_settle_accept_top {e : Terminal} (h : d.IsOpen) (ha : Admits t a d e) :
    ∃ (q : Link) (k : RuleKind) (r : Rule), q.IsLive k r ∧
      ((∃ n, q = { d.top with name := n }) ∨ ∃ k', q.Names k') ∧
      q.resume.isComplete = false ∧ (d.accept e t).settle.top = q.resume := by
  obtain ⟨q, k, r, hq, hn, hc, he⟩ := (h.isSettled_record ha.wanted t.text).exists_advance_top
  rw [h.settle_accept ha, he]
  refine ⟨q, k, r, hq, hn.imp_left ?_, hc, rfl⟩
  rintro rfl
  exact exists_top_record d e.trace t.text

/-- **After an accepted token** the innermost link is entered. -/
theorem IsOpen.isEntered_accept {e : Terminal} (h : d.IsOpen) (ha : Admits t a d e) :
    (d.accept e t).settle.top.IsEntered := by
  obtain ⟨q, k, r, hq, -, hc, he⟩ := h.exists_settle_accept_top ha
  rw [he]
  exact hq.isEntered_resume hc

/-- An alias that awaits its colon after a token was chosen for the token and what is ahead of
it. -/
theorem IsOpen.isSome_aliasAhead_of_accept {e : Terminal} (h : d.IsOpen) (ha : Admits t a d e)
    (haim : d.IsAimed t a) (hc : (d.accept e t).settle.top.AwaitsColon) :
    (Lexer.aliasAhead a).isSome = true := by
  obtain ⟨q, k, r, hq, hor, -, he⟩ := h.exists_settle_accept_top ha
  obtain ⟨rfl, h0⟩ := hq.step_eq_zero_of_resume (he ▸ hc)
  obtain ⟨n, rfl⟩ | ⟨k', r', hr', hk'⟩ := hor
  · have hnest : Nested (d.top :: d.outer) := h.nested
    obtain hd | ⟨p, hp, k, hk, hw⟩ := haim h0
    · cases hd.symm.trans hq.kind
    · obtain rfl := Option.some.inj (hk.symm.trans hq.kind)
      obtain ⟨top, outer⟩ := d
      cases hnest with
      | document hl => cases hl.kind.symm.trans hk
      | @inside _ p' _ _ _ hl hn hs =>
        obtain rfl : p' = p := Option.some.inj hp
        obtain ⟨k', r', hl'⟩ := hs.isLive_head
        obtain ⟨r'', hr'', hmem⟩ := names_of_wanted? hl' hw
        obtain rfl := Option.some.inj (hl'.rule.symm.trans hr'')
        obtain rfl := eq_selection_of_mem_names hl'.standard (.inr rfl)
          (Rule.mem_names_of_mem_namesAt hmem)
        obtain rfl := Option.some.inj hl'.standard
        rw [wanted?_selection hl'] at hw
        have hsel : selectionOf t a = .aliasedField := by simpa using hw
        unfold selectionOf at hsel
        split at hsel
        · split at hsel <;> cases hsel
        · split at hsel
          · assumption
          · cases hsel
  · -- An alias at its name has no construct inside.
    obtain rfl := Option.some.inj (hq.rule.symm.trans hr')
    obtain rfl := Option.some.inj hq.standard
    rw [h0] at hk'
    cases hk'

/-! ### Chains at rest -/

/-- A chain is **at rest** before the rest of a line if its innermost construct, once settled,
stands right after a step that was taken, and an alias has its colon ahead. -/
structure Rests (c : Chain) (v : List Char) : Prop where
  regular : c.IsRegular
  entered : c.settle.top.IsEntered
  colon : c.settle.top.AwaitsColon → (Lexer.aliasAhead v).isSome = true

/-- The end of a line tells that no alias awaits its colon. -/
theorem Rests.not_awaitsColon (h : Rests c []) : ¬c.settle.top.AwaitsColon := fun hc => by
  cases h.colon hc

/-- What is at rest at the end of a line is at rest before the next one. -/
theorem Rests.of_nil (h : Rests c []) (v : List Char) : Rests c v :=
  ⟨h.regular, h.entered, fun hc => absurd hc h.not_awaitsColon⟩

/-- The chain at the start of a document rests in front of any text. -/
theorem rests_start (v : List Char) : Rests start v :=
  ⟨isRegular_start, .inl rfl, fun h => by cases h.1⟩

/-- A piece leaves a chain that settles as before, where a token other than a comment fits nowhere,
or some chain admits it after moves. -/
theorem IsRegular.settle_react_cases (h : c.IsRegular) (x : Piece) (a : List Char) :
    ((Chain.react standard c x a).2.settle = c.settle ∧ ∀ t, x = .token t → t.kind ≠ .comment →
      match? standard t a c.settle.budget c.settle = .misfit) ∨
    ∃ (t : Token) (d : Chain) (e : Terminal), x = .token t ∧ Falls t a c.settle d ∧ d.IsOpen ∧
      Admits t a d e ∧ (Chain.react standard c x a).2 = d.accept e t := by
  have hs := h.settle
  obtain ⟨rfl, hr⟩ | ⟨t, rfl, hk, hr⟩ | ⟨hmis, hr⟩ | ⟨t, d, e, hx, hf, hd, ha, hr⟩ :=
    h.react_cases x a
  · exact .inl ⟨hr ▸ hs.settle_eq, nofun⟩
  · refine .inl ⟨hr ▸ hs.settle_enter _, ?_⟩
    rintro u ⟨⟩ hne
    exact absurd hk hne
  · exact .inl ⟨hr ▸ hs.settle_enter _, fun t ht _ => hmis t ht⟩
  · exact .inr ⟨t, d, e, hx, hf, hd, ha, congrArg Prod.snd hr⟩

/-- The colon of an alias fits. -/
theorem IsSettled.match?_colon (h : c.IsSettled) (hc : c.top.AwaitsColon) (a : List Char) :
    match? standard ⟨.punctuation, ":"⟩ a c.budget c ≠ .misfit := by
  obtain ⟨k, r, hl⟩ := h.isLive_top
  obtain rfl := Option.some.inj (hl.kind.symm.trans hc.1)
  obtain rfl := Option.some.inj hl.standard
  have ha : Admits ⟨.punctuation, ":"⟩ a c (.punctuation ":") :=
    ⟨by rw [hl.rule]; rfl, hl.wanted?_eq (by rw [hc.2]; rfl) rfl _ _, by decide⟩
  rw [match?_eq_accepted_of_falls .refl ha (h.toIsOpen.match?_budget_ne_exhausted _ a)]
  nofun

/-- A settled chain that is entered is aimed at every token. -/
theorem isAimed_of_isEntered (h : c.top.IsEntered) (t : Token) (a : List Char) : c.IsAimed t a := by
  intro h0
  obtain hk | ⟨ss, i, s, -, hi, -⟩ := h
  · exact .inl hk
  · exact absurd (h0.symm.trans hi) (Nat.succ_ne_zero i).symm

/-- **What is read next keeps a chain at rest.** -/
theorem Rests.react {v : List Char} (h : Rests c v) (hv : v ≠ []) :
    Rests (Chain.react standard c (Lexer.piece v).1 (v.drop (Lexer.piece v).2)).2
      (v.drop (Lexer.piece v).2) := by
  have hreg := Scan.isRegular_react (s := .ofLine v) h.regular hv
  rw [Stream.rest_ofLine] at hreg
  obtain ⟨hset, hmis⟩ | ⟨t, d, e, -, hf, hd, ha, hr⟩ :=
    h.regular.settle_react_cases (Lexer.piece v).1 (v.drop (Lexer.piece v).2)
  · refine ⟨hreg, hset.symm ▸ h.entered, fun hc => ?_⟩
    -- Only a gap can be read before the colon, and the colon itself would fit.
    rw [hset] at hc
    have hcolon := h.colon hc
    rw [Lexer.isSome_aliasAhead] at hcolon ⊢
    have hhead := beq_iff_eq.1 hcolon
    obtain ⟨ch, r, rfl⟩ := List.exists_cons_of_ne_nil hv
    by_cases hch : Lexer.isGap ch = true
    · rwa [Lexer.dropWhile_drop_piece hch]
      intro d hd
      obtain rfl := Option.some.inj (hhead.symm.trans hd)
      decide
    · rw [List.dropWhile_cons_of_neg hch] at hhead
      obtain rfl := Option.some.inj hhead
      have hp : Lexer.piece (':' :: r) = (.token ⟨.punctuation, ":"⟩, 1) :=
        Lexer.piece_of_lex? (List.takeWhile_cons_of_neg (by decide)) rfl
      exact absurd (hmis _ (congrArg Prod.fst hp) (by decide)) (h.regular.settle.match?_colon hc _)
  · refine ⟨hreg, hr.symm ▸ hd.isEntered_accept ha, fun hc => ?_⟩
    rw [hr] at hc
    obtain rfl | ⟨-, haim⟩ :=
      h.regular.settle.toIsOpen.isAimed_of_falls (isAimed_of_isEntered h.entered t _) hf
    · cases ha.rule
    · exact hd.isSome_aliasAhead_of_accept ha haim hc

end Chain

/-! ### The chains of a scan -/

namespace Scan

open Chain

variable {row : Nat} {s : Stream} {c : Chain}

/-- **A line** leaves a chain at rest. -/
theorem rests_chainAfter_lineTokens (h : Rests c s.rest) :
    Rests (chainAfter c (lineTokens row s c)) [] := by
  induction hlen : s.rest.length using Nat.strongRecOn generalizing s c with
  | ind n ih =>
    subst hlen
    by_cases hs : s.rest = []
    · rw [lineTokens, dif_pos hs]
      exact hs ▸ h
    · obtain ⟨style, -, hline⟩ := exists_lineTokens_eq row h.regular hs
      have hpos := Lexer.piece_length_pos s.rest
      have hlength := List.length_pos_iff.2 hs
      have := ih _ (by rw [Stream.rest_take, List.length_drop]; omega)
        (s := s.take (Lexer.piece s.rest).2) (h.react hs) rfl
      rwa [hline, chainAfter_cons]

/-- **The lines of a document** leave a chain at rest. -/
theorem rests_chainAfter_tokensFrom {ls : List (List Char)} (h : Rests c []) :
    Rests (chainAfter c (tokensFrom row c ls)) [] := by
  induction ls generalizing row c with
  | nil => exact h
  | cons l ls ih =>
    have hl : Rests (chainAfter c (lineTokens row (.ofLine l) c)) [] :=
      rests_chainAfter_lineTokens (h.of_nil l)
    rw [tokensFrom, hl.regular.renew_eq, chainAfter_append]
    exact ih hl

end Scan

end QueryAssist
