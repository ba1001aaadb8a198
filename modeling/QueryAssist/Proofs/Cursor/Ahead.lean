import Mathlib.Data.List.TakeWhile
import QueryAssist.Proofs.Chain.Matching

/-! # Looking ahead

Only the choice among selections looks at the text after a token. If two texts lead to different
choices there, the token is accepted as the first of either one, or of neither. Main statements:

* **`Chain.match?_ahead`** — a token with two texts after it is matched alike, or is accepted as the
  first token of the two selections that they choose.
* **`Lexer.aliasAhead_append`**, **`Lexer.inlineAhead_append`** — where a front of a text decides
  what the text does. -/

namespace QueryAssist

open Grammar

namespace Lexer

/-! ### Fronts of a text -/

/-- An alias is ahead if a colon follows the gap. -/
theorem isSome_aliasAhead (cs : List Char) :
    (aliasAhead cs).isSome = ((cs.dropWhile isGap).head? == some ':') := by
  unfold aliasAhead
  split
  · next heq => simp [heq]
  · next h =>
    cases hd : cs.dropWhile isGap with
    | nil => rfl
    | cons c r =>
      have hc : c ≠ ':' := by
        rintro rfl
        exact h r hd
      simp [hc]

/-- Where a front of a text is more than a gap, it tells whether an alias is ahead. -/
theorem aliasAhead_append {v : List Char} (hv : ∃ c ∈ v, isGap c = false) (w : List Char) :
    (aliasAhead (v ++ w)).isSome = (aliasAhead v).isSome := by
  rw [isSome_aliasAhead, isSome_aliasAhead, List.dropWhile_append]
  split
  · next hd =>
    obtain ⟨c, hc, hg⟩ := hv
    have := List.dropWhile_eq_nil_iff.1 (List.isEmpty_iff.1 hd) c hc
    rw [hg] at this
    cases this
  · next hd =>
    obtain ⟨c, r, hr⟩ := List.exists_cons_of_ne_nil (mt List.isEmpty_iff.2 hd)
    rw [hr]
    rfl

/-- Whether a text begins as an inline fragment goes on after its three dots. -/
def opensInline : List Char → Bool
  | 'o' :: 'n' :: r => startsBoundary r
  | c :: _ => c == '@' || c == '\x7b'
  | [] => false

/-- An inline fragment is ahead if the text opens one behind its gap. -/
theorem isSome_inlineAhead (cs : List Char) :
    (inlineAhead cs).isSome = opensInline (cs.dropWhile isGap) := by
  unfold inlineAhead opensInline
  dsimp only
  generalize cs.dropWhile isGap = r
  split
  · split <;> simp_all
  · split <;> simp_all
  · rfl

/-- A text that does not begin with `on` opens one with a directive or a brace only. -/
theorem opensInline_cons {c : Char} {cs : List Char} (h : ¬(c = 'o' ∧ cs.head? = some 'n')) :
    opensInline (c :: cs) = (c == '@' || c == '\x7b') := by
  unfold opensInline
  split
  · next heq =>
    obtain ⟨rfl, rfl⟩ := List.cons.inj heq
    exact absurd ⟨rfl, rfl⟩ h
  · next heq =>
    obtain ⟨rfl, rfl⟩ := List.cons.inj heq
    rfl
  · next heq => cases heq

/-- More than the word `on`, and any other text, tells whether an inline fragment goes on. -/
theorem opensInline_append {v : List Char} (hv : ¬v <+: ['o', 'n']) (w : List Char) :
    opensInline (v ++ w) = opensInline v := by
  match v, hv with
  | [], hv => exact absurd List.nil_prefix hv
  | [c], hv =>
    have hc : c ≠ 'o' := by
      rintro rfl
      exact hv ⟨['n'], rfl⟩
    rw [List.cons_append, opensInline_cons fun h => hc h.1, opensInline_cons fun h => hc h.1]
  | c :: d :: r, hv =>
    by_cases hc : c = 'o' ∧ d = 'n'
    · obtain ⟨rfl, rfl⟩ := hc
      cases r with
      | nil => exact absurd (List.prefix_refl _) hv
      | cons e r => rfl
    · have hd : ∀ r : List Char, ¬(c = 'o' ∧ (d :: r).head? = some 'n') :=
        fun r h => hc ⟨h.1, Option.some.inj h.2⟩
      rw [List.cons_append, List.cons_append, opensInline_cons (hd _), opensInline_cons (hd _)]

/-- Where a front of a text is more than a gap and part of the word `on`, it tells whether an inline
fragment is ahead. -/
theorem inlineAhead_append {v : List Char} (hv : ¬v.dropWhile isGap <+: ['o', 'n'])
    (w : List Char) : (inlineAhead (v ++ w)).isSome = (inlineAhead v).isSome := by
  rw [isSome_inlineAhead, isSome_inlineAhead, List.dropWhile_append]
  split
  · next hd =>
    rw [List.isEmpty_iff.1 hd] at hv
    exact absurd List.nil_prefix hv
  · exact opensInline_append hv w

end Lexer

/-- After three dots the text ahead tells an inline fragment from a spread. -/
theorem selectionOf_dots {t : Token} (h : t.text = "...") (a : List Char) :
    selectionOf t a =
      if (Lexer.inlineAhead a).isSome then .inlineFragment else .fragmentSpread := by
  rw [selectionOf, if_pos (beq_iff_eq.2 h)]

/-- After any other token it tells an alias from a field. -/
theorem selectionOf_ne_dots {t : Token} (h : t.text ≠ "...") (a : List Char) :
    selectionOf t a = if (Lexer.aliasAhead a).isSome then .aliasedField else .field := by
  rw [selectionOf, if_neg (mt beq_iff_eq.1 h)]

/-- Where two texts lead to **different selections**, one is the other with more after it: either
the front is a gap and a colon follows it, or it is a gap and part of the word `on`. -/
theorem selectionOf_append {t : Token} {v w : List Char}
    (h : selectionOf t (v ++ w) ≠ selectionOf t v) :
    (t.text ≠ "..." ∧ (∀ c ∈ v, Lexer.isGap c = true) ∧
      (w.dropWhile Lexer.isGap).head? = some ':' ∧
      selectionOf t (v ++ w) = .aliasedField ∧ selectionOf t v = .field) ∨
    (t.text = "..." ∧ v.dropWhile Lexer.isGap <+: ['o', 'n'] ∧
      (selectionOf t (v ++ w) = .fragmentSpread ∨ selectionOf t v = .fragmentSpread)) := by
  by_cases ht : t.text = "..."
  -- After dots only a part of the word `on` at the end of the front leaves anything open.
  · rw [selectionOf_dots ht, selectionOf_dots ht] at h ⊢
    refine .inr ⟨ht, ?_, ?_⟩
    · refine Decidable.byContradiction fun hv => h ?_
      rw [Lexer.inlineAhead_append hv]
    · split <;> split <;> simp_all
  · rw [selectionOf_ne_dots ht, selectionOf_ne_dots ht] at h ⊢
    -- Anything but a gap would settle in the front whether there is an alias.
    have hgap : ∀ c ∈ v, Lexer.isGap c = true := by
      intro c hc
      refine Decidable.byContradiction fun hg => h ?_
      rw [Lexer.aliasAhead_append ⟨c, hc, Bool.eq_false_iff.2 hg⟩ w]
    have hnil := List.dropWhile_eq_nil_iff.2 hgap
    have hv : (Lexer.aliasAhead v).isSome = false := by
      rw [Lexer.isSome_aliasAhead, hnil]
      rfl
    rw [hv] at h ⊢
    have hw : (Lexer.aliasAhead (v ++ w)).isSome = true :=
      Decidable.byContradiction fun hn => h (by rw [Bool.eq_false_iff.2 hn])
    refine .inl ⟨ht, hgap, ?_, if_pos hw, rfl⟩
    rw [Lexer.isSome_aliasAhead, List.dropWhile_append, hnil] at hw
    exact beq_iff_eq.1 hw

namespace Chain

variable {c : Chain}

/-- Only a choice among selections looks ahead. -/
theorem wanted?_congr {l : Link} (h : l.rule ≠ some (.fork .selection)) (t : Token)
    (a b : List Char) : l.wanted? t a = l.wanted? t b := by
  have he : l.expected? t a = l.expected? t b := by
    unfold Link.expected?
    split
    · next f hf =>
      cases f with
      | selection => exact absurd hf h
      | _ => rfl
    · rfl
    · rfl
  rw [Link.wanted?, Link.wanted?, he]

/-- The first token of a selection: three dots, or a name. -/
def firstOfSelection (t : Token) : Terminal :=
  if t.text == "..." then .punctuation "..." else .name "property"

/-- All selections that a token may begin want the same first token. -/
theorem exists_standard_selectionOf (t : Token) (a : List Char) :
    ∃ ss, standard (selectionOf t a) = some (.steps (.terminal (firstOfSelection t) :: ss)) := by
  unfold selectionOf firstOfSelection
  split <;> split <;> exact ⟨_, rfl⟩

/-- What a selection wants when it is entered. -/
theorem wanted?_enter_selection (c : Chain) (t : Token) (a : List Char) (k : RuleKind)
    (e : Terminal) (ss : List Step) :
    (c.enter k (.steps (.terminal e :: ss))).top.wanted? t a = some (.terminal e) := rfl

/-- What is wanted at a choice among selections. -/
theorem wanted?_selection {l : Link} {k : RuleKind} (hl : l.IsLive k (.fork .selection)) (t : Token)
    (a : List Char) : l.wanted? t a = some (.rule (selectionOf t a)) := by
  have hstep : l.step = 0 := hl.placed
  simp only [Link.wanted?, Link.expected?, hl.rule, hl.needsSeparator_fork, hstep,
    beq_self_eq_true, if_true, Bool.false_eq_true, if_false, Fork.choose, Option.map_some,
    Step.body]

/-- A chain moves alike before two texts with which it wants the same. -/
theorem Move.congr {t : Token} {a b : List Char} {d : Chain} (h : Move t a c d)
    (hw : c.top.wanted? t a = c.top.wanted? t b) : Move t b c d := by
  cases h with
  | enter hc hk hr => exact .enter hc (hw ▸ hk) hr
  | giveUp hc hk he => exact .giveUp hc (hw ▸ hk) (hw ▸ he)

/-- It admits a token alike. -/
theorem Admits.congr {t : Token} {a b : List Char} {e : Terminal} (h : Admits t a c e)
    (hw : c.top.wanted? t a = c.top.wanted? t b) : Admits t b c e :=
  ⟨h.rule, hw ▸ h.wanted, h.accepts⟩

/-- A selection that was entered accepts its first token or is given up. -/
theorem IsOpen.match?_enter_selection (h : c.IsOpen) {k : RuleKind} (hk : c.top.Names k)
    {e : Terminal} {ss : List Step} (hr : standard k = some (.steps (.terminal e :: ss)))
    (t : Token) (a : List Char) (n : Nat) :
    match? standard t a (n + 1) (c.enter k (.steps (.terminal e :: ss))) =
      if e.accepts t then
        .accepted e.style ((c.enter k (.steps (.terminal e :: ss))).accept e t)
      else match? standard t a n c.giveUp := by
  split
  · next ha => exact match?_of_admits ⟨rfl, wanted?_enter_selection c t a k e ss, ha⟩ n
  · next ha =>
    obtain ⟨k', r', hl⟩ := h.isLive_top
    rw [← giveUp_enter hl.cell (isFlexible_enter hr (h.ne_document_of_names hk))]
    refine match?_of_move (.giveUp rfl (fun k' => ?_) fun e' he => ?_) n
    · rw [wanted?_enter_selection]
      nofun
    · rw [wanted?_enter_selection] at he
      obtain rfl : e = e' := Step.terminal.inj (Option.some.inj he)
      exact Bool.eq_false_iff.2 ha

/-- A token with **two texts after it** is matched alike with an open chain, or some chain that
stands at a choice among selections chooses two different ones, and the token is accepted as the
first of either one. -/
theorem match?_ahead (hc : c = root ∨ c.IsOpen) (t : Token) (a b : List Char) (n : Nat) :
    match? standard t a n c = match? standard t b n c ∨
    ∃ (d : Chain) (r q : Rule), d.IsOpen ∧ d.top.rule = some (.fork .selection) ∧
      selectionOf t a ≠ selectionOf t b ∧
      standard (selectionOf t a) = some r ∧ standard (selectionOf t b) = some q ∧
      (firstOfSelection t).accepts t = true ∧
      match? standard t a n c = .accepted (firstOfSelection t).style
        ((d.enter (selectionOf t a) r).accept (firstOfSelection t) t) ∧
      match? standard t b n c = .accepted (firstOfSelection t).style
        ((d.enter (selectionOf t b) q).accept (firstOfSelection t) t) := by
  -- The induction is on the moves that are left. A selection is entered in one move and either
  -- accepts the token or is given up in one more.
  induction n using Nat.strongRecOn generalizing c with
  | ind n ih =>
    obtain rfl | ho := hc
    · left
      cases n with
      | zero => rfl
      | succ n => rw [match?_root, match?_root]
    · cases n with
      | zero => exact .inl rfl
      | succ n =>
        obtain ⟨k, r, hl⟩ := ho.isLive_top
        by_cases hf : r = .fork .selection
        · subst hf
          have ha := wanted?_selection hl t a
          have hb := wanted?_selection hl t b
          by_cases he : selectionOf t a = selectionOf t b
          · obtain ⟨ss, hs⟩ := exists_standard_selectionOf t a
            have hm : Move t a c _ := .enter (by rw [hl.rule]; rfl) ha hs
            rw [match?_of_move hm, match?_of_move (hm.congr (ha.trans (he ▸ hb.symm)))]
            exact ih n (Nat.lt_succ_self n) (.inr (ho.enter (names_of_wanted? hl ha) hs))
          · obtain ⟨ss, hs⟩ := exists_standard_selectionOf t a
            obtain ⟨us, hu⟩ := exists_standard_selectionOf t b
            rw [match?_of_move (.enter (by rw [hl.rule]; rfl) ha hs),
              match?_of_move (.enter (by rw [hl.rule]; rfl) hb hu)]
            cases n with
            | zero => exact .inl rfl
            | succ n =>
              rw [ho.match?_enter_selection (names_of_wanted? hl ha) hs,
                ho.match?_enter_selection (names_of_wanted? hl hb) hu]
              split
              · next hacc =>
                exact .inr ⟨c, _, _, ho, hl.rule, he, hs, hu, hacc, rfl, rfl⟩
              · exact ih n (by omega) (ho.giveUp.imp id IsSettled.toIsOpen)
        · have hw := wanted?_congr (l := c.top)
            (by rw [hl.rule]; exact fun h => hf (Option.some.inj h)) t a b
          obtain ⟨e, ha⟩ | ⟨k', r', hn, hr', -, hm⟩ | hm := ho.admits_or_move t a
          · left
            rw [match?_of_admits ha, match?_of_admits (ha.congr hw)]
          · rw [match?_of_move hm, match?_of_move (hm.congr hw)]
            exact ih n (Nat.lt_succ_self n) (.inr (ho.enter hn hr'))
          · rw [match?_of_move hm, match?_of_move (hm.congr hw)]
            exact ih n (Nat.lt_succ_self n) (ho.giveUp.imp id IsSettled.toIsOpen)

end Chain

end QueryAssist
