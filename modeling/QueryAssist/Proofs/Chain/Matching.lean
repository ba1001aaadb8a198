import Mathlib.Logic.Relation
import QueryAssist.Parse.Reading
import QueryAssist.Proofs.Chain.Open

/-! # Matching a token

Holding a token against the grammar is a run of moves, each of which enters a construct or gives up,
until some link admits the token or only the root is left. Main definitions:

* **`Chain.Move`** — one move.
* **`Chain.Admits`** — the innermost link wants the token.
* **`Chain.Falls`** — any number of moves.

Main statements: `match?_budget_ne_exhausted`, an open chain has moves enough, and
`match?_eq_accepted_of_falls`, a token that is admitted after some moves is accepted. -/

namespace QueryAssist

open Grammar

namespace Chain

variable {t : Token} {ahead : List Char} {c d : Chain}

/-- One **move** of a chain that does not admit a token. -/
inductive Move (t : Token) (ahead : List Char) : Chain → Chain → Prop
  /-- The construct that is wanted is entered. -/
  | enter {c : Chain} {k : RuleKind} {r : Rule} (hc : c.top.rule.isNone = false)
      (hw : c.top.wanted? t ahead = some (.rule k)) (hr : standard k = some r) :
      Move t ahead c (c.enter k r)
  /-- The token is not the one that is wanted, or nothing is. -/
  | giveUp {c : Chain} (hc : c.top.rule.isNone = false)
      (hk : ∀ k, c.top.wanted? t ahead ≠ some (.rule k))
      (he : ∀ e, c.top.wanted? t ahead = some (.terminal e) → e.accepts t = false) :
      Move t ahead c c.giveUp

/-- A chain **admits** a token if its innermost link wants a terminal that accepts it. -/
structure Admits (t : Token) (ahead : List Char) (c : Chain) (e : Terminal) : Prop where
  rule : c.top.rule.isNone = false
  wanted : c.top.wanted? t ahead = some (.terminal e)
  accepts : e.accepts t = true

/-- A move takes one unit of the budget. -/
theorem match?_of_move (h : Move t ahead c d) (n : Nat) :
    match? standard t ahead (n + 1) c = match? standard t ahead n d := by
  cases h with
  | enter hc hw hr =>
    rw [match?, if_neg (by simp [hc])]
    simp only [hw, hr]
  | giveUp hc hk he =>
    rw [match?, if_neg (by simp [hc])]
    split
    · next k hw => exact absurd hw (hk k)
    · next e hw => rw [if_neg (by simp [he e hw])]
    · rfl

/-- A token that is admitted is accepted at once. -/
theorem match?_of_admits {e : Terminal} (h : Admits t ahead c e) (n : Nat) :
    match? standard t ahead (n + 1) c = .accepted e.style (c.accept e t) := by
  rw [match?, if_neg (by simp [h.rule])]
  simp only [h.wanted, h.accepts, if_true]

/-- At the root every token is a misfit. -/
@[simp] theorem match?_root (n : Nat) : match? standard t ahead (n + 1) root = .misfit := rfl

/-- An open chain admits a token or has a move. -/
theorem IsOpen.admits_or_move (h : c.IsOpen) (t : Token) (ahead : List Char) :
    (∃ e, Admits t ahead c e) ∨
    (∃ k r, c.top.Names k ∧ standard k = some r ∧ c.top.wanted? t ahead = some (.rule k) ∧
      Move t ahead c (c.enter k r)) ∨
    Move t ahead c c.giveUp := by
  obtain ⟨k, r, hl⟩ := h.isLive_top
  have hc : c.top.rule.isNone = false := by rw [hl.rule]; rfl
  by_cases hk : ∃ k', c.top.wanted? t ahead = some (.rule k')
  · obtain ⟨k', hw⟩ := hk
    have hn := names_of_wanted? hl hw
    obtain ⟨r', hr⟩ := Option.isSome_iff_exists.1 (isSome_of_names hl hn)
    exact .inr (.inl ⟨k', r', hn, hr, hw, .enter hc hw hr⟩)
  · by_cases he : ∃ e, c.top.wanted? t ahead = some (.terminal e) ∧ e.accepts t = true
    · obtain ⟨e, hw, ha⟩ := he
      exact .inl ⟨e, hc, hw, ha⟩
    · refine .inr (.inr (.giveUp hc (fun k' hw => hk ⟨k', hw⟩) fun e hw => ?_))
      exact Bool.eq_false_iff.2 fun ha => he ⟨e, hw, ha⟩

/-! ### Every match ends -/

/-- The match of a token **ends** within a number of moves. -/
def Ends (t : Token) (ahead : List Char) (n : Nat) (c : Chain) : Prop :=
  ∀ m, n ≤ m → match? standard t ahead m c ≠ .exhausted

/-- A match that ends within some moves ends within more. -/
theorem Ends.mono {n m : Nat} (h : Ends t ahead n c) (hn : n ≤ m) : Ends t ahead m c :=
  fun _ hm => h _ (Nat.le_trans hn hm)

/-- A move takes one more than the chain that it leads to. -/
theorem Ends.of_move {n : Nat} (h : Ends t ahead n d) (hm : Move t ahead c d) :
    Ends t ahead (n + 1) c := by
  intro m hle
  obtain ⟨m, rfl⟩ : ∃ m', m = m' + 1 := ⟨m - 1, by omega⟩
  rw [match?_of_move hm]
  exact h m (by omega)

/-- A match ends where the token is admitted. -/
theorem ends_of_admits {e : Terminal} (h : Admits t ahead c e) : Ends t ahead 1 c := by
  intro m hle
  obtain ⟨m, rfl⟩ : ∃ m', m = m' + 1 := ⟨m - 1, by omega⟩
  rw [match?_of_admits h]
  nofun

/-- It ends at the root. -/
theorem ends_root : Ends t ahead 1 root := by
  intro m hle
  obtain ⟨m, rfl⟩ : ∃ m', m = m' + 1 := ⟨m - 1, by omega⟩
  rw [match?_root]
  nofun

/-- A construct that was just entered and cannot be passed over is given up with the step that wants
it. -/
theorem giveUp_enter {k : RuleKind} {r : Rule} (hc : c.top.cell = none)
    (hf : (c.enter k r).top.isFlexible = false) : (c.enter k r).giveUp = c.giveUp := by
  have hp : ({ c.top with needsAdvance := c.top.needsAdvance, cell := none } : Link) = c.top := by
    rw [← hc]
  have hb : backOut (c.enter k r).top (c.enter k r).outer = backOut c.top c.outer := by
    change backOut (c.enter k r).top (c.top :: c.outer) = _
    rw [backOut, if_neg (by rw [hf]; exact Bool.noConfusion)]
    exact congrArg (backOut · c.outer) hp
  unfold Chain.giveUp
  rw [hb]

/-- Only the document can be passed over at its first step. -/
theorem isFlexible_enter {k : RuleKind} {r : Rule} (hr : standard k = some r)
    (hk : k ≠ .document) : (c.enter k r).top.isFlexible = false := by
  match r with
  | .fork f => rfl
  | .steps [] => rfl
  | .steps (s :: ss) =>
    obtain ⟨e, rfl⟩ | ⟨k', rfl, -⟩ := head_cases hr hk <;> rfl

/-- What a nested link names is not the document. -/
theorem IsOpen.ne_document_of_names {k : RuleKind} (h : c.IsOpen) (hk : c.top.Names k) :
    k ≠ .document := by
  rintro rfl
  exact Nested.document_notMem hk h.nested

/-- If the match ends after a construct is given up, it ends after the construct is entered: at most
as many constructs as it is deep are entered before some token is wanted. -/
theorem IsOpen.ends_enter {n : Nat} {k : RuleKind} {r : Rule} (h : c.IsOpen) (hk : c.top.Names k)
    (hr : standard k = some r) (hg : Ends t ahead n c.giveUp) :
    Ends t ahead (n + depth k + 1) (c.enter k r) := by
  -- The induction is on the depth of the construct. One that is entered at the first step of
  -- another is less deep, and giving it up gives up all of them at once.
  induction hd : depth k using Nat.strongRecOn generalizing c k r with
  | ind m ih =>
    subst hd
    have ho := h.enter hk hr
    have hkd := h.ne_document_of_names hk
    obtain ⟨k₀, r₀, hl⟩ := h.isLive_top
    have hge : (c.enter k r).giveUp = c.giveUp := giveUp_enter hl.cell (isFlexible_enter hr hkd)
    obtain ⟨e, ha⟩ | ⟨k', r', hn, hr', hw, hm⟩ | hm := ho.admits_or_move t ahead
    · exact (ends_of_admits ha).mono (by omega)
    · have hlt : depth k' < depth k := by
        obtain ⟨r'', hr'', hn'⟩ := hn
        obtain rfl : r = r'' := Option.some.inj hr''
        match r, hr, hn' with
        | .fork f, hr, hn' => exact depth_lt_of_mem_answers hr hn'
        | .steps [], hr, hn' => exact absurd rfl (steps_ne_nil hr)
        | .steps (s :: ss), hr, hn' =>
          obtain ⟨e, rfl⟩ | ⟨k'', rfl, hlt⟩ := head_cases hr hkd
          · cases hn'
          · obtain rfl := List.mem_singleton.1 hn'
            exact hlt
      exact ((ih _ hlt ho hn hr' (hge ▸ hg) rfl).of_move hm).mono (by omega)
    · exact ((hge ▸ hg : Ends t ahead n (c.enter k r).giveUp).of_move hm).mono (by omega)

/-- The match of a token ends within as many moves as the chain is large. -/
theorem IsOpen.ends (h : c.IsOpen) (t : Token) (ahead : List Char) : Ends t ahead c.size c := by
  -- The induction is on the size of the chain, which giving up makes smaller. Entering makes it
  -- larger, but what is entered is given up with the step that wants it.
  induction hs : c.size using Nat.strongRecOn generalizing c with
  | ind m ih =>
    subst hs
    have hle := h.size_giveUp_add_le
    have hg : Ends t ahead (c.giveUp.size + 1) c.giveUp := by
      obtain hr | hg := h.giveUp
      · rw [hr]
        exact ends_root.mono (by omega)
      · exact (ih _ (by omega) hg.toIsOpen rfl).mono (by omega)
    obtain ⟨e, ha⟩ | ⟨k, r, hn, hr, -, hm⟩ | hm := h.admits_or_move t ahead
    · exact (ends_of_admits ha).mono (by omega)
    · have := depth_le_two k
      exact ((h.ends_enter hn hr hg).of_move hm).mono (by omega)
    · exact (hg.of_move hm).mono (by omega)

/-- The moves that a chain is granted are enough for its size. -/
theorem size_le_budget (c : Chain) : c.size ≤ c.budget := by
  simp only [size, budget, links, List.length_cons]
  omega

/-- **The budget suffices**: the match of a token with an open chain never runs out of moves. -/
theorem IsOpen.match?_budget_ne_exhausted (h : c.IsOpen) (t : Token) (ahead : List Char) :
    match? standard t ahead c.budget c ≠ .exhausted :=
  h.ends t ahead _ c.size_le_budget

/-! ### What a match comes to -/

/-- A chain **falls** to another one for a token if some moves lead from the one to the other. -/
abbrev Falls (t : Token) (ahead : List Char) : Chain → Chain → Prop :=
  Relation.ReflTransGen (Move t ahead)

/-- A chain that an open one falls to is open, or only the root is left. -/
theorem IsOpen.of_falls (h : c.IsOpen) (hf : Falls t ahead c d) : d = root ∨ d.IsOpen := by
  induction hf with
  | refl => exact .inr h
  | @tail d e _ hm ih =>
    obtain rfl | ho := ih
    -- The root has no rule, so there is no move from it.
    · cases hm with
      | enter hc => cases hc
      | giveUp hc => cases hc
    · cases hm with
      | enter hc hw hr =>
        obtain ⟨k, r, hl⟩ := ho.isLive_top
        exact .inr (ho.enter (names_of_wanted? hl hw) hr)
      | giveUp => exact ho.giveUp.imp id IsSettled.toIsOpen

/-- A chain that admits a token is not only the root. -/
theorem Admits.ne_root {e : Terminal} (h : Admits t ahead c e) : c ≠ root := by
  rintro rfl
  cases h.rule

/-- A token that is admitted after some moves is accepted there, if the budget lasts. -/
theorem match?_eq_accepted_of_falls {e : Terminal} (hf : Falls t ahead c d)
    (ha : Admits t ahead d e) {n : Nat} (hn : match? standard t ahead n c ≠ .exhausted) :
    match? standard t ahead n c = .accepted e.style (d.accept e t) := by
  induction hf using Relation.ReflTransGen.head_induction_on generalizing n with
  | refl =>
    cases n with
    | zero => exact absurd rfl hn
    | succ n => exact match?_of_admits ha n
  | head hm _ ih =>
    cases n with
    | zero => exact absurd rfl hn
    | succ n =>
      rw [match?_of_move hm] at hn ⊢
      exact ih hn

/-- A match with an open chain either accepts the token at an open chain that it falls to or finds
no place for it. -/
theorem IsOpen.match?_cases (h : c.IsOpen) (t : Token) (ahead : List Char) (n : Nat) :
    match? standard t ahead n c = .exhausted ∨ match? standard t ahead n c = .misfit ∨
    ∃ d e, Falls t ahead c d ∧ d.IsOpen ∧ Admits t ahead d e ∧
      match? standard t ahead n c = .accepted e.style (d.accept e t) := by
  induction n generalizing c with
  | zero => exact .inl rfl
  | succ n ih =>
    obtain ⟨e, ha⟩ | ⟨k, r, hn, hr, -, hm⟩ | hm := h.admits_or_move t ahead
    · exact .inr (.inr ⟨c, e, .refl, h, ha, match?_of_admits ha n⟩)
    · rw [match?_of_move hm]
      obtain he | he | ⟨d, e, hf, hd⟩ := ih (h.enter hn hr)
      · exact .inl he
      · exact .inr (.inl he)
      · exact .inr (.inr ⟨d, e, hf.head hm, hd⟩)
    · rw [match?_of_move hm]
      -- Only the root is left, which takes one more unit of the budget to see.
      obtain hr | hg := h.giveUp
      · rw [hr]
        cases n with
        | zero => exact .inl rfl
        | succ n => exact .inr (.inl (match?_root n))
      · obtain he | he | ⟨d, e, hf, hd⟩ := ih hg.toIsOpen
        · exact .inl he
        · exact .inr (.inl he)
        · exact .inr (.inr ⟨d, e, hf.head hm, hd⟩)

end Chain

end QueryAssist
