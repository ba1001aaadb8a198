import QueryAssist.Parse.Scan
import QueryAssist.Proofs.Chain.Matching

/-! # Regular chains

The chain after a token of a scan is nested, perhaps with the advance of its innermost link still
due, or it stands for text outside the grammar right inside such a chain. Main definitions:

* **`Chain.IsPlaced`** — nested links, nothing due around the innermost one, which is no fork.
* **`Chain.IsRegular`** — a placed chain, or an invalid token or a comment inside one.

Main statements: `IsRegular.read`, one reading keeps a chain regular, and `scan_isRegular`, what
that makes of the chains of a whole document. -/

namespace QueryAssist

open Grammar

namespace Chain

/-- A **placed** chain has nested links of which only the innermost may have its advance due and is
no fork. -/
structure IsPlaced (c : Chain) : Prop where
  nested : Nested c.links
  notFork : ∀ f, c.top.rule ≠ some (.fork f)
  idle : ∀ l ∈ c.outer, l.needsAdvance = false

/-- A **regular** chain is placed, or is an invalid token or a comment, with nothing due, inside a
placed chain with nothing due. -/
inductive IsRegular : Chain → Prop
  /-- The innermost link is inside the grammar. -/
  | inside {c : Chain} (h : c.IsPlaced) : IsRegular c
  /-- The innermost link is outside the grammar. -/
  | outside {c : Chain} {k : RuleKind} (h : c.IsPlaced) (ha : c.top.needsAdvance = false)
      (hk : k = .invalid ∨ k = .comment) : IsRegular (c.enter k (.steps []))

/-- The chain with the advance of its innermost link due. -/
def defer (c : Chain) : Chain := ⟨{ c.top with needsAdvance := true }, c.outer⟩

variable {c : Chain}

/-- A settled chain is placed. -/
theorem IsSettled.isPlaced (h : c.IsSettled) : c.IsPlaced := by
  refine ⟨h.nested, fun f hf => ?_, fun l hl => h.idle l (List.mem_cons_of_mem _ hl)⟩
  obtain ⟨ss, hs⟩ := h.steps
  rw [hs] at hf
  cases hf

/-- A placed chain with nothing due is settled. -/
theorem IsPlaced.isSettled (h : c.IsPlaced) (ha : c.top.needsAdvance = false) : c.IsSettled := by
  obtain ⟨k, r, hl⟩ := h.nested.isLive_head
  refine ⟨⟨h.nested, List.forall_mem_cons.2 ⟨ha, h.idle⟩⟩, ?_⟩
  cases r with
  | steps ss => exact ⟨ss, hl.rule⟩
  | fork f => exact absurd hl.rule (h.notFork f)

/-- A settled chain stays placed when an advance falls due. -/
theorem IsSettled.isPlaced_defer (h : c.IsSettled) : c.defer.IsPlaced := by
  obtain ⟨k, r, hl⟩ := h.isLive_top
  exact ⟨h.nested.replace_head hl (hl.setAdvance true), h.isPlaced.notFork, h.isPlaced.idle⟩

/-- A placed chain is settled, or a settled one with its advance due. -/
theorem IsPlaced.cases (h : c.IsPlaced) : c.IsSettled ∨ ∃ d : Chain, d.IsSettled ∧ c = d.defer := by
  obtain ⟨k, r, hl⟩ := h.nested.isLive_head
  -- Taking back what is due gives the chain from before it fell due.
  cases ha : c.top.needsAdvance with
  | false => exact .inl (h.isSettled ha)
  | true =>
    refine .inr ⟨⟨{ c.top with needsAdvance := false }, c.outer⟩, ?_, ?_⟩
    · exact IsPlaced.isSettled
        ⟨h.nested.replace_head hl (hl.setAdvance false), h.notFork, h.idle⟩ rfl
    · simp only [defer, ← ha]

/-! ### Settling -/

/-- The rule of a live link is not empty. -/
theorem rule_top_ne_nil {k : RuleKind} {r : Rule} (h : c.top.IsLive k r) :
    c.top.rule ≠ some (.steps []) := by
  rw [h.rule]
  intro he
  obtain rfl := Option.some.inj he
  exact steps_ne_nil h.standard rfl

/-- A settled chain has nothing to settle. -/
theorem IsSettled.settle_eq (h : c.IsSettled) : c.settle = c := by
  obtain ⟨k, r, hl⟩ := h.isLive_top
  rw [settle, if_neg (rule_top_ne_nil hl), if_neg (by simp [h.idle_top])]

/-- What is due is made up for. -/
theorem IsSettled.settle_defer (h : c.IsSettled) : c.defer.settle = c.advance true := by
  obtain ⟨k, r, hl⟩ := h.isLive_top
  have hc : (⟨{ c.defer.top with needsAdvance := false }, c.defer.outer⟩ : Chain) = c := by
    simp only [defer, ← h.idle_top]
  rw [settle, if_neg (rule_top_ne_nil (c := c.defer) (hl.setAdvance true)),
    if_pos (show c.defer.top.needsAdvance = true from rfl), hc]

/-- What stands outside the grammar is left. -/
theorem IsSettled.settle_enter (h : c.IsSettled) (k : RuleKind) :
    (c.enter k (.steps [])).settle = c := by
  obtain ⟨k', r, hl⟩ := h.isLive_top
  rw [settle, if_pos (show (c.enter k (.steps [])).top.rule = some (.steps []) from rfl),
    leave_enter, ← hl.cell]

/-- **Settling** a regular chain gives a settled one. -/
theorem IsRegular.settle (h : c.IsRegular) : c.settle.IsSettled := by
  cases h with
  | inside h =>
    obtain hs | ⟨d, hd, rfl⟩ := h.cases
    · rwa [hs.settle_eq]
    · rw [hd.settle_defer]
      exact hd.advance
  | outside h ha hk =>
    have hs := h.isSettled ha
    rwa [hs.settle_enter]

/-! ### Reading -/

/-- Where a token is admitted, **accepting** it gives a placed chain. -/
theorem IsOpen.accept {t : Token} {ahead : List Char} {e : Terminal} (h : c.IsOpen)
    (ha : Admits t ahead c e) : (c.accept e t).IsPlaced := by
  have hr := h.isSettled_record ha.wanted t.text
  unfold Chain.accept
  dsimp only
  split
  · exact hr.advance.isPlaced
  · exact hr.isPlaced_defer

/-- The token after an accepted one is read from the chain advanced past it. -/
theorem IsOpen.settle_accept {t : Token} {ahead : List Char} {e : Terminal} (h : c.IsOpen)
    (ha : Admits t ahead c e) : (c.accept e t).settle = (c.record e.trace t.text).advance true := by
  have hr := h.isSettled_record ha.wanted t.text
  unfold Chain.accept
  dsimp only
  split
  · exact hr.advance.settle_eq
  · exact hr.settle_defer

/-- A scan begins with a regular chain. -/
theorem isRegular_start : start.IsRegular := by
  refine .inside ⟨.document ⟨rfl, rfl, rfl, Nat.zero_lt_one, nofun, rfl⟩, nofun, ?_⟩
  intro l hl
  obtain rfl := List.mem_singleton.1 hl
  rfl

/-- **Reading** a token keeps a chain regular and meets no construct without a rule. -/
theorem IsRegular.read (h : c.IsRegular) (s : Stream) :
    (Chain.read standard s c).chain.IsRegular ∧
      ∃ style, (Chain.read standard s c).style = .ok style := by
  have hs := h.settle
  have ha : c.settle.top.needsAdvance = false := hs.idle_top
  have hout : ∀ k, k = .invalid ∨ k = .comment → (c.settle.enter k (.steps [])).IsRegular :=
    fun k hk => .outside hs.isPlaced ha hk
  unfold Chain.read
  dsimp only
  -- Ignored text, text that is no token, a comment, and a token that is matched.
  split
  · exact ⟨.inside hs.isPlaced, _, rfl⟩
  · split
    · exact ⟨hout _ (.inl rfl), _, rfl⟩
    · next t s' _ =>
      split
      · exact ⟨hout _ (.inr rfl), _, rfl⟩
      · obtain he | he | ⟨d, e, -, hd, hm, he⟩ :=
          hs.match?_cases t s'.rest c.settle.budget
        · rw [he]
          exact ⟨hout _ (.inl rfl), _, rfl⟩
        · rw [he]
          exact ⟨hout _ (.inl rfl), _, rfl⟩
        · rw [he]
          exact ⟨.inside (hd.accept hm), _, rfl⟩

/-- The innermost link of a regular chain is a construct. -/
theorem IsRegular.kind_ne_none (h : c.IsRegular) : c.top.kind ≠ none := by
  cases h with
  | inside h =>
    obtain ⟨k, r, hl⟩ := h.nested.isLive_head
    rw [hl.kind]
    nofun
  | outside => nofun

/-- At most one link of a regular chain is outside the grammar. -/
theorem IsRegular.countP_isOutside_le_one (h : c.IsRegular) :
    c.links.countP Link.isOutside ≤ 1 := by
  cases h with
  | inside h =>
    rw [h.nested.countP_isOutside]
    exact Nat.zero_le 1
  | @outside d k h ha hk =>
    change (_ :: d.links).countP Link.isOutside ≤ 1
    rw [List.countP_cons, h.nested.countP_isOutside]
    split <;> omega

/-- At most one link of a regular chain is an operation or a fragment. -/
theorem IsRegular.countP_isDefinition_le_one (h : c.IsRegular) :
    c.links.countP Link.isDefinition ≤ 1 := by
  cases h with
  | inside h => exact h.nested.countP_isDefinition_le_one
  | @outside d k h ha hk =>
    change (_ :: d.links).countP Link.isDefinition ≤ 1
    rw [List.countP_cons_of_neg]
    · exact h.nested.countP_isDefinition_le_one
    · rcases hk with rfl | rfl <;> simp [Link.isDefinition, RuleKind.isDefinition]

/-- A regular chain ends in the document and the root. -/
theorem IsRegular.exists_eq_append_document (h : c.IsRegular) :
    ∃ (ms : List Link) (d : Link),
      c.links = ms ++ [d, {}] ∧ d.kind = some .document ∧ d.step = 0 := by
  cases h with
  | inside h => exact h.nested.exists_eq_append_document
  | @outside c k h ha hk =>
    obtain ⟨ms, d, he, hd⟩ := h.nested.exists_eq_append_document
    exact ⟨_ :: ms, d, congrArg (List.cons _) he, hd⟩

/-- Right around an invalid token is a placed chain. -/
theorem IsRegular.parent?_of_invalid (h : c.IsRegular) (hi : c.top.kind = some .invalid) :
    ∃ d, c.parent? = some d ∧ d.IsPlaced := by
  cases h with
  | inside h =>
    obtain ⟨k, r, hl⟩ := h.nested.isLive_head
    -- A placed chain is inside the grammar, which has no rule for invalid tokens.
    obtain rfl := Option.some.inj (hl.kind.symm.trans hi)
    cases hl.standard
  | @outside d k h ha hk => exact ⟨d, rfl, h⟩

/-- A scan does not begin anew at a regular chain. -/
theorem IsRegular.renew_eq (h : c.IsRegular) : Scan.renew c = c := by
  rw [Scan.renew, if_neg (by simpa using h.kind_ne_none)]

end Chain

/-! ### Scanning -/

namespace Scan

open Chain

/-- The chain after some tokens is the first one or that of one of the tokens. -/
theorem chainAfter_cases (c : Chain) (ts : List PlacedToken) :
    chainAfter c ts = c ∨ ∃ t ∈ ts, chainAfter c ts = t.chain := by
  unfold chainAfter
  cases hl : ts.getLast? with
  | none => exact .inl rfl
  | some t => exact .inr ⟨t, List.mem_of_getLast? hl, rfl⟩

/-- The chain after tokens that leave regular chains is regular. -/
theorem isRegular_chainAfter {c : Chain} {ts : List PlacedToken} (hc : c.IsRegular)
    (ht : ∀ t ∈ ts, t.chain.IsRegular) : (chainAfter c ts).IsRegular := by
  obtain h | ⟨t, hm, h⟩ := chainAfter_cases c ts <;> rw [h]
  · exact hc
  · exact ht t hm

/-- The chains of a line are regular. -/
theorem isRegular_of_mem_lineTokens {row : Nat} {s : Stream} {c : Chain} (hc : c.IsRegular)
    {t : PlacedToken} (ht : t ∈ lineTokens row s c) : t.chain.IsRegular := by
  fun_induction lineTokens row s c with
  | case1 => cases ht
  | case2 s c hs r ih =>
    have hr := (hc.read s).1
    rcases List.mem_cons.1 ht with rfl | ht
    · exact hr
    · exact ih hr ht

/-- The chains of some lines are regular. -/
theorem isRegular_of_mem_tokensFrom {ls : List (List Char)} {row : Nat} {c : Chain}
    (hc : c.IsRegular) {t : PlacedToken} (ht : t ∈ tokensFrom row c ls) : t.chain.IsRegular := by
  induction ls generalizing row c with
  | nil => cases ht
  | cons l ls ih =>
    have hl : ∀ t ∈ lineTokens row (.ofLine l) c, t.chain.IsRegular := fun t ht =>
      isRegular_of_mem_lineTokens hc ht
    have ha := isRegular_chainAfter hc hl
    rcases List.mem_append.1 ht with ht | ht
    · exact hl t ht
    · exact ih (ha.renew_eq.symm ▸ ha) ht

end Scan

/-- **The chains of a scan**: after every token the chain is regular, with at most one link outside
the grammar and at most one operation or fragment; it ends in the document at its first step and the
root, and an invalid token has a placed chain right around it. Between lines a scan never begins
anew. -/
theorem scan_isRegular (document : List Char) :
    (∀ t ∈ Scan.tokens document,
      t.chain.IsRegular ∧
      t.chain.links.countP Link.isOutside ≤ 1 ∧
      t.chain.links.countP Link.isDefinition ≤ 1 ∧
      (∃ (ms : List Link) (d : Link),
        t.chain.links = ms ++ [d, {}] ∧ d.kind = some .document ∧ d.step = 0) ∧
      t.chain.top.kind ≠ none ∧
      (t.chain.top.kind = some .invalid → ∃ c, t.chain.parent? = some c ∧ c.IsPlaced)) ∧
    ∀ n, let c := Scan.chainAfter .start (Scan.tokensFrom 0 .start ((splitLines document).take n))
      Scan.renew c = c := by
  constructor
  · intro t ht
    have hr := Scan.isRegular_of_mem_tokensFrom Chain.isRegular_start ht
    exact ⟨hr, hr.countP_isOutside_le_one, hr.countP_isDefinition_le_one,
      hr.exists_eq_append_document, hr.kind_ne_none, hr.parent?_of_invalid⟩
  -- A scan begins anew only at a chain without a construct.
  · intro n
    refine Chain.IsRegular.renew_eq (Scan.isRegular_chainAfter Chain.isRegular_start fun t ht => ?_)
    exact Scan.isRegular_of_mem_tokensFrom Chain.isRegular_start ht

end QueryAssist
