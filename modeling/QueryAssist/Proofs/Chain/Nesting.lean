import QueryAssist.Proofs.Grammar.Naming

/-! # Nested chains

The links of a chain stand inside each other as the grammar says: each one is a construct that the
step of the link around it names, and each stands at a place of its own rule. Main definitions:

* **`Link.IsLive`** — a link at a place of the rule of its construct.
* **`Nested`** — live links, each inside the next, out to the document and the root around it.
* **`Chain.IsOpen`** — nested links with nothing due.
* **`Chain.IsSettled`** — an open chain whose innermost link is no fork.

Main statements: `IsOpen.enter`, `IsSettled.advance`, `IsOpen.giveUp`, `IsOpen.record`, what each
move makes of an open chain, and `Nested.countP_isDefinition_le_one`. -/

namespace QueryAssist

open Grammar

namespace Link

/-- Whether the current step of a link **names** a construct. -/
def Names (l : Link) (k : RuleKind) : Prop := ∃ r, l.rule = some r ∧ k ∈ r.namesAt l.step

/-- A link is **live** if it stands at a place of the rule of its construct, and waits for a
separator only where its step has one. -/
structure IsLive (l : Link) (k : RuleKind) (r : Rule) : Prop where
  kind : l.kind = some k
  rule : l.rule = some r
  standard : standard k = some r
  placed : r.HasPlace l.step
  separated : l.needsSeparator = true → ∃ s sep, l.currentStep? = some (.separated s sep)
  cell : l.cell = none

/-- Whether a link is an operation or a fragment. -/
def isDefinition (l : Link) : Bool := l.kind.any RuleKind.isDefinition

/-- Whether a link stands for text outside the grammar. -/
def isOutside (l : Link) : Bool := l.kind == some .invalid || l.kind == some .comment

/-- The link at the next step. -/
def next (l : Link) : Link := { l with needsSeparator := false, step := l.step + 1 }

variable {l : Link} {k : RuleKind} {r : Rule}

/-- The next step is the one at the place of the link in its rule. -/
theorem currentStep?_eq_of_rule (h : l.rule = some r) : l.currentStep? = r.step? l.step := by
  simp [currentStep?, h]

/-- A live link stands inside the grammar. -/
theorem IsLive.isOutside_eq_false (h : l.IsLive k r) : l.isOutside = false := by
  have hk : k ≠ .invalid ∧ k ≠ .comment := by
    constructor <;> rintro rfl <;> cases h.standard
  simp [isOutside, h.kind, hk.1, hk.2]

/-- Names and types have no part in it. -/
theorem IsLive.relabel (h : l.IsLive k r) (n t : Option String) :
    IsLive { l with name := n, type := t } k r :=
  ⟨h.kind, h.rule, h.standard, h.placed, h.separated, h.cell⟩

/-- Nor has a due advance. -/
theorem IsLive.setAdvance (h : l.IsLive k r) (b : Bool) :
    IsLive { l with needsAdvance := b } k r :=
  ⟨h.kind, h.rule, h.standard, h.placed, h.separated, h.cell⟩

/-- A live link has a place left. -/
theorem IsLive.isComplete_eq_false {ss : List Step} (h : l.IsLive k (.steps ss)) :
    l.isComplete = false := by
  have hs : ¬(Rule.steps ss).length ≤ l.step := Nat.not_le.2 h.placed
  simp [isComplete, h.rule, hs]

/-- The link at the next step is live unless it is complete. -/
theorem IsLive.next (h : l.IsLive k r) :
    l.next.isComplete = true ∨ ∃ ss, r = .steps ss ∧ l.next.IsLive k r := by
  -- A fork has one place only, so going on completes it.
  cases r with
  | fork f => exact .inl (by simp [isComplete, Link.next, h.rule, Rule.length])
  | steps ss =>
    by_cases hs : l.step + 1 < ss.length
    · refine .inr ⟨ss, rfl, h.kind, h.rule, h.standard, hs, ?_, h.cell⟩
      simp [Link.next]
    · refine .inl ?_
      simp only [isComplete, Link.next, h.rule, Rule.length, Option.any_some, decide_eq_true_eq]
      omega

/-- The cases of taking a construct up again. -/
theorem IsLive.resume_cases (h : l.IsLive k r) :
    (∃ s, l.currentStep? = some (.list s) ∧ l.resume = l) ∨
    (∃ s sep, l.currentStep? = some (.separated s sep) ∧
      l.resume = { l with needsSeparator := !l.needsSeparator }) ∨
    ((∀ s, l.currentStep? = some s → s.isList = false) ∧ l.resume = l.next) := by
  have hr : l.rule.isNone = false := by rw [h.rule]; rfl
  unfold resume
  rw [hr]
  simp only [Bool.false_eq_true, if_false]
  split
  · next s hs => exact .inl ⟨s, hs, rfl⟩
  · next s sep hs => exact .inr (.inl ⟨s, sep, hs, rfl⟩)
  · next hlist hsep =>
    refine .inr (.inr ⟨fun s hs => ?_, rfl⟩)
    cases s with
    | list b => exact absurd hs (hlist b)
    | separated b sep => exact absurd hs (hsep b sep)
    | _ => rfl

/-- A step is only found in a list of steps. -/
theorem IsLive.steps_of_currentStep? {s : Step} (h : l.IsLive k r) (hs : l.currentStep? = some s) :
    ∃ ss, r = .steps ss ∧ ss[l.step]? = some s := by
  rw [currentStep?_eq_of_rule h.rule] at hs
  cases r with
  | steps ss => exact ⟨ss, rfl, hs⟩
  | fork f => cases hs

/-- A fork waits for no separator. -/
theorem IsLive.needsSeparator_fork {f : Fork} (h : l.IsLive k (.fork f)) :
    l.needsSeparator = false := by
  refine Bool.eq_false_iff.2 fun hn => ?_
  obtain ⟨s, sep, hs⟩ := h.separated hn
  obtain ⟨ss, hr, -⟩ := h.steps_of_currentStep? hs
  cases hr

/-- A construct that is taken up again is live unless it is complete. -/
theorem IsLive.resume (h : l.IsLive k r) :
    l.resume.isComplete = true ∨ ∃ ss, r = .steps ss ∧ l.resume.IsLive k r := by
  -- A list stays where it is, one with separators turns, and any other step is over.
  obtain ⟨s, hs, hl⟩ | ⟨s, sep, hs, hl⟩ | ⟨-, hl⟩ := h.resume_cases
  · obtain ⟨ss, rfl, -⟩ := h.steps_of_currentStep? hs
    exact .inr ⟨ss, rfl, hl.symm ▸ h⟩
  · obtain ⟨ss, rfl, -⟩ := h.steps_of_currentStep? hs
    refine .inr ⟨ss, rfl, ?_⟩
    rw [hl]
    exact ⟨h.kind, h.rule, h.standard, h.placed, fun _ => ⟨s, sep, hs⟩, h.cell⟩
  · rw [hl]
    exact h.next

/-- Taking a link up again makes nothing due. -/
@[simp] theorem needsAdvance_resume (l : Link) : l.resume.needsAdvance = l.needsAdvance := by
  unfold Link.resume
  repeat' split
  all_goals rfl

/-- The link of the document stays at its one step. -/
theorem IsLive.document_step (h : l.IsLive .document r) :
    r = .steps [.list (.rule .definition)] ∧ l.step = 0 := by
  obtain rfl : Rule.steps [.list (.rule .definition)] = r := Option.some.inj h.standard
  have := h.placed
  simp only [Rule.HasPlace, List.length_singleton, Nat.lt_one_iff] at this
  exact ⟨rfl, this⟩

/-- The next step of a document is always a definition, as often as there are any. -/
theorem IsLive.currentStep?_document (h : l.IsLive .document r) :
    l.currentStep? = some (.list (.rule .definition)) := by
  obtain ⟨rfl, hs⟩ := h.document_step
  rw [currentStep?_eq_of_rule h.rule, hs]
  rfl

/-- A document that is taken up again is where it was. -/
theorem IsLive.resume_document (h : l.IsLive .document r) : l.resume = l := by
  have := h.currentStep?_document
  simp [Link.resume, h.rule, this]

end Link

/-- **Nested** links, innermost first: each is live and named by the step of the one around it; last
come the document and the root. -/
inductive Nested : List Link → Prop
  /-- The document in the root. -/
  | document {l : Link} {r : Rule} (h : l.IsLive .document r) : Nested [l, {}]
  /-- A construct inside another. -/
  | inside {l p : Link} {ls : List Link} {k : RuleKind} {r : Rule} (h : l.IsLive k r)
      (hp : p.Names k) (hs : Nested (p :: ls)) : Nested (l :: p :: ls)

namespace Nested

variable {l p : Link} {ls : List Link}

/-- The innermost link of nested links is live. -/
theorem isLive_head (h : Nested (l :: ls)) : ∃ k r, l.IsLive k r := by
  cases h with
  | document h => exact ⟨_, _, h⟩
  | inside h _ _ => exact ⟨_, _, h⟩

/-- Another live link of the same construct fits in the place of the innermost one. -/
theorem replace_head {l' : Link} {k : RuleKind} {r : Rule} (h : Nested (l :: ls))
    (hl : l.IsLive k r) (hl' : l'.IsLive k r) : Nested (l' :: ls) := by
  cases h with
  | document h =>
    obtain rfl : RuleKind.document = k := Option.some.inj (h.kind.symm.trans hl.kind)
    exact .document hl'
  | inside h hp hs =>
    obtain rfl := Option.some.inj (h.kind.symm.trans hl.kind)
    exact .inside hl' hp hs

/-- No construct is around a document that names it. -/
theorem document_notMem (hp : p.Names .document) (h : Nested (p :: ls)) : False := by
  obtain ⟨k, r, hl⟩ := h.isLive_head
  obtain ⟨r', hr, hk⟩ := hp
  obtain rfl := Option.some.inj (hr.symm.trans hl.rule)
  exact document_notMem_names hl.standard (Rule.mem_names_of_mem_namesAt hk)

/-- Around the document is only the root. -/
theorem eq_root_of_document (h : Nested (l :: ls)) (hk : l.kind = some .document) :
    ls = [{}] := by
  cases h with
  | document => rfl
  | inside h hp hs =>
    obtain rfl := Option.some.inj (h.kind.symm.trans hk)
    exact (document_notMem hp hs).elim

/-- Around a choice of definition is only the document. -/
theorem eq_document_of_definition (h : Nested (l :: ls)) (hk : l.kind = some .definition) :
    ∃ d : Link, d.kind = some .document ∧ ls = [d, {}] := by
  cases h with
  | document h => exact absurd (h.kind.symm.trans hk) (by decide)
  | inside h hp hs =>
    obtain rfl := Option.some.inj (h.kind.symm.trans hk)
    obtain ⟨k, r, hl⟩ := hs.isLive_head
    obtain ⟨r', hr, hk'⟩ := hp
    obtain rfl := Option.some.inj (hr.symm.trans hl.rule)
    -- Only the document names the choice of definition.
    obtain rfl := eq_document_of_definition_mem_names hl.standard
      (Rule.mem_names_of_mem_namesAt hk')
    exact ⟨_, hl.kind, by rw [hs.eq_root_of_document hl.kind]⟩

/-- Around an operation or a fragment is no other one. -/
theorem countP_eq_zero_of_isDefinition (h : Nested (l :: ls)) (hd : l.isDefinition = true) :
    ls.countP Link.isDefinition = 0 := by
  obtain ⟨k, hk, hd⟩ := (Option.any_eq_true _ _).1 hd
  cases h with
  | document => simp [Link.isDefinition]
  | inside h hp hs =>
    obtain rfl := Option.some.inj (h.kind.symm.trans hk)
    obtain ⟨k', r, hl⟩ := hs.isLive_head
    obtain ⟨r', hr, hk'⟩ := hp
    obtain rfl := Option.some.inj (hr.symm.trans hl.rule)
    obtain rfl := eq_definition_of_mem_names hl.standard (Rule.mem_names_of_mem_namesAt hk') hd
    obtain ⟨d, hd, rfl⟩ := hs.eq_document_of_definition hl.kind
    simp [Link.isDefinition, hl.kind, hd, RuleKind.isDefinition]

/-- No nested link stands outside the grammar. -/
theorem countP_isOutside (h : Nested ls) : ls.countP Link.isOutside = 0 := by
  induction h with
  | document h => simp [Link.isOutside, h.kind]
  | inside h _ _ ih => rw [List.countP_cons_of_neg (by simp [h.isOutside_eq_false]), ih]

/-- Nested links end in the document at its one step and the root. -/
theorem exists_eq_append_document (h : Nested ls) :
    ∃ (ms : List Link) (d : Link), ls = ms ++ [d, {}] ∧ d.kind = some .document ∧ d.step = 0 := by
  induction h with
  | @document l r h => exact ⟨[], l, rfl, h.kind, h.document_step.2⟩
  | @inside l p ls k r h hp hs ih =>
    obtain ⟨ms, d, he, hd⟩ := ih
    exact ⟨l :: ms, d, by rw [he]; rfl, hd⟩

/-- **At most one link** is an operation or a fragment. -/
theorem countP_isDefinition_le_one (h : Nested ls) : ls.countP Link.isDefinition ≤ 1 := by
  induction h with
  | document h => simp [Link.isDefinition, h.kind, RuleKind.isDefinition]
  | @inside l p ls k r h hp hs ih =>
    -- A definition has no other one around it, so its own count is all there is.
    by_cases hd : l.isDefinition = true
    · have := (Nested.inside h hp hs).countP_eq_zero_of_isDefinition hd
      rw [List.countP_cons_of_pos hd]
      omega
    · rwa [List.countP_cons_of_neg hd]

end Nested

end QueryAssist
