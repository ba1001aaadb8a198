import QueryAssist.Proofs.Chain.Frame

/-! # What stands around a construct

A construct is taken up again when the one inside it is complete, and if it is complete then itself
it is left for the one around it. Where that ends is known from the places that name a construct.
Main definitions:

* **`Grammar.namers`** — the places that name a construct.
* **`Grammar.resumesIn`** — whether everything that can be taken up again after a place is in some
  set.

Main statement: `Chain.resumesIn_unwind`, what is taken up again is. -/

namespace QueryAssist

open Grammar

/-- The place after a step that was taken, unless it was the last one. -/
def Rule.after? : Rule → Nat → Option Nat
  | .fork _, _ => none
  | .steps ss, i =>
    if ss[i]?.any Step.isList then some i else if i + 1 < ss.length then some (i + 1) else none

namespace Grammar

/-- The constructs and steps that **name** a construct. -/
def namers (k : RuleKind) : List (RuleKind × Nat) :=
  RuleKind.all.flatMap fun k' =>
    match standard k' with
    | some (.fork f) => if k ∈ f.answers then [(k', 0)] else []
    | some (.steps ss) =>
      ((List.range ss.length).filter fun i => k ∈ (Rule.steps ss).namesAt i).map fun i => (k', i)
    | none => []

/-- Whether after a step of a construct was taken **it is taken up again** at a place with a
property, or one around it is, with at most a given number of constructs left for that. -/
def resumesIn (p : RuleKind → Nat → Bool) : Nat → RuleKind → Nat → Bool
  | 0, _, _ => false
  | n + 1, k, i =>
    match (standard k).bind (·.after? i) with
    | some j => p k j
    | none => (namers k).all fun q => resumesIn p n q.1 q.2

end Grammar

namespace Link

variable {l : Link} {k k' : RuleKind} {r : Rule}

/-- What names a construct is among its namers. -/
theorem IsLive.mem_namers (h : l.IsLive k' r) (hn : l.Names k) : (k', l.step) ∈ namers k := by
  obtain ⟨r', hr', hmem⟩ := hn
  obtain rfl := Option.some.inj (h.rule.symm.trans hr')
  refine List.mem_flatMap.2 ⟨k', RuleKind.mem_all k', ?_⟩
  rw [h.standard]
  cases r with
  | fork f =>
    have hf : k ∈ f.answers := hmem
    have h0 : l.step = 0 := h.placed
    simp [hf, h0]
  | steps ss =>
    have hp : l.step < ss.length := h.placed
    simp [hp, hmem]

/-- A construct is taken up again at the place after its step. -/
theorem IsLive.after?_eq (h : l.IsLive k r) :
    r.after? l.step = if l.resume.isComplete then none else some l.resume.step := by
  cases r with
  | fork f =>
    obtain hc | ⟨ss, hr, -⟩ := h.resume
    · rw [hc]
      rfl
    · cases hr
  | steps ss =>
    have hany : ss[l.step]?.any Step.isList = l.currentStep?.any Step.isList := by
      rw [currentStep?_eq_of_rule h.rule]
      rfl
    have hcomp := h.isComplete_eq_false
    rw [Rule.after?, hany]
    -- A list is taken up at its own step, any other step at the next one.
    obtain ⟨s, hs, hr⟩ | ⟨s, sep, hs, hr⟩ | ⟨hno, hr⟩ := h.resume_cases
    · rw [hr, hs, hcomp]
      rfl
    · have hturn : l.resume.isComplete = false := by
        rw [hr]
        exact hcomp
      rw [hturn, hs, hr]
      rfl
    · have hlist : l.currentStep?.any Step.isList = false := by
        cases hs : l.currentStep? with
        | none => rfl
        | some s => exact hno s hs
      have hnext : l.next.isComplete = decide (ss.length ≤ l.step + 1) := by
        rw [isComplete, show l.next.rule = some (.steps ss) from h.rule]
        rfl
      rw [hlist, hr, hnext]
      by_cases hlt : l.step + 1 < ss.length
      · simp [hlt, Link.next]
      · simp [hlt, Nat.le_of_not_lt hlt]

end Link

/-- Around a construct other than the document is one that **names** it. -/
theorem Nested.exists_around {l : Link} {ls : List Link} {k : RuleKind} (h : Nested (l :: ls))
    (hk : l.kind = some k) (hd : k ≠ .document) :
    ∃ p ps k' r, ls = p :: ps ∧ p.IsLive k' r ∧ (k', p.step) ∈ namers k ∧ Nested (p :: ps) := by
  cases h with
  | document hl => exact absurd (Option.some.inj (hk.symm.trans hl.kind)) hd
  | @inside _ p ps k₁ r hl hp hs =>
    obtain rfl := Option.some.inj (hl.kind.symm.trans hk)
    obtain ⟨k', r', hl'⟩ := hs.isLive_head
    exact ⟨p, ps, k', r', rfl, hl', hl'.mem_namers hp, hs⟩

/-- Around a construct of some kinds that only constructs of these kinds or some places name is one
of **these places**. -/
theorem Nested.exists_place_around {p : RuleKind → Bool} {q : RuleKind → Nat → Bool}
    {ls : List Link} (h : Nested ls)
    (hpq : RuleKind.all.all fun k => !p k ||
      k != .document && (namers k).all fun x => p x.1 || q x.1 x.2)
    {l : Link} (hl : l ∈ ls) (hp : l.kind.any p = true) :
    ∃ m ∈ ls, m.kind.any (q · m.step) = true := by
  induction h generalizing l with
  | @document d r hd =>
    rcases List.mem_cons.1 hl with rfl | hl
    · have := List.all_eq_true.1 hpq _ (RuleKind.mem_all .document)
      rw [hd.kind] at hp
      simp_all
    · obtain rfl := List.mem_singleton.1 hl
      cases hp
  | @inside t o ls k r ht ho hs ih =>
    rcases List.mem_cons.1 hl with rfl | hl
    · -- What names the construct is of the same kinds, and the look goes on, or is a place.
      obtain ⟨k', r', ho'⟩ := hs.isLive_head
      have hk := List.all_eq_true.1 hpq k (RuleKind.mem_all k)
      rw [show p k = true by simpa [ht.kind] using hp, Bool.not_true, Bool.false_or,
        Bool.and_eq_true] at hk
      have hx := List.all_eq_true.1 hk.2 _ (ho'.mem_namers ho)
      obtain hx | hx := Bool.or_eq_true_iff.1 hx
      · obtain ⟨m, hm, hq⟩ := ih List.mem_cons_self (by rw [ho'.kind]; exact hx)
        exact ⟨m, List.mem_cons_of_mem _ hm, hq⟩
      · exact ⟨o, List.mem_cons_of_mem _ List.mem_cons_self, by rw [ho'.kind]; exact hx⟩
    · obtain ⟨m, hm, hq⟩ := ih hl hp
      exact ⟨m, List.mem_cons_of_mem _ hm, hq⟩

/-- **What is taken up again** after a step is at one of the places that the grammar allows. -/
theorem Chain.resumesIn_unwind {p : RuleKind → Nat → Bool} {n : Nat} {l : Link} {ls : List Link}
    {k : RuleKind} {r : Rule} (hp : Plain (l :: ls)) (hs : Nested (l :: ls)) (h : l.IsLive k r)
    (hn : resumesIn p n k l.step = true) :
    ∃ k', (unwind l.resume ls).top.kind = some k' ∧ p k' (unwind l.resume ls).top.step = true := by
  induction n generalizing l ls k r with
  | zero => cases hn
  | succ n ih =>
    rw [resumesIn, h.standard, Option.bind_some, h.after?_eq] at hn
    cases hc : l.resume.isComplete with
    | false =>
      rw [unwind_eq_self hc]
      rw [hc] at hn
      refine ⟨k, ?_, hn⟩
      obtain ⟨i, b, -, hr⟩ := l.exists_resume_eq_place
      rw [hr]
      exact h.kind
    | true =>
      -- It is not the document, which is never complete, so there is a construct around it.
      have hd : k ≠ .document := by
        rintro rfl
        obtain ⟨rfl, -⟩ := h.document_step
        rw [h.resume_document, h.isComplete_eq_false] at hc
        cases hc
      obtain ⟨q, qs, k', r', rfl, hq, hm, hs'⟩ := hs.exists_around h.kind hd
      rw [hc] at hn
      rw [unwind_cons hc ((Link.needsAdvance_resume l).trans hp.head.1) hp.tail]
      exact ih hp.tail hs' hq (List.all_eq_true.1 hn _ hm)

end QueryAssist
