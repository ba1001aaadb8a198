import QueryAssist.Proofs.Grammar.Lookahead

/-! # How derivations end

Which tokens can end a construct, as the openings tell which can begin one. A definition that can
end with a closing brace cannot go on after it. Main definition:

* **`RuleKind.closings`** — the classes of the tokens that end a construct.

Main statements: `Derives.endsIn_closings`, and `extensions_eq_nil_of_closes`. -/

namespace QueryAssist

namespace Grammar

/-- The classes of the tokens that end a step, from those that end the constructs. -/
def stepClosings (cl : RuleKind → List Matcher) (s : Step) : List Matcher :=
  match s.body with
  | .terminal e => [e.matcher]
  | .rule k => cl k
  | _ => []

/-- The classes of the tokens that end some steps, past those that may be left out. -/
def seqClosings (cl : RuleKind → List Matcher) : List Step → List Matcher
  | [] => []
  | s :: ss => (if ss.all Step.isSkippable then stepClosings cl s else []) ++ seqClosings cl ss

/-- The classes of the tokens that end a construct, through at most some number of constructs. -/
def closings : Nat → RuleKind → List Matcher
  | 0, _ => []
  | n + 1, k =>
    match standard k with
    | some (.steps ss) => seqClosings (closings n) ss
    | some (.fork f) => f.answers.flatMap (closings n)
    | none => []

end Grammar

/-- The **closings** of a construct: the classes of the tokens that end it. -/
def RuleKind.closings (k : RuleKind) : List Matcher := Grammar.closings 6 k

namespace Grammar

/-- The closings of some steps. -/
abbrev allClosings (ss : List Step) : List Matcher := seqClosings RuleKind.closings ss

/-- A construct ends as its steps do. -/
theorem closings_of_steps {k : RuleKind} {ss : List Step} (h : standard k = some (.steps ss)) :
    k.closings = allClosings ss := by
  have := of_allSteps (p := fun k ss => k.closings == allClosings ss) (by decide) h
  exact eq_of_beq this

/-- A fork ends as one of its answers does. -/
theorem closings_of_fork {k : RuleKind} {f : Fork} (h : standard k = some (.fork f)) :
    k.closings = f.answers.flatMap RuleKind.closings := by
  have := of_allForks (p := fun k f => k.closings == f.answers.flatMap RuleKind.closings)
    (by decide) h
  exact eq_of_beq this

/-- A definition that can go on where it could end does not end with a closing brace. -/
theorem extensions_eq_nil_of_closes {k : RuleKind} {t : Token} (hk : k ∈ Fork.answers .definition)
    (ht : ∃ m ∈ k.closings, m.accepts t = true) (hb : t = ⟨.punctuation, "\x7d"⟩) :
    k.extensions = [] := by
  have hall : (Fork.answers .definition).all (fun k => k.extensions.isEmpty ||
      k.closings.all fun m => !m.accepts ⟨.punctuation, "\x7d"⟩) = true := by decide
  obtain ⟨m, hm, ha⟩ := ht
  rw [hb] at ha
  have := List.all_eq_true.1 hall k hk
  rw [Bool.or_eq_true, List.isEmpty_iff] at this
  refine this.resolve_right fun hc => ?_
  simpa [ha] using List.all_eq_true.1 hc m hm

variable {s : Step} {ss : List Step}

/-- A marked step ends as the one under its mark does. -/
theorem stepClosings_body (cl : RuleKind → List Matcher) (h : s.body.isBare = true) :
    stepClosings cl s.body = stepClosings cl s := by
  unfold stepClosings
  generalize s.body = b at h
  cases b with
  | terminal | rule => rfl
  | _ => cases h

/-- The closings of one step are its own. -/
theorem allClosings_singleton (s : Step) :
    allClosings [s] = stepClosings RuleKind.closings s := by
  simp [allClosings, seqClosings]

end Grammar

namespace Derives

open Grammar

variable {s : Step} {ss : List Step} {v w : List SpacedToken}

/-- Whether each last token of some lists is in some classes. -/
def EndsIn (w : List SpacedToken) (ms : List Matcher) : Prop :=
  ∀ x ∈ w.getLast?, ∃ m ∈ ms, m.accepts x.token = true

/-- A last token in some classes is in more of them. -/
theorem EndsIn.mono {ms ns : List Matcher} (h : EndsIn w ms) (hm : ms ⊆ ns) : EndsIn w ns := by
  intro x hx
  obtain ⟨m, hm', ha⟩ := h x hx
  exact ⟨m, hm hm', ha⟩

/-- Two lists end as the second one does, or as the first one if that has no token. -/
theorem EndsIn.append {ms : List Matcher} (hw : EndsIn w ms) (hv : w = [] → EndsIn v ms) :
    EndsIn (v ++ w) ms := by
  cases w with
  | nil =>
    rw [List.append_nil]
    exact hv rfl
  | cons y w =>
    intro x hx
    exact hw x (by simpa [List.getLast?_append, List.getLast?_cons] using hx)

/-- What a first step and the others derive ends as the whole does. -/
theorem EndsIn.cons (hv : EndsIn v (stepClosings RuleKind.closings s))
    (hw : EndsIn w (allClosings ss)) (h : Derives ss w) (ho : isOrderly ss = true) :
    EndsIn (v ++ w) (allClosings (s :: ss)) := by
  -- If the others derive nothing they may all be left out, so the first step may end the whole.
  refine (hw.mono (List.subset_append_right _ _)).append fun hn => ?_
  subst hn
  refine hv.mono ?_
  unfold allClosings seqClosings
  rw [if_pos (h.all_isSkippable ho)]
  exact List.subset_append_left _ _

/-- The **last token** of what some steps derive is in one of their closings. -/
theorem endsIn_closings (h : Derives ss w) (ho : isOrderly ss = true) :
    EndsIn w (allClosings ss) := by
  -- The induction is on the derivation. A step ends the whole if the steps after it derive nothing.
  induction h with
  | nil => nofun
  | @terminal e x ss w he h ih =>
    refine EndsIn.cons (v := [x]) ?_ (ih (isOrderly_tail ho)) h
      (isOrderly_tail ho)
    intro y hy
    obtain rfl : x = y := Option.some.inj hy
    exact ⟨e.matcher, List.mem_singleton_self _, he⟩
  | construct hk hv h ihv ih =>
    refine .cons ?_ (ih (isOrderly_tail ho)) h (isOrderly_tail ho)
    have := ihv (isOrderly_of_standard hk)
    rwa [← closings_of_steps hk] at this
  | @choice k k' f ss v w hk hf hs hv h ihv ih =>
    refine .cons ?_ (ih (isOrderly_tail ho)) h (isOrderly_tail ho)
    have := ihv (isOrderly_of_mem_answers hk hf)
    rw [allClosings_singleton] at this
    refine this.mono fun m hm => ?_
    have hc : stepClosings RuleKind.closings (.rule k) = k.closings := rfl
    rw [hc, closings_of_fork hk]
    exact List.mem_flatMap.2 ⟨k', hf, hm⟩
  | skip h ih | stop h ih =>
    exact (ih (isOrderly_tail ho)).mono (List.subset_append_right _ _)
  | keep hv h ihv ih | last hv h ihv ih =>
    have hvs := ihv (isOrderly_body ho)
    rw [allClosings_singleton] at hvs
    have hb := stepClosings_body RuleKind.closings (isBare_body ho)
    exact .cons (hb ▸ hvs) (ih (isOrderly_tail ho)) h (isOrderly_tail ho)
  | again hv h ihv ih =>
    refine (ih ho).append fun hn => ?_
    subst hn
    have hvs := ihv (isOrderly_body ho)
    rw [allClosings_singleton] at hvs
    have hb := stepClosings_body RuleKind.closings (isBare_body ho)
    refine (hb ▸ hvs : EndsIn _ _).mono ?_
    have hall := h.all_isSkippable ho
    rw [List.all_cons, Bool.and_eq_true] at hall
    unfold allClosings seqClosings
    rw [if_pos hall.2]
    exact List.subset_append_left _ _
  | next hv hu h ihv ihu ih =>
    rw [← List.append_assoc]
    refine (ih ho).append fun hn => ?_
    subst hn
    cases h.all_isSkippable ho

end Derives

end QueryAssist
