import QueryAssist.Proofs.Grammar.Lookahead

/-! # Tokens that are kept out

Some constructs are made of each other only, and none of their tokens is of some classes. Then no
token of what they derive is. Main definition:

* **`Step.avoids`** — a step of such constructs and of tokens outside the classes.

Main statement: `Derives.isOutside_of_avoids`. -/

namespace QueryAssist

open Grammar Step

section Avoiding

variable (p : RuleKind → Bool) (ms : List Matcher)

/-- Whether a step **avoids** some classes of tokens, if some constructs do. -/
def Step.avoids : Step → Bool
  | terminal e => Matcher.areApart [e.matcher] ms
  | rule k => p k
  | optional s | list s => s.avoids
  | separated s sep => s.avoids && sep.avoids

/-- Whether a rule does. -/
def Rule.avoids : Rule → Bool
  | .steps ss => ss.all (Step.avoids p ms)
  | .fork f => f.answers.all p

/-- Whether some constructs are made of each other and of tokens outside of some classes. -/
def areClosed : Bool := RuleKind.all.all fun k => !p k || (standard k).all (Rule.avoids p ms)

variable {p ms}

/-- Each rule of constructs that are made of each other avoids the classes. -/
theorem avoids_of_areClosed (h : areClosed p ms = true) {k : RuleKind} {r : Rule}
    (hp : p k = true) (hk : standard k = some r) : r.avoids p ms = true := by
  have := List.all_eq_true.1 h k (RuleKind.mem_all k)
  rwa [hp, hk] at this

/-- What such constructs derive has **no token** of the classes in it. -/
theorem Derives.isOutside_of_avoids (hp : areClosed p ms = true) {ss : List Step}
    {w : List SpacedToken} (h : Derives ss w) (hs : ss.all (Step.avoids p ms) = true) :
    ∀ x ∈ w, x.token.IsOutside ms := by
  have hall : ∀ {s : Step} {ss : List Step}, (s :: ss).all (Step.avoids p ms) = true →
      s.avoids p ms = true ∧ ss.all (Step.avoids p ms) = true := by
    intro s ss hs
    simpa only [List.all_cons, Bool.and_eq_true] using hs
  -- The induction is on the derivation; inside a construct the constructs being closed is used.
  induction h with
  | nil => simp
  | terminal he _ ih =>
    obtain ⟨hs, hss⟩ := hall hs
    refine List.forall_mem_cons.2 ⟨?_, ih hss⟩
    exact Token.isOutside_of_areApart hs (List.mem_singleton_self _) he
  | construct hk _ _ ihv ih =>
    obtain ⟨hs, hss⟩ := hall hs
    exact List.forall_mem_append.2 ⟨ihv (avoids_of_areClosed hp hs hk), ih hss⟩
  | choice hk hf _ _ _ ihv ih =>
    obtain ⟨hs, hss⟩ := hall hs
    have hk' := List.all_eq_true.1 (avoids_of_areClosed hp hs hk) _ hf
    exact List.forall_mem_append.2 ⟨ihv (by simpa [Step.avoids] using hk'), ih hss⟩
  | skip _ ih | stop _ ih => exact ih (hall hs).2
  | keep _ _ ihv ih =>
    obtain ⟨hs, hss⟩ := hall hs
    exact List.forall_mem_append.2 ⟨ihv (by simpa [Step.avoids] using hs), ih hss⟩
  | again _ _ ihv ih =>
    have hv := (hall hs).1
    exact List.forall_mem_append.2 ⟨ihv (by simpa [Step.avoids] using hv), ih hs⟩
  | last _ _ ihv ih =>
    obtain ⟨hv, hss⟩ := hall hs
    simp only [Step.avoids, Bool.and_eq_true] at hv
    exact List.forall_mem_append.2 ⟨ihv (by simpa using hv.1), ih hss⟩
  | next _ _ _ ihv ihu ih =>
    have hv := (hall hs).1
    simp only [Step.avoids, Bool.and_eq_true] at hv
    exact List.forall_mem_append.2 ⟨ihv (by simpa using hv.1),
      List.forall_mem_append.2 ⟨ihu (by simpa using hv.2), ih hs⟩⟩

end Avoiding

/-! ### In parentheses -/

/-- The constructs that stand **in parentheses**. -/
def RuleKind.isInner : RuleKind → Bool
  | .variableDefinition | .variableUse | .defaultValue | .argument | .value | .numberValue
  | .stringValue | .booleanValue | .nullValue | .enumValue | .listValue | .objectValue
  | .objectField | .type | .listType | .nonNullType | .namedType => true
  | _ => false

/-- The two parentheses. -/
def parentheses : List Matcher := [.exactly .punctuation "(", .exactly .punctuation ")"]

/-- What stands in parentheses has none in it. -/
theorem Derives.isOutside_parentheses {ss : List Step} {w : List SpacedToken} (h : Derives ss w)
    (hs : ss.all (Step.avoids RuleKind.isInner parentheses) = true) :
    ∀ x ∈ w, x.token.IsOutside parentheses :=
  h.isOutside_of_avoids (by decide) hs

/-- The variables of an operation have no directives. -/
theorem Derives.isOutside_at {w : List SpacedToken}
    (h : Derives [.optional (.rule .variableDefinitions)] w) :
    ∀ x ∈ w, x.token.IsOutside [.exactly .punctuation "@"] := by
  let p (k : RuleKind) : Bool := k.isInner || k == .variableDefinitions
  have hp : areClosed p [.exactly .punctuation "@"] = true := by decide
  exact h.isOutside_of_avoids hp rfl

end QueryAssist
