import QueryAssist.Proofs.Grammar.Naming

/-! # Sentences of the grammar

The rules of the constructs, read as a grammar, derive sequences of tokens. Where a fork chooses by
more than the first token the grammar says what it must find. Main definitions:

* **`SpacedToken`** — a token with the gap after it.
* **`RuleKind.Suits`** — what the tokens of a construct must be like for a fork to choose it.
* **`Derives`** — a list of steps derives a list of tokens. -/

namespace QueryAssist

/-- A **spaced token** is a token with the characters between it and the next one. -/
structure SpacedToken where
  /-- The token. -/
  token : Token
  /-- The characters after it. -/
  gap : List Char
  deriving DecidableEq, Repr, Inhabited

/-- A spaced token **stays on its line** if no line ends in the gap after it. -/
def SpacedToken.StaysOnLine (x : SpacedToken) : Prop := '\n' ∉ x.gap

instance (x : SpacedToken) : Decidable x.StaysOnLine :=
  inferInstanceAs (Decidable ('\n' ∉ x.gap))

/-- Whether the tokens of a construct **suit** it where a fork has to choose it. An alias is on one
line with its colon, and three dots with what follows them; a spread fragment is not named `on`; the
three literals that are words are no members of enums. -/
def RuleKind.Suits : RuleKind → List SpacedToken → Prop
  | .aliasedField, x :: _ => x.StaysOnLine
  | .inlineFragment, x :: _ => x.StaysOnLine
  | .fragmentSpread, x :: y :: _ => x.StaysOnLine ∧ y.token.text ≠ "on"
  | .booleanValue, x :: _ => x.token.text = "true" ∨ x.token.text = "false"
  | .nullValue, x :: _ => x.token.text = "null"
  | .enumValue, x :: _ => x.token.text ≠ "true" ∧ x.token.text ≠ "false" ∧ x.token.text ≠ "null"
  | _, _ => True

/-- A list of steps **derives** a list of tokens: a terminal derives a token that it accepts, a
construct what its steps derive or, in a fork, what one of its answers derives. -/
inductive Derives : List Step → List SpacedToken → Prop
  /-- No steps are left. -/
  | nil : Derives [] []
  /-- A token. -/
  | terminal {e : Terminal} {x : SpacedToken} {ss : List Step} {w : List SpacedToken}
      (he : e.accepts x.token = true) (h : Derives ss w) : Derives (.terminal e :: ss) (x :: w)
  /-- A construct that is a sequence. -/
  | construct {k : RuleKind} {ks ss : List Step} {v w : List SpacedToken}
      (hk : Grammar.standard k = some (.steps ks)) (hv : Derives ks v) (h : Derives ss w) :
      Derives (.rule k :: ss) (v ++ w)
  /-- A construct that is a fork. -/
  | choice {k k' : RuleKind} {f : Fork} {ss : List Step} {v w : List SpacedToken}
      (hk : Grammar.standard k = some (.fork f)) (hf : k' ∈ f.answers) (hs : k'.Suits v)
      (hv : Derives [.rule k'] v) (h : Derives ss w) : Derives (.rule k :: ss) (v ++ w)
  /-- A step that is left out. -/
  | skip {s : Step} {ss : List Step} {w : List SpacedToken} (h : Derives ss w) :
      Derives (.optional s :: ss) w
  /-- A step that may be left out but is not. -/
  | keep {s : Step} {ss : List Step} {v w : List SpacedToken} (hv : Derives [s] v)
      (h : Derives ss w) : Derives (.optional s :: ss) (v ++ w)
  /-- The end of a list. -/
  | stop {s : Step} {ss : List Step} {w : List SpacedToken} (h : Derives ss w) :
      Derives (.list s :: ss) w
  /-- A turn of a list. -/
  | again {s : Step} {ss : List Step} {v w : List SpacedToken} (hv : Derives [s] v)
      (h : Derives (.list s :: ss) w) : Derives (.list s :: ss) (v ++ w)
  /-- The last turn of a list with separators. -/
  | last {s sep : Step} {ss : List Step} {v w : List SpacedToken} (hv : Derives [s] v)
      (h : Derives ss w) : Derives (.separated s sep :: ss) (v ++ w)
  /-- A turn of a list with separators, and the separator before the next one. -/
  | next {s sep : Step} {ss : List Step} {u v w : List SpacedToken} (hv : Derives [s] v)
      (hu : Derives [sep] u) (h : Derives (.separated s sep :: ss) w) :
      Derives (.separated s sep :: ss) (v ++ (u ++ w))

namespace Derives

variable {ss : List Step} {w : List SpacedToken}

/-- No steps derive only nothing. -/
theorem eq_nil (h : Derives [] w) : w = [] := by
  cases h
  rfl

/-- A token derives only one that it accepts. -/
theorem accepts_head {e : Terminal} {x : SpacedToken} (h : Derives (.terminal e :: ss) (x :: w)) :
    e.accepts x.token = true := by
  cases h
  assumption

/-- The steps after a token derive what stands after it. -/
theorem tail {e : Terminal} {x : SpacedToken} (h : Derives (.terminal e :: ss) (x :: w)) :
    Derives ss w := by
  cases h
  assumption

/-- A construct that is a sequence derives what its steps derive. -/
theorem of_rule {k : RuleKind} (h : Derives [.rule k] w)
    (hk : Grammar.standard k = some (.steps ss)) : Derives ss w := by
  cases h with
  | construct hk' hv h =>
    obtain rfl := h.eq_nil
    cases hk.symm.trans hk'
    rwa [List.append_nil]
  | choice hk' => cases hk.symm.trans hk'

/-- A token stands before what the steps after it derive. -/
theorem exists_cons {e : Terminal} (h : Derives (.terminal e :: ss) w) :
    ∃ x v, w = x :: v ∧ e.accepts x.token = true ∧ Derives ss v := by
  cases h with
  | terminal he h => exact ⟨_, _, rfl, he, h⟩

/-- What a construct derives stands before what the steps after it derive. -/
theorem exists_append {k : RuleKind} {ks : List Step} (h : Derives (.rule k :: ss) w)
    (hk : Grammar.standard k = some (.steps ks)) :
    ∃ u v, w = u ++ v ∧ Derives ks u ∧ Derives ss v := by
  cases h with
  | construct hk' hv h =>
    cases hk.symm.trans hk'
    exact ⟨_, _, rfl, hv, h⟩
  | choice hk' => cases hk.symm.trans hk'

/-- So does what an optional step derives, if it is there. -/
theorem exists_append_optional {s : Step} (h : Derives (.optional s :: ss) w) :
    ∃ u v, w = u ++ v ∧ (u = [] ∨ Derives [s] u) ∧ Derives ss v := by
  cases h with
  | skip h => exact ⟨[], _, rfl, .inl rfl, h⟩
  | keep hv h => exact ⟨_, _, rfl, .inr hv, h⟩

/-- Steps derive what they derive, one list of them after another. -/
theorem append {ts : List Step} {v : List SpacedToken} (h : Derives ss v) (h' : Derives ts w) :
    Derives (ss ++ ts) (v ++ w) := by
  induction h with
  | nil => exact h'
  | terminal he _ ih => exact .terminal he ih
  | construct hk hv _ _ ih =>
    rw [List.append_assoc]
    exact .construct hk hv ih
  | choice hk hf hs hv _ _ ih =>
    rw [List.append_assoc]
    exact .choice hk hf hs hv ih
  | skip _ ih => exact .skip ih
  | keep hv _ _ ih =>
    rw [List.append_assoc]
    exact .keep hv ih
  | stop _ ih => exact .stop ih
  | again hv _ _ ih =>
    rw [List.append_assoc]
    exact .again hv ih
  | last hv _ _ ih =>
    rw [List.append_assoc]
    exact .last hv ih
  | next hv hu _ _ _ ih =>
    rw [List.append_assoc, List.append_assoc]
    exact .next hv hu ih

/-- What the steps of a construct derive is derived from the construct. -/
theorem rule {k : RuleKind} (hk : Grammar.standard k = some (.steps ss)) (h : Derives ss w) :
    Derives [.rule k] w := by
  have := construct hk h nil
  rwa [List.append_nil] at this

/-- What an answer of a fork derives is derived from the fork. -/
theorem answer {k a : RuleKind} {f : Fork} (hk : Grammar.standard k = some (.fork f))
    (hf : a ∈ f.answers) (hs : a.Suits w) (h : Derives [.rule a] w) : Derives [.rule k] w := by
  have := choice hk hf hs h nil
  rwa [List.append_nil] at this

end Derives

end QueryAssist
