/-! # Steps that can fail

What is done in two steps fails as soon as one of them does. Main statements: `bind_eq_ok_iff` and
`bind_eq_error_iff`, which tell the ways to either end. -/

namespace QueryAssist

variable {α β ε : Type} {x : Except ε α} {f : α → Except ε β}

/-- Two steps get to something **if each gets to something** in turn. -/
theorem bind_eq_ok_iff {b : β} : (x >>= f) = .ok b ↔ ∃ a, x = .ok a ∧ f a = .ok b := by
  cases x with
  | error e => simp [bind, Except.bind]
  | ok a => simp [bind, Except.bind]

/-- Two steps fail **if one of them fails**, the second one after the first has got to something. -/
theorem bind_eq_error_iff {e : ε} :
    (x >>= f) = .error e ↔ x = .error e ∨ ∃ a, x = .ok a ∧ f a = .error e := by
  cases x with
  | error e => simp [bind, Except.bind]
  | ok a => simp [bind, Except.bind]

end QueryAssist
