import QueryAssist.Proofs.Typing.FirstToken

/-! # Typing the name of a directive

A directive has a mark, a name and perhaps arguments. Right behind the mark a name can only be that
of the directive. The directives are still suggested behind the name, where the arguments may
follow; a name that is typed there is read as what comes after the directive. Main statement:
`directive_append`, a name that is typed behind the mark. -/

namespace QueryAssist

open Chain

/-- Where directives are suggested a directive is open. -/
theorem kind_of_directive {c : Chain} (h : Position.ofChain? c = some .directive) :
    c.top.kind = some .directive := by
  by_cases hk : c.top.kind = some .namedType
  · simp only [Position.ofChain?, hk] at h
    unfold Position.ofTypeName? at h
    split at h <;> cases h
  · unfold Position.ofChain? at h
    split at h <;> simp_all

/-- **Any name behind the mark of a directive is its name.** At the end of a document that ends
apart, where directives are suggested and the one that is open has no name yet, a name that is added
is read as the name of the directive, with the same constructs around it. -/
theorem directive_append {q n : List Char} (hq : EndsApart q)
    (ho : Position.ofChain? (endToken q).chain.valid = some .directive)
    (hi : (endToken q).chain.valid.top.step = 1) (hn : IsName n) :
    (endToken (q ++ n)).chain.top.kind = some .directive ∧
      (endToken (q ++ n)).chain.top.name = some (String.ofList n) ∧
      (endToken (q ++ n)).chain.outer = (endToken q).chain.valid.outer := by
  have hspread : ¬AtSpread (endToken q).chain := fun hs => by cases ho.symm.trans hs
  obtain ⟨hd, -, -, ho⟩ := hq.settle ho
  rw [hq.valid_eq] at hi ⊢
  have hk := kind_of_directive ho
  rw [(hq.locate_append hn hspread).1, afterName_congr hd.settle_eq.symm, afterName,
    hd.react_directive hk hi]
  exact ⟨hk, rfl, rfl⟩

/-- The name of a directive on a field. -/
theorem directive_append_include :
    ∃ q n : List Char, q = "\x7b a(b: 1) @".toList ∧ n = "include".toList ∧ EndsApart q ∧
      Position.ofChain? (endToken q).chain.valid = some .directive ∧
      (endToken q).chain.valid.top.step = 1 ∧ IsName n ∧
      (endToken (q ++ n)).chain.top.kind = some .directive ∧
      (endToken (q ++ n)).chain.top.name = some "include" ∧
      ((endToken q).chain.valid.outer.head?.bind (·.kind)) = some .field ∧
      (endToken (q ++ n)).chain.outer = (endToken q).chain.valid.outer := by
  have hq : EndsApart "\x7b a(b: 1) @".toList :=
    ⟨(Scan.tokens "\x7b a(b: 1) @".toList).getLast (by decide +kernel),
      List.getLast?_eq_some_getLast _, by decide +kernel, .inr (by decide +kernel)⟩
  have ho : Position.ofChain? (endToken "\x7b a(b: 1) @".toList).chain.valid =
      some .directive := by decide +kernel
  have hi : (endToken "\x7b a(b: 1) @".toList).chain.valid.top.step = 1 := by decide +kernel
  have hn : IsName "include".toList := by decide +kernel
  obtain ⟨hk, hname, hout⟩ := directive_append hq ho hi hn
  exact ⟨_, _, rfl, rfl, hq, ho, hi, hn, hk, hname, by decide +kernel, hout⟩

/-- Behind the name of a directive the directives are still suggested, but a name is the next
field. -/
theorem directive_append_second :
    ∃ q n : List Char, q = "\x7b a @include ".toList ∧ n = "b".toList ∧ EndsApart q ∧
      Position.ofChain? (endToken q).chain.valid = some .directive ∧ IsName n ∧
      (endToken (q ++ n)).chain.top.kind = some .field ∧
      (endToken (q ++ n)).chain.top.name = some "b" := by
  have hq : EndsApart "\x7b a @include ".toList :=
    ⟨(Scan.tokens "\x7b a @include ".toList).getLast (by decide +kernel),
      List.getLast?_eq_some_getLast _, by decide +kernel, .inl (by decide +kernel)⟩
  exact ⟨_, _, rfl, rfl, hq, by decide +kernel, by decide +kernel, by decide +kernel,
    by decide +kernel⟩

end QueryAssist
