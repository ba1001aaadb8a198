import QueryAssist.Proofs.Grammar.Sentence

/-! # One token of lookahead

Which tokens can begin a construct, and which can only go on with one that could end here. The
standard grammar keeps the two apart wherever a step may be passed over, so the next token always
tells whether to go on. Main definitions:

* **`Matcher.isApart`** — whether no token is in both of two classes.
* **`Step.openings`** — the classes of the tokens that begin a step.
* **`Step.extensions`** — the classes of the tokens that go on with a step that could end.
* **`Grammar.isOrderly`** — whether the openings and extensions of some steps are apart.

Main statements: `isOrderly_of_standard`, and `Derives.head_mem_openings`, the first token of what
some steps derive is in one of their openings. -/

namespace QueryAssist

/-! ### Classes of tokens -/

namespace Matcher

/-- Whether two classes without exclusions share **no token**. -/
def isApartPlain : Matcher → Matcher → Bool
  | kind a, kind b | kind a, exactly b _ | exactly a _, kind b => a != b
  | exactly a x, exactly b y => a != b || x != y
  | _, _ => false

/-- Whether no token is in both of two classes, as far as their kinds, texts and exclusions tell. -/
def isApart : Matcher → Matcher → Bool
  | without m e, n => m.isApart n || e == n
  | m, without n e => m.isApartPlain n || e == m
  | m, n => m.isApartPlain n

/-- A token of one class is not in a class apart from it. -/
theorem not_accepts_of_isApartPlain {m n : Matcher} {t : Token} (h : m.isApartPlain n = true)
    (hm : m.accepts t = true) : n.accepts t = false := by
  cases m <;> cases n <;> simp_all [isApartPlain, accepts]
  grind

/-- A token in one of two classes that are apart is not in the other. -/
theorem not_accepts_of_isApart {m n : Matcher} {t : Token} (h : m.isApart n = true)
    (hm : m.accepts t = true) : n.accepts t = false := by
  -- Exceptions are taken away first, so that in the end two plain classes are compared.
  induction m with
  | without m e ih _ =>
    simp only [accepts, Bool.and_eq_true] at hm
    rw [isApart, Bool.or_eq_true] at h
    rcases h with h | h
    · exact ih h hm.1
    · rw [← eq_of_beq h]
      simpa using hm.2
  | kind a =>
    cases n with
    | without n e =>
      rw [isApart, Bool.or_eq_true] at h
      · rcases h with h | h
        · simp [accepts, not_accepts_of_isApartPlain h hm]
        · simp [accepts, eq_of_beq h, hm]
      · intro m e he
        cases he
    | kind b => exact not_accepts_of_isApartPlain h hm
    | exactly b y => exact not_accepts_of_isApartPlain h hm
  | exactly a x =>
    cases n with
    | without n e =>
      rw [isApart, Bool.or_eq_true] at h
      · rcases h with h | h
        · simp [accepts, not_accepts_of_isApartPlain h hm]
        · simp [accepts, eq_of_beq h, hm]
      · intro m e he
        cases he
    | kind b => exact not_accepts_of_isApartPlain h hm
    | exactly b y => exact not_accepts_of_isApartPlain h hm

/-- Whether no token is in a class of both lists. -/
def areApart (ms ns : List Matcher) : Bool := ms.all fun m => ns.all fun n => m.isApart n

end Matcher

/-- A token is **outside** some classes if none of them has it. -/
def Token.IsOutside (t : Token) (ms : List Matcher) : Prop := ∀ m ∈ ms, m.accepts t = false

/-- A token of some classes is outside those that are apart from them. -/
theorem Token.isOutside_of_areApart {t : Token} {ms ns : List Matcher} {m : Matcher}
    (h : Matcher.areApart ns ms = true) (hm : m ∈ ns) (ha : m.accepts t = true) : t.IsOutside ms :=
  fun n hn => Matcher.not_accepts_of_isApart (List.all_eq_true.1 (List.all_eq_true.1 h m hm) n hn)
    ha

/-- A token is outside all classes of two lists if it is outside those of each. -/
@[simp] theorem Token.isOutside_append {t : Token} {ms ns : List Matcher} :
    t.IsOutside (ms ++ ns) ↔ t.IsOutside ms ∧ t.IsOutside ns := by
  simp [IsOutside, or_imp, forall_and]

/-- Every token is outside no classes. -/
@[simp] theorem Token.isOutside_nil (t : Token) : t.IsOutside [] := by simp [IsOutside]

/-! ### Openings -/

namespace Grammar

/-- The classes of the tokens that begin a construct, which enters at most some number of others
first. -/
def openings : Nat → RuleKind → List Matcher
  | 0, _ => []
  | n + 1, k =>
    match standard k with
    | some (.steps (.terminal e :: _)) => [e.matcher]
    | some (.steps (.rule k' :: _)) => openings n k'
    | some (.fork f) => f.answers.flatMap (openings n)
    | _ => []

end Grammar

namespace Step

/-- Whether a step is a token or a construct without a mark. -/
def isBare : Step → Bool
  | terminal _ => true
  | rule k => k != .document
  | _ => false

/-- Whether a step may derive nothing. -/
def isSkippable : Step → Bool
  | optional _ | list _ => true
  | _ => false

/-- The **openings** of a step: the classes of the tokens that begin it. -/
def openings (s : Step) : List Matcher :=
  match s.body with
  | terminal e => [e.matcher]
  | rule k => Grammar.openings 3 k
  | _ => []

end Step

namespace Grammar

/-- The openings of some steps, past those that may be left out. -/
def seqOpenings : List Step → List Matcher
  | [] => []
  | s :: ss => s.openings ++ if s.isSkippable then seqOpenings ss else []

/-- What begins one step alone are its openings. -/
theorem seqOpenings_singleton (s : Step) : seqOpenings [s] = s.openings := by
  simp [seqOpenings]

/-! ### Extensions -/

/-- The classes that a step has for extensions, from those of the constructs. A mark adds what
begins another turn, or the step itself, or the separator. -/
def stepExtensions (ext : RuleKind → List Matcher) (s : Step) : List Matcher :=
  (match s with
    | .optional b | .list b => b.openings
    | .separated _ sep => sep.openings
    | _ => []) ++
  match s.body with
  | .rule k => ext k
  | _ => []

/-- The extensions of some steps: those of each step after which the others may be left out. -/
def seqExtensions (ext : RuleKind → List Matcher) : List Step → List Matcher
  | [] => []
  | s :: ss =>
    (if ss.all Step.isSkippable then stepExtensions ext s else []) ++ seqExtensions ext ss

/-- What must not stand after a choice: a colon makes an alias of a field. -/
def bars : Fork → List Matcher
  | .selection => [.exactly .punctuation ":"]
  | _ => []

/-- The classes of the tokens that go on with a construct that could end, through at most some
number of constructs. -/
def extensions : Nat → RuleKind → List Matcher
  | 0, _ => []
  | n + 1, k =>
    match standard k with
    | some (.steps ss) => seqExtensions (extensions n) ss
    | some (.fork f) => bars f ++ f.answers.flatMap (extensions n)
    | none => []

end Grammar

/-- The **extensions** of a construct: the classes of the tokens that go on with it where it could
end. -/
def RuleKind.extensions (k : RuleKind) : List Matcher := Grammar.extensions 6 k

/-- The **extensions** of a step. -/
def Step.extensions (s : Step) : List Matcher := Grammar.stepExtensions RuleKind.extensions s

namespace Grammar

/-- The extensions of some steps. -/
abbrev allExtensions (ss : List Step) : List Matcher := seqExtensions RuleKind.extensions ss

/-! ### The order of the standard grammar -/

/-- Whether a step marks at most a bare one. -/
def isFlat : Step → Bool
  | .optional b | .list b => b.isBare
  | .separated b sep => b.isBare && (sep.isBare && !sep.openings.isEmpty)
  | s => s.isBare

/-- Whether the turns of a repeated step are told apart by their first token. -/
def hasClearTurns : Step → Bool
  | .list b => Matcher.areApart b.openings b.extensions
  | .separated b sep =>
    Matcher.areApart sep.openings b.extensions && Matcher.areApart b.openings sep.extensions
  | _ => true

/-- Some steps are **orderly** if each is flat and can be begun, and what begins the steps after it
neither goes on with it nor begins another turn of it. -/
def isOrderly : List Step → Bool
  | [] => true
  | s :: ss =>
    isFlat s && !s.openings.isEmpty && hasClearTurns s &&
      Matcher.areApart (seqOpenings ss) s.extensions && isOrderly ss

/-- What makes steps orderly, step by step. -/
theorem isOrderly_cons {s : Step} {ss : List Step} :
    isOrderly (s :: ss) = true ↔ isFlat s = true ∧ s.openings ≠ [] ∧ hasClearTurns s = true ∧
      Matcher.areApart (seqOpenings ss) s.extensions = true ∧ isOrderly ss = true := by
  simp [isOrderly, and_assoc]

/-- The steps after an orderly one are orderly. -/
theorem isOrderly_tail {s : Step} {ss : List Step} (h : isOrderly (s :: ss) = true) :
    isOrderly ss = true :=
  (isOrderly_cons.1 h).2.2.2.2

/-- The later ones of orderly steps are orderly. -/
theorem isOrderly_drop {ss : List Step} (h : isOrderly ss = true) (n : Nat) :
    isOrderly (ss.drop n) = true := by
  induction n generalizing ss with
  | zero => exact h
  | succ n ih =>
    cases ss with
    | nil => rfl
    | cons s ss => exact ih (isOrderly_tail h)

/-- A bare step on its own is orderly. -/
theorem isOrderly_singleton {s : Step} (h : s.isBare = true) (ho : s.openings ≠ []) :
    isOrderly [s] = true := by
  refine isOrderly_cons.2 ⟨?_, ho, ?_, rfl, rfl⟩ <;> cases s <;> first | exact h | rfl | cases h

/-- The steps of every construct are **orderly**. -/
theorem isOrderly_of_standard {k : RuleKind} {ss : List Step} (h : standard k = some (.steps ss)) :
    isOrderly ss = true :=
  of_allSteps (p := fun _ ss => isOrderly ss) (by decide) h

/-- An answer of a fork is orderly. -/
theorem isOrderly_of_mem_answers {k k' : RuleKind} {f : Fork} (h : standard k = some (.fork f))
    (hk : k' ∈ f.answers) : isOrderly [.rule k'] = true := by
  have := of_allForks (p := fun _ f => f.answers.all fun k' => isOrderly [.rule k'])
    (by decide) h
  exact List.all_eq_true.1 this k' hk

/-- A construct is begun by what begins its first step. -/
theorem openings_of_steps {k : RuleKind} {s : Step} {ss : List Step}
    (h : standard k = some (.steps (s :: ss))) (hk : k ≠ .document) :
    (Step.rule k).openings = s.openings := by
  have := of_allSteps (p := fun k ss => k == .document || ss.head?.all fun s =>
    (Step.rule k).openings == s.openings) (by decide) h
  simpa [hk] using this

/-- A fork is begun by what begins one of its answers. -/
theorem openings_of_fork {k : RuleKind} {f : Fork} (h : standard k = some (.fork f)) :
    (Step.rule k).openings = f.answers.flatMap fun k' => (Step.rule k').openings := by
  have := of_allForks (p := fun k f =>
    (Step.rule k).openings == f.answers.flatMap fun k' => (Step.rule k').openings)
    (by decide) h
  exact eq_of_beq this

/-- What goes on with a construct goes on with its steps. -/
theorem extensions_of_steps {k : RuleKind} {ss : List Step} (h : standard k = some (.steps ss)) :
    k.extensions = allExtensions ss := by
  have := of_allSteps (p := fun k ss => k.extensions == allExtensions ss) (by decide) h
  exact eq_of_beq this

/-- What goes on with a fork goes on with one of its answers, or must not stand after it. -/
theorem extensions_of_fork {k : RuleKind} {f : Fork} (h : standard k = some (.fork f)) :
    k.extensions = bars f ++ f.answers.flatMap RuleKind.extensions := by
  have := of_allForks (p := fun k f =>
    k.extensions == bars f ++ f.answers.flatMap RuleKind.extensions) (by decide) h
  exact eq_of_beq this

/-- An orderly step marks at most a bare one. -/
theorem isBare_body {s : Step} {ss : List Step} (h : isOrderly (s :: ss) = true) :
    s.body.isBare = true := by
  have hf := (isOrderly_cons.1 h).1
  cases s with
  | terminal => rfl
  | rule | optional | list => exact hf
  | separated b sep => exact ((Bool.and_eq_true _ _).mp hf).1

/-- A step is begun by what begins the step under its mark. -/
theorem openings_body {s : Step} (h : s.body.isBare = true) : s.body.openings = s.openings := by
  unfold Step.openings
  generalize s.body = b at h
  cases b with
  | terminal | rule => rfl
  | _ => cases h

/-- The step under the mark of an orderly one is orderly on its own. -/
theorem isOrderly_body {s : Step} {ss : List Step} (h : isOrderly (s :: ss) = true) :
    isOrderly [s.body] = true := by
  have hb := isBare_body h
  exact isOrderly_singleton hb (openings_body hb ▸ (isOrderly_cons.1 h).2.1)

/-- A bare step cannot be left out. -/
theorem isSkippable_of_isBare {s : Step} (h : s.isBare = true) : s.isSkippable = false := by
  cases s with
  | terminal | rule => rfl
  | _ => cases h

/-- What begins a step without its mark begins the steps from it on. -/
theorem mem_seqOpenings_of_body {s : Step} {ss : List Step} {m : Matcher}
    (h : isOrderly (s :: ss) = true) (hm : m ∈ seqOpenings [s.body]) :
    m ∈ seqOpenings (s :: ss) := by
  have hb := isBare_body h
  rw [seqOpenings, isSkippable_of_isBare hb, openings_body hb] at hm
  exact List.mem_append_left _ (by simpa using hm)

end Grammar

/-! ### What derivations begin with -/

namespace Derives

open Grammar

/-- The first step of a construct cannot be left out. -/
theorem isSkippable_head {k : RuleKind} {s : Step} {ss : List Step}
    (h : standard k = some (.steps (s :: ss))) (hk : k ≠ .document) : s.isSkippable = false := by
  obtain ⟨e, rfl⟩ | ⟨k', rfl, -⟩ := head_cases h hk <;> rfl

/-- No orderly step is a document. -/
theorem ne_document_of_isOrderly {k : RuleKind} {ss : List Step}
    (h : isOrderly (.rule k :: ss) = true) : k ≠ .document := by
  have := (isOrderly_cons.1 h).1
  rintro rfl
  cases this

/-- Steps that derive **nothing** can all be left out. -/
theorem all_isSkippable {ss : List Step} (h : Derives ss []) (ho : isOrderly ss = true) :
    ss.all Step.isSkippable = true := by
  generalize hw : ([] : List SpacedToken) = w at h
  induction h with
  | nil => rfl
  | terminal => cases hw
  -- The first step of a construct cannot be left out, so no construct derives nothing.
  | @construct k ks ss v w hk hv h ihv ih =>
    obtain ⟨rfl, rfl⟩ := List.append_eq_nil_iff.1 hw.symm
    have := ihv (isOrderly_of_standard hk) rfl
    obtain ⟨s, ks, rfl⟩ := List.exists_cons_of_ne_nil (steps_ne_nil hk)
    rw [List.all_cons, isSkippable_head hk (ne_document_of_isOrderly ho)] at this
    cases this
  | choice hk hf hs hv h ihv ih =>
    obtain ⟨rfl, rfl⟩ := List.append_eq_nil_iff.1 hw.symm
    cases ihv (isOrderly_of_mem_answers hk hf) rfl
  | skip h ih => exact ih (isOrderly_tail ho) hw
  | keep hv h ihv ih =>
    obtain ⟨rfl, rfl⟩ := List.append_eq_nil_iff.1 hw.symm
    exact ih (isOrderly_tail ho) rfl
  | stop h ih => exact ih (isOrderly_tail ho) hw
  | again hv h ihv ih =>
    obtain ⟨rfl, rfl⟩ := List.append_eq_nil_iff.1 hw.symm
    exact ih ho rfl
  | @last s sep ss v w hv h ihv ih =>
    obtain ⟨rfl, rfl⟩ := List.append_eq_nil_iff.1 hw.symm
    have hs : [s].all Step.isSkippable = true := ihv (isOrderly_body ho) rfl
    have hb : s.isBare = true := isBare_body ho
    rw [List.all_cons, isSkippable_of_isBare hb] at hs
    cases hs
  | @next s sep ss u v w hv hu h ihv ihu ih =>
    obtain ⟨-, hw'⟩ := List.append_eq_nil_iff.1 hw.symm
    obtain ⟨-, rfl⟩ := List.append_eq_nil_iff.1 hw'
    exact ih ho rfl

/-- What a bare step derives is not empty. -/
theorem ne_nil_of_isBare {s : Step} {w : List SpacedToken} (h : Derives [s] w)
    (hb : s.isBare = true) (ho : isOrderly [s] = true) : w ≠ [] := by
  rintro rfl
  have hs := h.all_isSkippable ho
  rw [List.all_cons, isSkippable_of_isBare hb] at hs
  cases hs

/-- The **first token** of what some steps derive is in one of their openings. -/
theorem head_mem_openings {ss : List Step} {x : SpacedToken} {w : List SpacedToken}
    (h : Derives ss (x :: w)) (ho : isOrderly ss = true) :
    ∃ m ∈ seqOpenings ss, m.accepts x.token = true := by
  generalize hw : x :: w = xs at h
  -- The induction is on the derivation. A first step that derives nothing is left out.
  induction h generalizing x w with
  | nil => cases hw
  | @terminal e y ss v he h ih =>
    obtain ⟨rfl, rfl⟩ := List.cons.inj hw
    exact ⟨e.matcher, by simp [seqOpenings, Step.openings, Step.body], he⟩
  | @construct k ks ss v u hk hv h ihv ih =>
    have hkd := ne_document_of_isOrderly ho
    obtain ⟨s, ks, rfl⟩ := List.exists_cons_of_ne_nil (steps_ne_nil hk)
    cases v with
    | nil =>
      have := hv.all_isSkippable (isOrderly_of_standard hk)
      rw [List.all_cons, isSkippable_head hk hkd] at this
      cases this
    | cons y v =>
      obtain ⟨rfl, rfl⟩ := List.cons.inj hw
      obtain ⟨m, hm, ha⟩ := ihv (isOrderly_of_standard hk) rfl
      rw [seqOpenings, isSkippable_head hk hkd] at hm
      refine ⟨m, List.mem_append_left _ ?_, ha⟩
      rw [openings_of_steps hk hkd]
      simpa using hm
  | @choice k k' f ss v u hk hf hs hv h ihv ih =>
    have hok := isOrderly_of_mem_answers hk hf
    cases v with
    | nil => cases hv.all_isSkippable hok
    | cons y v =>
      obtain ⟨rfl, rfl⟩ := List.cons.inj hw
      obtain ⟨m, hm, ha⟩ := ihv hok rfl
      refine ⟨m, List.mem_append_left _ ?_, ha⟩
      rw [openings_of_fork hk]
      exact List.mem_flatMap.2 ⟨k', hf, by simpa [seqOpenings, Step.isSkippable] using hm⟩
  | skip h ih =>
    obtain ⟨m, hm, ha⟩ := ih (isOrderly_tail ho) hw
    exact ⟨m, List.mem_append_right _ hm, ha⟩
  | stop h ih =>
    obtain ⟨m, hm, ha⟩ := ih (isOrderly_tail ho) hw
    exact ⟨m, List.mem_append_right _ hm, ha⟩
  | keep hv h ihv _ | again hv h ihv _ | last hv h ihv _ | next hv hu h ihv _ _ =>
    have hb := isOrderly_body ho
    obtain ⟨y, v, rfl⟩ := List.exists_cons_of_ne_nil (hv.ne_nil_of_isBare (isBare_body ho) hb)
    obtain ⟨rfl, rfl⟩ := List.cons.inj hw
    obtain ⟨m, hm, ha⟩ := ihv hb rfl
    exact ⟨m, mem_seqOpenings_of_body ho hm, ha⟩

end Derives

end QueryAssist
