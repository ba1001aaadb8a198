import QueryAssist.Completion.Position

/-! # What the grammar names

A step opens the constructs that it names: the one under its mark, or, in a fork, each answer that
the fork can give. Main definitions:

* **`Fork.answers`** — the constructs that a fork chooses among.
* **`Rule.namesAt`**, **`Rule.names`** — the constructs that one step, or any step, of a rule names.
* **`Grammar.allRules`** — a check of the rules of all constructs.

Main statements: `Fork.mem_answers_of_choose`, and the facts of the standard grammar on which the
nesting of chains rests. -/

namespace QueryAssist

/-! ## What a step names -/

/-- The **answers** that a fork can give. -/
def Fork.answers : Fork → List RuleKind
  | .definition => [
      .shortQuery, .query, .mutation, .subscription, .fragmentDefinition, .schemaDef, .scalarDef,
      .objectTypeDef, .interfaceDef, .unionDef, .enumDef, .inputDef, .extendDef, .directiveDef]
  | .selection => [.inlineFragment, .fragmentSpread, .aliasedField, .field]
  | .value => [
      .numberValue, .stringValue, .listValue, .objectValue, .variableUse, .booleanValue, .nullValue,
      .enumValue]
  | .type => [.listType, .nonNullType]

/-- The definition that a keyword begins is among the answers of the fork. -/
theorem mem_answers_of_definitionOf? {text : String} {k : RuleKind}
    (h : definitionOf? text = some k) : k ∈ Fork.answers .definition := by
  unfold definitionOf? at h
  split at h <;> cases h <;> decide

/-- So is the literal that a token begins. -/
theorem mem_answers_of_valueOf? {t : Token} {k : RuleKind} (h : valueOf? t = some k) :
    k ∈ Fork.answers .value := by
  unfold valueOf? at h
  repeat' split at h
  all_goals cases h <;> decide

/-- So is the selection that a token begins. -/
theorem selectionOf_mem_answers (t : Token) (ahead : List Char) :
    selectionOf t ahead ∈ Fork.answers .selection := by
  unfold selectionOf
  repeat' split
  all_goals decide

/-- A fork chooses among its answers. -/
theorem Fork.mem_answers_of_choose {f : Fork} {t : Token} {ahead : List Char} {k : RuleKind}
    (h : f.choose t ahead = some k) : k ∈ f.answers := by
  cases f with
  | definition => exact mem_answers_of_definitionOf? h
  | selection =>
    obtain rfl := Option.some.inj h
    exact selectionOf_mem_answers t ahead
  | value => exact mem_answers_of_valueOf? h
  | type =>
    obtain rfl := Option.some.inj h
    split <;> decide

/-- The construct that a step stands for, if it stands for one. -/
def Step.construct? : Step → Option RuleKind
  | .rule k => some k
  | _ => none

/-- The token that a step stands for, if it stands for one. -/
def Step.terminal? : Step → Option Terminal
  | .terminal e => some e
  | _ => none

/-- A step that stands for a token is a terminal. -/
theorem Step.eq_terminal_of_isSome {s : Step} (h : s.terminal?.isSome) : ∃ e, s = .terminal e := by
  cases s with
  | terminal e => exact ⟨e, rfl⟩
  | _ => cases h

namespace Rule

/-- The constructs that the step at a place can open: those under its mark, or all answers of a
fork. -/
def namesAt : Rule → Nat → List RuleKind
  | fork f, _ => f.answers
  | steps ss, i => (ss[i]?.bind fun s => s.body.construct?).toList

/-- The constructs that some step of a rule can open. -/
def names : Rule → List RuleKind
  | fork f => f.answers
  | steps ss => ss.filterMap fun s => s.body.construct?

/-- What one step of a rule can open is among what the rule can open. -/
theorem mem_names_of_mem_namesAt {r : Rule} {i : Nat} {k : RuleKind} (h : k ∈ r.namesAt i) :
    k ∈ r.names := by
  cases r with
  | fork f => exact h
  | steps ss =>
    simp only [namesAt, Option.mem_toList, Option.bind_eq_some_iff] at h
    obtain ⟨s, hs, hk⟩ := h
    exact List.mem_filterMap.2 ⟨s, List.mem_of_getElem? hs, hk⟩

/-- Whether a rule has a place: the steps of a list, and the one choice of a fork. -/
def HasPlace : Rule → Nat → Prop
  | fork _, i => i = 0
  | steps ss, i => i < ss.length

end Rule

namespace Grammar

/-! ## What the standard grammar names

Each fact is one look through the rules of all constructs. -/

/-- Whether a property of rules holds of the rules of all constructs. -/
def allRules (p : RuleKind → Rule → Bool) : Bool :=
  RuleKind.all.all fun k => (standard k).all (p k)

/-- A property that is checked for all rules holds of the rule of each construct. -/
theorem of_allRules {p : RuleKind → Rule → Bool} (h : allRules p = true) {k : RuleKind} {r : Rule}
    (hr : standard k = some r) : p k r = true := by
  have := List.all_eq_true.1 h k (RuleKind.mem_all k)
  rwa [hr] at this

/-- Whether a property holds of the steps of all constructs that are sequences. -/
def allSteps (p : RuleKind → List Step → Bool) : Bool :=
  allRules fun k r => match r with
    | .steps ss => p k ss
    | .fork _ => true

/-- So it is with sequences. -/
theorem of_allSteps {p : RuleKind → List Step → Bool} (h : allSteps p = true) {k : RuleKind}
    {ss : List Step} (hk : standard k = some (.steps ss)) : p k ss = true :=
  of_allRules h hk

/-- Whether a property holds of all constructs that are forks. -/
def allForks (p : RuleKind → Fork → Bool) : Bool :=
  allRules fun k r => match r with
    | .steps _ => true
    | .fork f => p k f

/-- So it is with forks. -/
theorem of_allForks {p : RuleKind → Fork → Bool} (h : allForks p = true) {k : RuleKind} {f : Fork}
    (hk : standard k = some (.fork f)) : p k f = true :=
  of_allRules h hk

/-- A construct with steps has at least one. -/
theorem steps_ne_nil {k : RuleKind} {ss : List Step} (h : standard k = some (.steps ss)) :
    ss ≠ [] := by
  have := of_allSteps (p := fun _ ss => ss != []) (by decide) h
  simpa using this

/-- No construct has more than seven steps. -/
theorem length_le_seven {k : RuleKind} {ss : List Step} (h : standard k = some (.steps ss)) :
    ss.length ≤ 7 := by
  have := of_allSteps (p := fun _ ss => decide (ss.length ≤ 7)) (by decide) h
  exact of_decide_eq_true this

/-- What a rule names has a rule. -/
theorem isSome_of_mem_names {k k' : RuleKind} {r : Rule} (h : standard k = some r)
    (hk : k' ∈ r.names) : (standard k').isSome := by
  have := of_allRules (p := fun _ r => r.names.all fun k' => (standard k').isSome) (by decide) h
  exact List.all_eq_true.1 this k' hk

/-- No rule names the document. -/
theorem document_notMem_names {k : RuleKind} {r : Rule} (h : standard k = some r) :
    .document ∉ r.names := by
  have := of_allRules (p := fun _ r => !r.names.contains .document) (by decide) h
  simpa using this

/-- Only the document names definitions as such. -/
theorem eq_document_of_definition_mem_names {k : RuleKind} {r : Rule} (h : standard k = some r)
    (hk : .definition ∈ r.names) : k = .document := by
  have := of_allRules (p := fun k r => k == .document || !r.names.contains .definition)
    (by decide) h
  grind

/-- Operations and fragments are only found where a definition is chosen. -/
theorem eq_definition_of_mem_names {k k' : RuleKind} {r : Rule} (h : standard k = some r)
    (hk : k' ∈ r.names) (hd : k'.isDefinition) : k = .definition := by
  have := of_allRules
    (p := fun k r => k == .definition || r.names.all fun k' => !k'.isDefinition) (by decide) h
  grind

/-- How many constructs at most are entered one in another before the first token of a construct. -/
def depth : RuleKind → Nat
  | .definition | .type => 2
  | .shortQuery | .variableDefinition | .selection | .value | .nonNullType | .unionMember => 1
  | _ => 0

/-- At most two constructs are entered before the first token of a construct. -/
theorem depth_le_two (k : RuleKind) : depth k ≤ 2 := by
  cases k <;> decide

/-- An answer of a fork is less deep than the fork. -/
theorem depth_lt_of_mem_answers {k k' : RuleKind} {f : Fork} (h : standard k = some (.fork f))
    (hk : k' ∈ f.answers) : depth k' < depth k := by
  have := of_allForks (p := fun k f => f.answers.all fun k' => decide (depth k' < depth k))
    (by decide) h
  exact of_decide_eq_true (List.all_eq_true.1 this k' hk)

/-- Apart from the document, a construct begins with a token or with a construct that is less
deep. -/
theorem head_cases {k : RuleKind} {s : Step} {ss : List Step}
    (h : standard k = some (.steps (s :: ss))) (hk : k ≠ .document) :
    (∃ e, s = .terminal e) ∨ ∃ k', s = .rule k' ∧ depth k' < depth k := by
  have := of_allSteps (p := fun k ss => k == .document || ss.head?.any fun s =>
    s.terminal?.isSome || s.construct?.any fun k' => decide (depth k' < depth k)) (by decide) h
  cases s with
  | terminal e => exact .inl ⟨e, rfl⟩
  | rule k' => exact .inr ⟨k', rfl, by simpa [hk, Step.terminal?, Step.construct?] using this⟩
  | _ => simp [hk, Step.terminal?, Step.construct?] at this

/-- Between two turns of a list stands a single token. -/
theorem separator_eq_terminal {k : RuleKind} {ss : List Step} {s sep : Step}
    (h : standard k = some (.steps ss)) (hs : .separated s sep ∈ ss) : ∃ e, sep = .terminal e := by
  have := of_allSteps (p := fun _ ss => ss.all fun s =>
    s.separator?.all fun sep => sep.terminal?.isSome) (by decide) h
  exact Step.eq_terminal_of_isSome (List.all_eq_true.1 this _ hs)

/-- Whether a property holds of all terminals that are steps or separators. -/
def allTerminals (p : Terminal → Bool) : Bool :=
  allSteps fun _ ss => ss.all fun s =>
    s.body.terminal?.all p && (s.separator?.bind Step.terminal?).all p

/-- A property that is checked for all terminals holds of each step and each separator that is one.
-/
theorem of_allTerminals {p : Terminal → Bool} (h : allTerminals p = true) {k : RuleKind}
    {ss : List Step} {s : Step} (hk : standard k = some (.steps ss)) (hs : s ∈ ss) {e : Terminal}
    (he : s.body = .terminal e ∨ s.separator? = some (.terminal e)) : p e = true := by
  obtain ⟨hbody, hsep⟩ := (Bool.and_eq_true _ _).mp (List.all_eq_true.1 (of_allSteps h hk) s hs)
  rcases he with he | he
  · rw [he] at hbody
    exact hbody
  · rw [he] at hsep
    exact hsep

end Grammar

end QueryAssist
