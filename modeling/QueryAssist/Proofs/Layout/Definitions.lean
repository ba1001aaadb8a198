import QueryAssist.Proofs.Chain.Sentence
import QueryAssist.Proofs.Grammar.Closing
import QueryAssist.Proofs.Layout.Scanning

/-! # Scanning complete definitions

The scan accepts every sentence of its own grammar. After definitions that are complete it stands
where another one can begin, at the latest when the next token is seen. Main statements:

* **`reads_definitions`** — a run over complete definitions comes back to the start.
* **`scan_definitions`** — every token of laid out definitions fits, and after a closing brace the
  chain is the one at the start. -/

namespace QueryAssist

open Grammar Chain

/-- The link of the document. -/
def documentLink : Link := Chain.start.top

/-- A document is a list of definitions. -/
theorem documentLink_rule : documentLink.rule = some (.steps [.list (.rule .definition)]) := rfl

/-- A scan begins with nothing due and nothing shared. -/
theorem plain_start : Plain (documentLink :: Chain.start.outer) := by
  intro l hl
  simp only [Chain.start, Chain.enter, Chain.root, documentLink, List.mem_cons,
    List.not_mem_nil, or_false] at hl
  rcases hl with rfl | rfl <;> exact ⟨rfl, rfl⟩

/-- **Complete definitions** lead back to the start. -/
theorem reads_definitions {w rest : List SpacedToken} (h : Derives [.list (.rule .definition)] w)
    (hw : LaidOut (w ++ rest)) (hr : Follows RuleKind.definition.extensions rest) :
    Reads .start w rest RuleKind.definition.extensions .start :=
  h.reads_list (l := documentLink) (i := 0) (by decide) rfl documentLink_rule rfl
    plain_start hw hr

namespace Derives

/-- A list that derives something has a last turn. -/
theorem exists_last_turn {s : Step} {w : List SpacedToken} (h : Derives [.list s] w) :
    w = [] ∨ ∃ u v, w = u ++ v ∧ Derives [.list s] u ∧ Derives [s] v := by
  generalize he : [Step.list s] = ss at h
  induction h with
  | stop h =>
    obtain ⟨-, rfl⟩ := List.cons.inj he
    exact .inl h.eq_nil
  | again hv h _ ih =>
    refine .inr ?_
    obtain ⟨hs, rfl⟩ := List.cons.inj he
    obtain rfl := Step.list.inj hs
    -- The last turn is the first one only if there is no other.
    obtain rfl | ⟨u, v', rfl, hu, hv'⟩ := ih rfl
    · exact ⟨[], _, by simp, .stop .nil, hv⟩
    · exact ⟨_, v', by simp, .again hv hu, hv'⟩
  | _ => cases he

/-- A construct that is a fork derives what one of its answers derives. -/
theorem exists_answer {k : RuleKind} {f : Fork} {w : List SpacedToken} (h : Derives [.rule k] w)
    (hk : standard k = some (.fork f)) :
    ∃ k' ∈ f.answers, k'.Suits w ∧ Derives [.rule k'] w := by
  cases h with
  | construct hk' => cases hk.symm.trans hk'
  | choice hk' hf hs hv h =>
    obtain rfl := h.eq_nil
    cases hk.symm.trans hk'
    rw [List.append_nil]
    exact ⟨_, hf, hs, hv⟩

end Derives

/-- A definition of a given kind leads back to the start, up to what goes on with that kind. -/
theorem reads_definition {k : RuleKind} {v rest : List SpacedToken}
    (hk : k ∈ Fork.answers .definition) (hs : k.Suits v) (hv : Derives [.rule k] v)
    (hw : LaidOut (v ++ rest)) (hr : Follows RuleKind.definition.extensions rest) :
    Reads .start v rest k.extensions .start := by
  have hok := isOrderly_of_mem_answers (k := .definition) rfl hk
  have hturn := hv.turns hok (isOrderly_cons.1 hok).1
  have hwant : Wants documentLink (.rule .definition) v rest := fun _ _ _ => rfl
  obtain ⟨l, ps, ha, hrd⟩ :=
    Turns.reads_choice rfl hk hs hv hturn plain_start rfl hwant hw hr
  obtain ⟨rfl, rfl⟩ := List.cons.inj ha.eq_of_zero
  exact hrd

/-- A definition does not go on with the one before it. -/
theorem follows_definition {k : RuleKind} {v : List SpacedToken}
    (hk : k ∈ Fork.answers .definition) (hv : Derives [.rule k] v) :
    Follows RuleKind.definition.extensions v := by
  have hok := isOrderly_of_mem_answers (k := .definition) rfl hk
  obtain ⟨y, v, rfl⟩ :=
    List.exists_cons_of_ne_nil (hv.ne_nil_of_isBare (isOrderly_cons.1 hok).1 hok)
  obtain ⟨m, hm, ha⟩ := hv.head_mem_openings hok
  rw [seqOpenings_singleton] at hm
  refine follows_of_mem_openings (s := .rule .definition) (by decide) ?_ ha
  rw [openings_of_fork (k := .definition) rfl]
  exact List.mem_flatMap.2 ⟨k, hk, hm⟩

/-- After definitions the last of which ends with a closing brace the chain does not lag. -/
theorem run_definitions {w : List SpacedToken} {x : SpacedToken}
    (h : Derives [.list (.rule .definition)] w) (hw : LaidOut w) (hx : x ∈ w.getLast?)
    (hb : x.token = ⟨.punctuation, "\x7d"⟩) : TakesAll [] .start w .start := by
  obtain rfl | ⟨u, v, rfl, hu, hv⟩ := h.exists_last_turn
  · cases hx
  · obtain ⟨k, hk, hs, hv⟩ := hv.exists_answer rfl
    have hok := isOrderly_of_mem_answers (k := .definition) rfl hk
    obtain ⟨y, v, rfl⟩ :=
      List.exists_cons_of_ne_nil (hv.ne_nil_of_isBare (isOrderly_cons.1 hok).1 hok)
    -- A definition with a brace at its end has no extensions, so nothing lags after it.
    have hend : k.extensions = [] := by
      refine extensions_eq_nil_of_closes hk ?_ hb
      have :=
        hv.endsIn_closings hok x (by simpa [List.getLast?_append, List.getLast?_cons] using hx)
      rwa [allClosings_singleton] at this
    have hy : Follows RuleKind.definition.extensions (y :: v) := follows_definition hk hv
    have h₁ : Reads .start u ((y :: v) ++ []) _ .start :=
      reads_definitions hu (by rwa [List.append_nil]) (by rwa [List.append_nil])
    have h₂ : Reads .start (y :: v) [] _ .start :=
      reads_definition hk hs hv (by rw [List.append_nil]; exact hw.of_append) nofun
    obtain ⟨b, hr, -, he⟩ := h₁.append_cons h₂ (hy y rfl)
    rwa [he hend] at hr

/-- **The scan accepts every sentence of its grammar**: of laid out definitions every token fits. If
the last one ends with a closing brace, the scan ends with the chain at the start, the document at
its first step in the root, where a definition can begin. -/
theorem scan_definitions {lead : List Char} {w : List SpacedToken}
    (h : Derives [.list (.rule .definition)] w) (hlead : ∀ c ∈ lead, isSeparator c = true)
    (hw : LaidOut w) :
    (∀ t ∈ Scan.tokens (lead ++ render w), t.style ≠ "invalidchar") ∧
    ((∃ x ∈ w.getLast?, x.token = ⟨.punctuation, "\x7d"⟩) →
      let c := Scan.chainAfter .start (Scan.tokens (lead ++ render w))
      c = Chain.root.enter .document (.steps [.list (.rule .definition)]) ∧
        Position.ofChain? c = some .definitionKeyword) := by
  constructor
  · have hr : Reads .start w [] _ .start :=
      reads_definitions h (by rwa [List.append_nil]) nofun
    obtain ⟨b, hr, -⟩ := hr
    exact (Scan.ends_tokens hlead hw hr).fits
  · rintro ⟨x, hx, hb⟩
    have hend := Scan.ends_tokens hlead hw (run_definitions h hw hx hb)
    have hc : Scan.chainAfter .start (Scan.tokens (lead ++ render w)) = .start := by
      refine hend.exact (fun _ => rfl) fun y hy => ?_
      obtain rfl := Option.mem_unique hx hy
      rw [hb]
    dsimp only
    rw [hc]
    exact ⟨rfl, rfl⟩

/-- A scalar and a query are such definitions. -/
theorem scan_definitions_scalar_query :
    ∃ lead w, lead ++ render w = "\nscalar Date\n\x7b a \x7d".toList ∧
      (∀ c ∈ lead, isSeparator c = true) ∧ Derives [.list (.rule .definition)] w ∧ LaidOut w ∧
      (∀ t ∈ Scan.tokens (lead ++ render w), t.style ≠ "invalidchar") ∧
      Scan.chainAfter .start (Scan.tokens (lead ++ render w)) = .start := by
  let w : List SpacedToken := [⟨⟨.name, "scalar"⟩, [' ']⟩, ⟨⟨.name, "Date"⟩, ['\n']⟩,
    ⟨⟨.punctuation, "\x7b"⟩, [' ']⟩, ⟨⟨.name, "a"⟩, [' ']⟩, ⟨⟨.punctuation, "\x7d"⟩, []⟩]
  have hscalar : Derives [.rule .definition] (w.take 2) :=
    .answer (a := .scalarDef) rfl (by decide) trivial
      (.rule rfl (.terminal rfl (.terminal rfl (.stop .nil))))
  have hfield : Derives [.rule .selection] ((w.drop 3).take 1) :=
    .answer (a := .field) rfl (by decide) trivial
      (.rule rfl (.terminal rfl (.skip (.stop (.skip .nil)))))
  have hquery : Derives [.rule .definition] (w.drop 2) :=
    .answer (a := .shortQuery) rfl (by decide) trivial (.rule rfl (.rule rfl
      (.terminal rfl (.again hfield (.stop (.terminal rfl .nil))))))
  have hw : Derives [.list (.rule .definition)] w := .again hscalar (.again hquery (.stop .nil))
  have hlaid : LaidOut w := by decide
  have hlead : ∀ c ∈ ['\n'], isSeparator c = true := List.all_eq_true.1 rfl
  obtain ⟨hfits, hlast⟩ := scan_definitions hw hlead hlaid
  exact ⟨_, w, by decide, hlead, hw, hlaid, hfits, (hlast ⟨_, rfl, rfl⟩).1⟩

end QueryAssist
