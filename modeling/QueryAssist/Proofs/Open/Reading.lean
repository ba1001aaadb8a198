import QueryAssist.Proofs.Open.Construct

/-! # Reading open documents

The chain after an open document has one link for each construct that is open in it, and the labels
of these tell the heads. Main definitions:

* **`Chain.SelectsIn`** — the chains inside the selection sets of some heads.
* **`Chain.HostsIn`** — the chains at the directives of a head, inside those of others.

Main statements: `Opens.reads` and `Hosts.reads`, a run over an open document leads to such a
chain. -/

namespace QueryAssist

open Grammar Chain Step Terminal

/-! ### Open chains -/

/-- A chain **selects in** some heads if its innermost construct is the selection set of the last of
them, which stands in the selection sets of the others. -/
inductive Chain.SelectsIn : List Head → Chain → Prop
  /-- In a query without its keyword. -/
  | shorthand :
      SelectsIn [.query]
        ((definitionChain.inside .shortQuery 0 none none).inside .selectionSet 1 none none)
  /-- In another definition. -/
  | definition {h : Head} {k : RuleKind} {i : Nat} {n t : Option String}
      (hd : h.isDefinition = true) (hb : h.Builds k i n t) :
      SelectsIn [h] ((definitionChain.inside k (i + 1) n t).inside .selectionSet 1 none none)
  /-- In a selection. -/
  | selection {hs : List Head} {c : Chain} {h : Head} {k : RuleKind} {i : Nat} {n t : Option String}
      (hc : SelectsIn hs c) (hd : h.isDefinition = false) (hb : h.Builds k i n t) :
      SelectsIn (hs ++ [h]) ((c.inSelection.inside k (i + 1) n t).inside .selectionSet 1 none none)

/-- A chain **hosts in** some heads if its innermost construct is the one of another head, at its
directives, in their selection sets. -/
inductive Chain.HostsIn : List Head → Head → Chain → Prop
  /-- In a document. -/
  | definition {h : Head} {k : RuleKind} {i : Nat} {n t : Option String}
      (hd : h.isDefinition = true) (hb : h.Builds k i n t) :
      HostsIn [] h (definitionChain.inside k i n t)
  /-- In a selection set. -/
  | selection {hs : List Head} {c : Chain} {h : Head} {k : RuleKind} {i : Nat} {n t : Option String}
      (hc : SelectsIn hs c) (hd : h.isDefinition = false) (hb : h.Builds k i n t) :
      HostsIn hs h (c.inSelection.inside k i n t)

namespace Head.Builds

variable {c : Chain} {h : Head} {k : RuleKind} {i : Nat} {n t : Option String} {b : SpacedToken}
  {v rest : List SpacedToken}

/-- The construct of a head stands before its directives. -/
theorem standsBefore (hb : h.Builds k i n t) (hc : Plain c.links) :
    ∃ ts, (c.inside k i n t).StandsBefore (list (rule .directive) :: ts) := by
  obtain ⟨ks, ts, hks, hdrop, -⟩ := hb.exists_steps
  exact ⟨ts, standsBefore_inside hks hdrop hc⟩

/-- The brace after a head and its directives opens its selection set. -/
theorem reads_brace (hb : h.Builds k i n t) (hs : h.hasSelections = true) (hc : Plain c.links)
    (hv : Derives [list (rule .directive)] v) (hbrace : b.token = .mark "\x7b")
    (hw : LaidOut ((v ++ [b]) ++ rest)) :
    Reads (c.inside k i n t) (v ++ [b]) rest []
      ((c.inside k (i + 1) n t).inside .selectionSet 1 none none) := by
  obtain ⟨ks, ts, hks, hdrop, hsel⟩ := hb.exists_steps
  obtain ⟨s, rfl, hbody, -⟩ := hsel hs
  have hdrop₁ : ks.drop i = [list (rule .directive)] ++ s :: [] := hdrop
  have hdrop₂ : ks.drop (i + 1) = [s] := by
    rw [← List.drop_drop, hdrop]
    rfl
  -- A brace does not go on with the directives.
  have hf : Follows (allExtensions [list (rule .directive)]) [b] := by
    refine follows_cons (fun m hm => ?_) []
    rw [hbrace]
    revert m
    decide
  rw [List.append_assoc] at hw
  have hdirectives : Reads (c.inside k i n t) v ([b] ++ rest) _ (c.inside k (i + 1) n t) :=
    reads_steps hks hdrop₁ hc hv (by decide) (by decide) hw (follows_cons (hf b rfl) rest)
  have hopen : Reads (c.inside k (i + 1) n t) [b] rest []
      ((c.inside k (i + 1) n t).inside .selectionSet 1 none none) := by
    refine reads_begin (standsBefore_inside hks hdrop₂ hc) hbody rfl rfl ?_
    rw [hbrace]
    rfl
  exact hdirectives.append_cons hopen (hf b rfl)

end Head.Builds

namespace Chain

variable {c d : Chain} {hs : List Head} {h : Head} {n t : Option String}

/-- A selection set that is open awaits selections. -/
theorem awaitsSelections_inside (hc : Plain c.links) :
    (c.inside .selectionSet 1 n t).AwaitsSelections :=
  ⟨_, standsBefore_inside (k := .selectionSet) rfl rfl hc⟩

/-- A chain that selects in some heads awaits selections. -/
theorem SelectsIn.awaitsSelections (h : c.SelectsIn hs) : c.AwaitsSelections := by
  induction h with
  | shorthand | definition => exact awaitsSelections_inside (plain_inside plain_definitionChain)
  | selection _ _ _ ih => exact awaitsSelections_inside (plain_inside (plain_inSelection ih.plain))

/-- A chain that hosts directives stands before the list of them. -/
theorem HostsIn.standsBefore (hc : d.HostsIn hs h) :
    ∃ ts, d.StandsBefore (list (rule .directive) :: ts) := by
  cases hc with
  | definition _ hb => exact hb.standsBefore plain_definitionChain
  | selection hc _ hb => exact hb.standsBefore (plain_inSelection hc.awaitsSelections.plain)

end Chain

/-- The head of a definition begins one. -/
theorem Head.Writes.follows_definition {h : Head} {u : List SpacedToken} (hu : h.Writes u)
    (hd : h.isDefinition = true) :
    ∃ x v, u = x :: v ∧ x.token.IsOutside RuleKind.definition.extensions := by
  have hmem : ∃ x v, u = x :: v ∧
      ∃ m ∈ (Step.rule .definition).openings, m.accepts x.token = true := by
    cases hu with
    | @operation h word x v hkey hx =>
      refine ⟨x, v, rfl, .exactly .name word, ?_, by simp [hx, Matcher.accepts, Token.word]⟩
      cases h with
      | query | mutation | subscription =>
        obtain rfl := Option.some.inj hkey
        decide
      | _ => cases hkey
    | fragment hx =>
      exact ⟨_, _, rfl, .exactly .name "fragment", by decide, by
        simp [hx, Matcher.accepts, Token.word]⟩
    | _ => cases hd
  obtain ⟨x, v, rfl, m, hm, ha⟩ := hmem
  exact ⟨x, v, rfl, follows_of_mem_openings (w := v) (by decide) hm ha x rfl⟩

/-- The head of a selection begins one. -/
theorem Head.Writes.follows_selection {h : Head} {u : List SpacedToken} (hu : h.Writes u)
    (hd : h.isDefinition = false) :
    ∃ x v, u = x :: v ∧ x.token.IsOutside RuleKind.selection.extensions := by
  have hname : Matcher.kind .name ∈ (Step.rule .selection).openings := by decide
  have hdots : Matcher.exactly .punctuation "..." ∈ (Step.rule .selection).openings := by
    decide
  have hmem : ∃ x v, u = x :: v ∧
      ∃ m ∈ (Step.rule .selection).openings, m.accepts x.token = true := by
    -- A field begins with a name, the other selections with three dots.
    cases hu with
    | operation hkey =>
      cases h with
      | query | mutation | subscription => cases hd
      | _ => cases hkey
    | fragment => cases hd
    | field hn =>
      cases hn with
      | plain hx => exact ⟨_, _, rfl, _, hname, beq_iff_eq.2 hx⟩
      | aliased hx => exact ⟨_, _, rfl, _, hname, beq_iff_eq.2 hx⟩
    | inline hx | inlineOn hx | spread hx =>
      exact ⟨_, _, rfl, _, hdots, by simp [hx, Matcher.accepts, Token.mark]⟩
  obtain ⟨x, v, rfl, m, hm, ha⟩ := hmem
  exact ⟨x, v, rfl, follows_of_mem_openings (w := v) (by decide) hm ha x rfl⟩

/-! ### Runs over open documents -/

section Runs

variable {c : Chain} {hs : List Head} {h : Head} {b : SpacedToken} {u v w z rest : List SpacedToken}

/-- Complete definitions and the head of another are read. -/
theorem reads_definition_head (hz : Derives [list (rule .definition)] z) (hu : h.Writes u)
    (hd : h.isDefinition = true) (hw : LaidOut ((z ++ u) ++ rest)) (hr : EndsHead rest) :
    ∃ k i n t, h.Builds k i n t ∧
      Reads .start (z ++ u) rest Head.bars (definitionChain.inside k i n t) := by
  rw [List.append_assoc] at hw
  obtain ⟨k, i, n, t, hb, hrd⟩ := hu.reads_definition hd hw.of_append hr.follows
  obtain ⟨x, u, rfl, hx⟩ := hu.follows_definition hd
  have hz : Reads .start z ((x :: u) ++ rest) _ .start :=
    reads_definitions hz hw (follows_cons hx _)
  exact ⟨k, i, n, t, hb, hz.append_cons hrd hx⟩

/-- Complete selections and the head of another are read. -/
theorem reads_selection_head (hc : c.AwaitsSelections) (hz : Derives [list (rule .selection)] z)
    (hu : h.Writes u) (hd : h.isDefinition = false) (hw : LaidOut ((z ++ u) ++ rest))
    (hr : EndsHead rest) :
    ∃ k i n t, h.Builds k i n t ∧
      Reads c (z ++ u) rest Head.bars (c.inSelection.inside k i n t) := by
  rw [List.append_assoc] at hw
  obtain ⟨k, i, n, t, hb, hrd⟩ := hu.reads_selection hd hc hw.of_append hr
  obtain ⟨x, u, rfl, hx⟩ := hu.follows_selection hd
  obtain ⟨ts, hstands⟩ := hc
  have hz : Reads c z ((x :: u) ++ rest) _ c :=
    reads_turns hstands hz (by decide) rfl hw (follows_cons hx _)
  exact ⟨k, i, n, t, hb, hz.append_cons hrd hx⟩

/-- A brace where a definition can begin opens a query without its keyword. -/
theorem reads_shorthand (hb : b.token = .mark "\x7b") :
    Reads .start [b] rest []
      ((definitionChain.inside .shortQuery 0 none none).inside .selectionSet 1 none none) := by
  have hquery :
      (definitionChain.inside .shortQuery 0 none none).StandsBefore [rule .selectionSet] :=
    standsBefore_inside (k := .shortQuery) rfl rfl plain_definitionChain
  have hset : Reads (definitionChain.inside .shortQuery 0 none none) [b] rest [] _ :=
    Chain.reads_begin hquery rfl rfl rfl (by rw [hb]; rfl)
  obtain ⟨hr, hw⟩ := standsBefore_start.wanted? b.token (b.ahead ([] ++ rest))
  have hchoose : definitionChain.top.wanted? b.token (b.ahead ([] ++ rest)) =
      some (rule .shortQuery) := by
    rw [hb]
    rfl
  -- Two constructs are entered before the brace is wanted: a definition and the query.
  have hmove : Move b.token (b.ahead ([] ++ rest)) .start definitionChain :=
    move_inside plain_start hr hw rfl
  have hmove' : Move b.token (b.ahead ([] ++ rest)) definitionChain
      (definitionChain.inside .shortQuery 0 none none) :=
    move_inside plain_definitionChain rfl hchoose rfl
  exact hset.of_falls (.head hmove (.single hmove'))

/-- The directives of a head and the brace after them end the head. -/
theorem endsHead_brace (hv : Derives [list (rule .directive)] v) (hb : b.token = .mark "\x7b")
    (rest : List SpacedToken) : EndsHead ((v ++ [b]) ++ rest) := by
  rw [List.append_assoc]
  exact EndsHead.append ⟨b, rest, rfl, .inr hb⟩ hv

/-- After a head its directives and its brace are read. -/
theorem Head.Builds.reads_on {d : Chain} {k : RuleKind} {i : Nat} {n t : Option String}
    (hbuild : h.Builds k i n t) (hs : h.hasSelections = true) (hc : Plain c.links)
    (hv : Derives [list (rule .directive)] v) (hb : b.token = .mark "\x7b")
    (hw : LaidOut ((v ++ [b]) ++ rest))
    (hrd : Reads d w ((v ++ [b]) ++ rest) Head.bars (c.inside k i n t)) :
    Reads d (w ++ (v ++ [b])) rest []
      ((c.inside k (i + 1) n t).inside .selectionSet 1 none none) := by
  have hend : EndsHead ((v ++ [b]) ++ []) := endsHead_brace hv hb []
  rw [List.append_nil] at hend
  exact hrd.trans (hbuild.reads_brace hs hc hv hb hw) hend.follows (by simp)

/-- Complete selections and the head of another with its brace are read up to its selection set. -/
theorem reads_selection_opening (hc : c.AwaitsSelections)
    (hz : Derives [list (rule .selection)] z) (hd : h.isDefinition = false)
    (hh : h.hasSelections = true) (hu : h.Writes u) (hv : Derives [list (rule .directive)] v)
    (hb : b.token = .mark "\x7b") (hw : LaidOut ((z ++ (u ++ (v ++ [b]))) ++ rest)) :
    ∃ k i n t, h.Builds k i n t ∧ Reads c (z ++ (u ++ (v ++ [b]))) rest []
      ((c.inSelection.inside k (i + 1) n t).inside .selectionSet 1 none none) := by
  rw [← List.append_assoc z, List.append_assoc] at hw
  obtain ⟨k, i, n, t, hbuild, hrd⟩ :=
    reads_selection_head hc hz hu hd hw (endsHead_brace hv hb rest)
  have hset := hbuild.reads_on hh (plain_inSelection hc.plain) hv hb hw.of_append hrd
  rw [List.append_assoc z] at hset
  exact ⟨k, i, n, t, hbuild, hset⟩

/-- An **open document is read** up to a chain in its innermost selection set. -/
theorem Opens.reads (ho : Opens hs w) (hw : LaidOut (w ++ rest)) :
    ∃ c, Chain.SelectsIn hs c ∧ Reads .start w rest [] c := by
  -- The induction is on the open document. What comes after a part of it only has to be laid out.
  induction ho generalizing rest with
  | @shorthand w b hz hb =>
    rw [List.append_assoc] at hw
    have hbrace : b.token.IsOutside RuleKind.definition.extensions := by
      rw [hb]
      intro m hm
      revert m
      decide
    have hz : Reads .start w ([b] ++ rest) _ .start :=
      reads_definitions hz hw (follows_cons hbrace _)
    exact ⟨_, .shorthand, hz.append_cons (reads_shorthand hb) hbrace⟩
  | @definition h w u v b hz hd hu hv hb =>
    rw [← List.append_assoc w] at hw ⊢
    rw [List.append_assoc] at hw
    obtain ⟨k, i, n, t, hbuild, hrd⟩ := reads_definition_head hz hu hd hw
      (endsHead_brace hv hb rest)
    exact ⟨_, .definition hd hbuild, hbuild.reads_on (Head.hasSelections_of_isDefinition hd)
      plain_definitionChain hv hb hw.of_append hrd⟩
  | @selection hs h w z u v b ho hz hd hh hu hv hb ih =>
    rw [List.append_assoc] at hw
    obtain ⟨c, hc, hopen⟩ := ih hw
    obtain ⟨k, i, n, t, hbuild, hset⟩ :=
      reads_selection_opening hc.awaitsSelections hz hd hh hu hv hb hw.of_append
    exact ⟨_, .selection hc hd hbuild, hopen.append hset⟩

/-- A document **that hosts directives is read** up to a chain at its last head. -/
theorem Hosts.reads (ho : Hosts hs h w) (hw : LaidOut (w ++ rest)) (hr : EndsHead rest) :
    ∃ d, Chain.HostsIn hs h d ∧ Reads .start w rest Head.bars d := by
  cases ho with
  | @definition _ z u hz hd hu =>
    obtain ⟨k, i, n, t, hbuild, hrd⟩ := reads_definition_head hz hu hd hw hr
    exact ⟨_, .definition hd hbuild, hrd⟩
  | @selection _ _ w z u ho hz hd hu =>
    rw [List.append_assoc] at hw
    obtain ⟨c, hc, hopen⟩ := ho.reads hw
    obtain ⟨k, i, n, t, hbuild, hrd⟩ :=
      reads_selection_head hc.awaitsSelections hz hu hd hw.of_append hr
    exact ⟨_, .selection hc hd hbuild, hopen.append hrd⟩

end Runs

end QueryAssist
