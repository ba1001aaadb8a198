import QueryAssist.Proofs.Chain.Run

/-! # Chains read the sentences of the grammar

Whatever is derived from some steps leads a chain that stands before them past them, if no token
that goes on with them comes next. Main definitions:

* **`Step.reach`** — how many links around it a step can give a name or a type.
* **`Turns s w`** — a link that wants a bare step `s` reads `w` and takes itself up again.
* **`Passes ss w`** — a link before some steps `ss` reads `w` and stands after them.

Main statements: `Derives.passes` and `Derives.turns`, by induction on derivations, and
`Derives.reads_list`, a list is left where it was found. -/

namespace QueryAssist

open Grammar Chain

/-! ### How far labels reach -/

/-- The number of links, from the innermost one out, that a token can give a label. -/
def Trace.reach : Trace → Nat
  | none => 0
  | name => 1
  | type => 3

/-- The number of links around a construct that it can give a label. -/
def RuleKind.reach : RuleKind → Nat
  | namedType => 2
  | typeCondition | implements | unionMember | nonNullType => 1
  | _ => 0

/-- The **reach** of a step: the number of links, from the one that it is a step of out, that it can
give a label. -/
def Step.reach : Step → Nat
  | terminal e => e.trace.reach
  | rule k => k.reach
  | optional s | list s => s.reach
  | separated s sep => max s.reach sep.reach

/-- The step under a mark reaches no further than the marked one. -/
theorem Step.reach_body_le (s : Step) : s.body.reach ≤ s.reach := by
  cases s with
  | separated => exact Nat.le_max_left _ _
  | _ => exact Nat.le_refl _

namespace Grammar

/-- The reach of some steps. -/
def seqReach : List Step → Nat
  | [] => 0
  | s :: ss => max s.reach (seqReach ss)

/-- The steps of a construct reach at most one link further than the construct. -/
theorem seqReach_le {k : RuleKind} {ss : List Step} (h : standard k = some (.steps ss)) :
    seqReach ss ≤ k.reach + 1 := by
  have := of_allSteps (p := fun k ss => decide (seqReach ss ≤ k.reach + 1)) (by decide) h
  exact of_decide_eq_true this

/-- So do the answers of a fork. -/
theorem reach_le_of_mem_answers {k k' : RuleKind} {f : Fork} (h : standard k = some (.fork f))
    (hk : k' ∈ f.answers) : k'.reach ≤ k.reach + 1 := by
  have := of_allForks (p := fun k f => f.answers.all fun k' => decide (k'.reach ≤ k.reach + 1))
    (by decide) h
  exact of_decide_eq_true (List.all_eq_true.1 this k' hk)

/-! ### What may follow -/

/-- What goes on with the step under a mark goes on with the step. -/
theorem extensions_body_subset {s : Step} (h : s.body.isBare = true) :
    s.body.extensions ⊆ s.extensions := by
  cases s with
  | terminal | rule => exact List.Subset.refl _
  | optional b | list b | separated b _ =>
    cases b with
    | terminal => exact List.nil_subset _
    | rule k => exact List.subset_append_right _ _
    | _ => cases h

/-- What goes on with an answer of a fork goes on with the fork. -/
theorem extensions_subset_of_mem_answers {k k' : RuleKind} {f : Fork}
    (h : standard k = some (.fork f)) (hk : k' ∈ f.answers) : k'.extensions ⊆ k.extensions := by
  intro m hm
  rw [extensions_of_fork h]
  exact List.mem_append_right _ (List.mem_flatMap.2 ⟨k', hk, hm⟩)

/-- What can go on after later steps is among what can go on after all of them. -/
theorem allExtensions_cons_subset (s : Step) (ss : List Step) :
    allExtensions ss ⊆ allExtensions (s :: ss) := List.subset_append_right _ _

/-- A step goes on after steps that may all be left out. -/
theorem extensions_subset {s : Step} {ss : List Step} (h : ss.all Step.isSkippable = true) :
    s.extensions ⊆ allExtensions (s :: ss) := by
  unfold allExtensions seqExtensions
  rw [h]
  exact List.subset_append_left _ _

end Grammar

/-- A separator of orderly steps is bare and can be begun. -/
theorem isBare_separator {s sep : Step} {ss : List Step}
    (h : isOrderly (.separated s sep :: ss) = true) : sep.isBare = true ∧ sep.openings ≠ [] := by
  have := (isOrderly_cons.1 h).1
  simpa [isFlat] using ((Bool.and_eq_true _ _).mp this).2

/-- What some steps derive does not go on with the step before them. -/
theorem Derives.follows {s : Step} {ss : List Step} {w rest : List SpacedToken} (h : Derives ss w)
    (ho : isOrderly (s :: ss) = true) (hr : Follows (allExtensions (s :: ss)) rest) :
    Follows s.extensions (w ++ rest) ∧ Follows s.extensions w ∧
      (w = [] → s.extensions ⊆ allExtensions (s :: ss)) := by
  obtain ⟨-, -, -, hap, hss⟩ := isOrderly_cons.1 ho
  cases w with
  | nil =>
    have hsub := extensions_subset (h.all_isSkippable hss) (s := s)
    exact ⟨fun x hx m hm => hr x hx m (hsub hm), nofun, fun _ => hsub⟩
  | cons y w =>
    obtain ⟨m, hm, ha⟩ := h.head_mem_openings hss
    have hy : y.token.IsOutside s.extensions := Token.isOutside_of_areApart hap hm ha
    exact ⟨follows_cons hy _, follows_cons hy _, fun hn => absurd hn (List.cons_ne_nil _ _)⟩

/-- What begins another turn of a list does not go on with the one before. -/
theorem follows_of_mem_openings {s : Step} {m : Matcher} {x : SpacedToken} {w : List SpacedToken}
    (ho : isOrderly [.list s] = true) (hm : m ∈ s.openings) (ha : m.accepts x.token = true) :
    Follows s.extensions (x :: w) :=
  follows_cons (Token.isOutside_of_areApart (isOrderly_cons.1 ho).2.2.1 hm ha) w

/-- Nor does what a list derives go on with one of its turns. -/
theorem Derives.follows_list {s : Step} {ss : List Step} {w rest : List SpacedToken}
    (h : Derives (.list s :: ss) w) (ho : isOrderly (.list s :: ss) = true)
    (hr : Follows (allExtensions (.list s :: ss)) rest) :
    Follows s.extensions (w ++ rest) ∧ Follows s.extensions w ∧
      (w = [] → s.extensions ⊆ allExtensions (.list s :: ss)) := by
  obtain ⟨-, -, hcl, hap, -⟩ := isOrderly_cons.1 ho
  have hsub : s.extensions ⊆ (Step.list s).extensions := extensions_body_subset (isBare_body ho)
  cases w with
  | nil =>
    have hall := h.all_isSkippable ho
    rw [List.all_cons, Bool.and_eq_true] at hall
    have hsub := List.Subset.trans hsub (extensions_subset hall.2)
    exact ⟨fun x hx m hm => hr x hx m (hsub hm), nofun, fun _ => hsub⟩
  | cons y w =>
    obtain ⟨m, hm, ha⟩ := h.head_mem_openings ho
    have hy : y.token.IsOutside s.extensions := by
      rcases List.mem_append.1 hm with hm | hm
      · rw [← openings_body (isBare_body ho)] at hm
        exact Token.isOutside_of_areApart hcl hm ha
      · exact fun n hn => Token.isOutside_of_areApart hap hm ha n (hsub hn)
    exact ⟨follows_cons hy _, follows_cons hy _, fun hn => absurd hn (List.cons_ne_nil _ _)⟩

/-- A separator is apart from what goes on with a turn, and a turn from what goes on with a
separator. -/
theorem areApart_separator {s sep : Step} {ss : List Step}
    (ho : isOrderly (.separated s sep :: ss) = true) :
    Matcher.areApart sep.openings s.extensions = true ∧
      Matcher.areApart s.openings sep.extensions = true :=
  (Bool.and_eq_true _ _).mp (isOrderly_cons.1 ho).2.2.1

/-- A separator does not go on with the turn before it. -/
theorem Derives.isOutside_turn {s sep : Step} {ss : List Step} {x : SpacedToken}
    {w : List SpacedToken} (h : Derives [sep] (x :: w))
    (ho : isOrderly (.separated s sep :: ss) = true) : x.token.IsOutside s.extensions := by
  obtain ⟨hbare, hsep⟩ := isBare_separator ho
  obtain ⟨m, hm, ha⟩ := h.head_mem_openings (isOrderly_singleton hbare hsep)
  rw [seqOpenings, isSkippable_of_isBare hbare] at hm
  exact Token.isOutside_of_areApart (areApart_separator ho).1 (by simpa using hm) ha

/-- Another turn does not go on with the separator before it. -/
theorem Derives.isOutside_separator {s sep : Step} {ss : List Step} {x : SpacedToken}
    {w : List SpacedToken} (h : Derives (.separated s sep :: ss) (x :: w))
    (ho : isOrderly (.separated s sep :: ss) = true) : x.token.IsOutside sep.extensions := by
  obtain ⟨m, hm, ha⟩ := h.head_mem_openings ho
  have hm : m ∈ (Step.separated s sep).openings ++ [] := hm
  rw [List.append_nil, ← openings_body (isBare_body ho)] at hm
  exact Token.isOutside_of_areApart (areApart_separator ho).2 hm ha

/-- What does not go on with some classes does not go on with fewer. -/
theorem Follows.mono {ms ns : List Matcher} {w : List SpacedToken} (h : Follows ns w)
    (hm : ms ⊆ ns) : Follows ms w := fun x hx m hn => h x hx m (hm hn)

/-! ### Reading one step, and some -/

/-- A link **wants** a step when the first of some tokens is next. -/
def Wants (l : Link) (s : Step) (v rest : List SpacedToken) : Prop :=
  ∀ x u, v = x :: u → l.wanted? x.token (x.ahead (u ++ rest)) = some s

/-- Tokens **turn** a link that wants a step: they are read, and the link is taken up again. -/
def Turns (s : Step) (v : List SpacedToken) : Prop :=
  ∀ (l : Link) (ps : List Link) (rest : List SpacedToken), Plain (l :: ps) → l.rule.isNone = false →
    Wants l s v rest → LaidOut (v ++ rest) → Follows s.extensions rest →
    ∃ l' ps', Alike s.reach (l :: ps) (l' :: ps') ∧
      Reads ⟨l, ps⟩ v rest s.extensions (unwind l'.resume ps')

/-- Tokens **pass** some steps: they lead a link that stands before the steps past them. -/
def Passes (ss : List Step) (w : List SpacedToken) : Prop :=
  ∀ (l : Link) (ps : List Link) (rest : List SpacedToken) (rs ts : List Step) (i : Nat),
    l.rule = some (.steps rs) → rs.drop i = ss ++ ts → Plain (l :: ps) → LaidOut (w ++ rest) →
    Follows (allExtensions ss) rest →
    ∃ l' ps', Alike (seqReach ss) (l :: ps) (l' :: ps') ∧
      Reads (unwind (l.place i false) ps) w rest (allExtensions ss)
        (unwind (l'.place (i + ss.length) false) ps')

/-- What a token leaves behind is a label of as many links as it reaches. -/
theorem Chain.alike_record (c : Chain) (tr : Trace) (text : String) :
    Alike tr.reach c.links (c.record tr text).links := by
  obtain ⟨l, ps⟩ := c
  cases tr with
  | none => exact .refl _ _
  | name => exact .relabel l (some text) l.type (.refl 0 ps)
  | type =>
    match ps with
    | [] | [_] => exact .refl _ _
    | p :: q :: ps =>
      exact .relabel l (some text) l.type (.relabel p p.name p.type
        (.relabel q q.name (some text) (.refl 0 ps)))

namespace Turns

variable {s : Step} {v : List SpacedToken}

/-- A token turns a link that wants it. -/
theorem terminal {e : Terminal} {x : SpacedToken} (he : e.accepts x.token = true) :
    Turns (.terminal e) [x] := by
  intro l ps rest hp hr hw hl hf
  have hadm : Admits x.token (x.ahead rest) ⟨l, ps⟩ e := ⟨hr, hw x [] rfl, he⟩
  have ha := alike_record ⟨l, ps⟩ e.trace x.token.text
  obtain ⟨l', ps', he⟩ : ∃ l' ps', Chain.record ⟨l, ps⟩ e.trace x.token.text = ⟨l', ps'⟩ :=
    ⟨_, _, rfl⟩
  rw [he] at ha
  refine ⟨l', ps', ha, Takes.reads ⟨⟨l, ps⟩, e, .refl, hadm, ?_⟩⟩
  obtain ⟨a, t, rfl⟩ := ha.head
  rw [he, advance_true_eq (l := l.relabel a t) hr]

/-- A construct turns a link if its steps are passed. -/
theorem construct {k : RuleKind} {ks : List Step} (hk : standard k = some (.steps ks))
    (hd : k ≠ .document) (hv : Derives ks v) (h : Passes ks v) : Turns (.rule k) v := by
  intro l ps rest hp hr hw hl hf
  obtain ⟨s, ks, rfl⟩ := List.exists_cons_of_ne_nil (steps_ne_nil hk)
  obtain ⟨x, u, rfl⟩ : ∃ x u, v = x :: u := by
    refine List.exists_cons_of_ne_nil ?_
    rintro rfl
    have := hv.all_isSkippable (isOrderly_of_standard hk)
    rw [List.all_cons, Derives.isSkippable_head hk hd] at this
    cases this
  have hx : (Step.rule k).extensions = allExtensions (s :: ks) := extensions_of_steps hk
  rw [hx] at hf ⊢
  -- The steps are passed at the link that is entered.
  let n := (Chain.enter ⟨l, ps⟩ k (.steps (s :: ks))).top
  have hn : Plain (n :: l :: ps) := List.forall_mem_cons.2 ⟨⟨hp.head.1, rfl⟩, hp⟩
  obtain ⟨n', qs, ha, hrd⟩ := h n (l :: ps) rest (s :: ks) [] 0 rfl (by simp) hn hl hf
  have ha := ha.mono (seqReach_le hk)
  obtain ⟨l', ps', rfl⟩ := ha.tail.exists_cons
  refine ⟨l', ps', ha.tail, ?_⟩
  have hbegin : unwind (n.place 0 false) (l :: ps) = Chain.enter ⟨l, ps⟩ k (.steps (s :: ks)) :=
    unwind_eq_self (isComplete_eq_false_of_currentStep? (s := s) rfl)
  have hend :
      unwind (n'.place (0 + (s :: ks).length) false) (l' :: ps') = unwind l'.resume ps' := by
    have hpl := (ha.place (0 + (s :: ks).length) false).plain (hn.place _ _)
    refine unwind_cons ?_ hpl.head.1 hpl.tail
    obtain ⟨a, t, rfl⟩ := ha.head
    simp [Link.isComplete, Link.relabel, Link.place, n, Chain.enter, Rule.length]
  rw [hbegin, hend] at hrd
  exact hrd.of_falls (.single (.enter hr (hw x u rfl) hk))

/-- A fork turns a link as the construct that it chooses does, up to what goes on with that one. -/
theorem reads_choice {k k' : RuleKind} {f : Fork} (hk : standard k = some (.fork f))
    (hf : k' ∈ f.answers) (hs : k'.Suits v) (hv : Derives [.rule k'] v) (h : Turns (.rule k') v)
    {l : Link} {ps : List Link} {rest : List SpacedToken} (hp : Plain (l :: ps))
    (hr : l.rule.isNone = false) (hw : Wants l (.rule k) v rest) (hl : LaidOut (v ++ rest))
    (hfo : Follows k.extensions rest) :
    ∃ l' ps', Alike k.reach (l :: ps) (l' :: ps') ∧
      Reads ⟨l, ps⟩ v rest k'.extensions (unwind l'.resume ps') := by
  have hok := isOrderly_of_mem_answers hk hf
  obtain ⟨x, u, rfl⟩ := List.exists_cons_of_ne_nil
    (hv.ne_nil_of_isBare (isOrderly_cons.1 hok).1 hok)
  have hbar : Follows (bars f) rest := by
    rw [extensions_of_fork hk] at hfo
    exact hfo.mono (List.subset_append_left _ _)
  let n := (Chain.enter ⟨l, ps⟩ k (.fork f)).top
  have hn : Plain (n :: l :: ps) := List.forall_mem_cons.2 ⟨⟨hp.head.1, rfl⟩, hp⟩
  have hwant : Wants n (.rule k') (x :: u) rest := by
    rintro y v hv'
    obtain ⟨rfl, rfl⟩ := List.cons.inj hv'
    have := Fork.choose_eq hf hs hv hok hl hbar
    simp [Link.wanted?, Link.expected?, n, Chain.enter, this, Step.body]
  -- The chosen construct takes its turn, and the fork around it is complete with it.
  obtain ⟨n', qs, ha, hrd⟩ :=
    h n (l :: ps) rest hn rfl hwant hl (hfo.mono (extensions_subset_of_mem_answers hk hf))
  have ha := ha.mono (reach_le_of_mem_answers hk hf)
  obtain ⟨l', ps', rfl⟩ := ha.tail.exists_cons
  refine ⟨l', ps', ha.tail, ?_⟩
  have hend : unwind n'.resume (l' :: ps') = unwind l'.resume ps' := by
    have hpl := ha.plain hn
    obtain ⟨a, t, rfl⟩ := ha.head
    exact unwind_cons rfl hpl.head.1 hpl.tail
  rw [hend] at hrd
  exact hrd.of_falls (.single (.enter hr (hw x u rfl) hk))

/-- A fork turns a link if the construct that it chooses does. -/
theorem choice {k k' : RuleKind} {f : Fork} (hk : standard k = some (.fork f)) (hf : k' ∈ f.answers)
    (hs : k'.Suits v) (hv : Derives [.rule k'] v) (h : Turns (.rule k') v) : Turns (.rule k) v := by
  intro l ps rest hp hr hw hl hfo
  obtain ⟨l', ps', ha, hrd⟩ := reads_choice hk hf hs hv h hp hr hw hl hfo
  exact ⟨l', ps', ha, hrd.mono (extensions_subset_of_mem_answers hk hf)⟩

end Turns

/-! ### Links at a place -/

section Place

variable {l : Link} {ps : List Link} {rs ts : List Step} {s sep : Step} {i : Nat}

/-- A link at a place of its rule has the step there next. -/
theorem currentStep?_place (hl : l.rule = some (.steps rs)) (hd : rs.drop i = s :: ts) (b : Bool) :
    (l.place i b).currentStep? = some s := by
  have : rs[i]? = some s := by
    have := congrArg (·[0]?) hd
    simpa using this
  simpa [Link.currentStep?, Link.place, hl, Rule.step?] using this

/-- It is not complete, so that it is not left. -/
theorem unwind_place (hl : l.rule = some (.steps rs)) (hd : rs.drop i = s :: ts) (b : Bool) :
    unwind (l.place i b) ps = ⟨l.place i b, ps⟩ :=
  unwind_eq_self (isComplete_eq_false_of_currentStep? (currentStep?_place hl hd b))

/-- It wants what the step holds, unless a separator is due. -/
theorem wanted?_place (hl : l.rule = some (.steps rs)) (hd : rs.drop i = s :: ts) (t : Token)
    (ahead : List Char) : (l.place i false).wanted? t ahead = some s.body := by
  have := currentStep?_place hl hd false
  simp only [Link.currentStep?, Link.place, hl, Option.bind_some, Rule.step?] at this
  simp [Link.wanted?, Link.expected?, Link.place, hl, this]

/-- Between two turns the separator is wanted. -/
theorem wanted?_place_true (hl : l.rule = some (.steps rs))
    (hd : rs.drop i = .separated s sep :: ts) (hs : sep.isBare = true) (t : Token)
    (ahead : List Char) :
    (l.place i true).wanted? t ahead = some sep := by
  have := currentStep?_place hl hd true
  have hb : sep.body = sep := by
    cases sep with
    | terminal | rule => rfl
    | _ => cases hs
  simp only [Link.currentStep?, Link.place, hl, Option.bind_some, Rule.step?] at this
  simp [Link.wanted?, Link.expected?, Link.place, hl, this, Step.separator?, hb]

/-- Taken up again after a step that is no list, it is at the next step. -/
theorem resume_place (hl : l.rule = some (.steps rs)) (hd : rs.drop i = s :: ts)
    (hs : s.isList = false) (b : Bool) : (l.place i b).resume = l.place (i + 1) false := by
  have := currentStep?_place hl hd b
  have hr : (l.place i b).rule.isNone = false := by simp [Link.place, hl]
  unfold Link.resume
  rw [hr, this]
  cases s with
  | list | separated => cases hs
  | _ => rfl

/-- After a turn of a list it is at the list again. -/
theorem resume_place_list (hl : l.rule = some (.steps rs)) (hd : rs.drop i = .list s :: ts)
    (b : Bool) : (l.place i b).resume = l.place i b := by
  have := currentStep?_place hl hd b
  unfold Link.resume
  rw [this]
  simp

/-- A list with separators turns from its item to its separator, and back. -/
theorem resume_place_separated (hl : l.rule = some (.steps rs))
    (hd : rs.drop i = .separated s sep :: ts) (b : Bool) :
    (l.place i b).resume = l.place i (!b) := by
  have := currentStep?_place hl hd b
  have hr : (l.place i b).rule.isNone = false := by simp [Link.place, hl]
  unfold Link.resume
  rw [hr, this]
  rfl

/-- It may be passed over if the step may be. -/
theorem isFlexible_place (hl : l.rule = some (.steps rs)) (hd : rs.drop i = s :: ts)
    (hs : s.isFlexible = true) (b : Bool) : (l.place i b).isFlexible = true := by
  simp [Link.isFlexible, currentStep?_place hl hd b, hs]

/-- What turns a link that wants a step turns it at any place where it does. -/
theorem Turns.at_place {v rest : List SpacedToken} {b : Bool} (h : Turns s v) (hp : Plain (l :: ps))
    (hl : l.rule = some (.steps rs)) (hw : ∀ t ahead, (l.place i b).wanted? t ahead = some s)
    (hlay : LaidOut (v ++ rest)) (hf : Follows s.extensions rest) :
    ∃ l' ps', Alike s.reach (l :: ps) (l' :: ps') ∧ l'.rule = some (.steps rs) ∧
      Plain (l' :: ps') ∧
      Reads ⟨l.place i b, ps⟩ v rest s.extensions (unwind (l'.place i b).resume ps') := by
  have hr : (l.place i b).rule.isNone = false := by simp [Link.place, hl]
  obtain ⟨m, ps', ha, hrd⟩ := h (l.place i b) ps rest (hp.place i b) hr (fun _ _ _ => hw _ _) hlay
    hf
  obtain ⟨l', rfl, hal⟩ := ha.of_place
  refine ⟨l', ps', hal, ?_, hal.plain hp, hrd⟩
  obtain ⟨a, t, rfl⟩ := hal.head
  exact hl

end Place

namespace Passes

variable {s sep : Step} {ss : List Step} {u v w : List SpacedToken}

/-- Nothing passes no steps. -/
theorem nil : Passes [] [] := by
  intro l ps rest rs ts i hl hd hp hlay hf
  exact ⟨l, ps, .refl _ _, reads_nil _ rest⟩

/-- What is read up to the place after a step goes on with what passes the steps after it. -/
theorem after_step {l m : Link} {ps qs : List Link} {rs ts : List Step} {i : Nat}
    {rest : List SpacedToken} (hw : Passes ss w) (hd : Derives ss w)
    (ho : isOrderly (s :: ss) = true) (hl : l.rule = some (.steps rs))
    (hm : m.rule = some (.steps rs)) (hdrop : rs.drop i = (s :: ss) ++ ts)
    (ha : Alike s.reach (l :: ps) (m :: qs)) (hp : Plain (m :: qs)) (hlay : LaidOut (w ++ rest))
    (hf : Follows (allExtensions (s :: ss)) rest)
    (hr : Reads ⟨l.place i false, ps⟩ v (w ++ rest) s.extensions
      (unwind (m.place (i + 1) false) qs)) :
    ∃ l' ps', Alike (seqReach (s :: ss)) (l :: ps) (l' :: ps') ∧
      Reads (unwind (l.place i false) ps) (v ++ w) rest (allExtensions (s :: ss))
        (unwind (l'.place (i + (s :: ss).length) false) ps') := by
  -- What lags after the step is left when the first token of `w` is seen, or stays to the end.
  obtain ⟨-, hnext, hnil⟩ := hd.follows ho hf
  have hsub := allExtensions_cons_subset s ss
  have hdrop' : rs.drop (i + 1) = ss ++ ts := by
    rw [← List.drop_drop, hdrop]
    rfl
  obtain ⟨l', ps', ha', hr'⟩ := hw m qs rest rs ts (i + 1) hm hdrop' hp hlay (hf.mono hsub)
  have hlen : i + (s :: ss).length = i + 1 + ss.length := by
    rw [List.length_cons]
    omega
  refine ⟨l', ps', (ha.mono (Nat.le_max_left _ _)).trans (ha'.mono (Nat.le_max_right _ _)), ?_⟩
  rw [unwind_place hl hdrop, hlen]
  exact hr.trans (hr'.mono hsub) hnext hnil

/-- A step that is taken once is passed when it turns the link. -/
theorem cons (hv : Turns s.body v) (hw : Passes ss w) (hd : Derives ss w)
    (ho : isOrderly (s :: ss) = true) (hs : s.isList = false) : Passes (s :: ss) (v ++ w) := by
  intro l ps rest rs ts i hl hdrop hp hlay hf
  have hsub := extensions_body_subset (isBare_body ho)
  rw [List.append_assoc] at hlay
  obtain ⟨l₁, ps₁, ha₁, hl₁, hp₁, hr₁⟩ :=
    hv.at_place hp hl (wanted?_place hl hdrop) hlay ((hd.follows ho hf).1.mono hsub)
  rw [resume_place hl₁ hdrop hs] at hr₁
  exact hw.after_step hd ho hl hl₁ hdrop (ha₁.mono s.reach_body_le) hp₁ hlay.of_append hf
    (hr₁.mono hsub)

/-- A step that may be left out is passed over. -/
theorem skip (hw : Passes ss w) (hd : Derives ss w) (ho : isOrderly (s :: ss) = true)
    (hs : s.isSkippable = true) : Passes (s :: ss) w := by
  intro l ps rest rs ts i hl hdrop hp hlay hf
  have hsub : s.body.openings ⊆ s.extensions := by
    cases s with
    | optional | list => exact List.subset_append_left _ _
    | _ => cases hs
  have hflex : s.isFlexible = true := by
    cases s with
    | optional | list => rfl
    | _ => cases hs
  have hsep : ∀ a sep, (l.place i false).currentStep? = some (.separated a sep) →
      sep.isFlexible = false := by
    intro a sep he
    rw [currentStep?_place hl hdrop] at he
    cases Option.some.inj he
    cases hs
  have hr : Reads _ [] (w ++ rest) _ _ := reads_nil_of_isFlexible (hp.place i false)
    (isFlexible_place hl hdrop hflex false) (wanted?_place hl hdrop) (isOrderly_body ho)
    (isBare_body ho) hsep
  exact hw.after_step hd ho hl hl hdrop (.refl _ _) hp hlay hf (hr.mono hsub)

/-- After a turn of a list the list is passed as before it. -/
theorem again (hv : Turns s v) (hw : Passes (.list s :: ss) w) (hd : Derives (.list s :: ss) w)
    (ho : isOrderly (.list s :: ss) = true) : Passes (.list s :: ss) (v ++ w) := by
  intro l ps rest rs ts i hl hdrop hp hlay hf
  obtain ⟨hnext, hw', hnil⟩ := hd.follows_list ho hf
  rw [List.append_assoc] at hlay
  obtain ⟨l₁, ps₁, ha₁, hl₁, hp₁, hr₁⟩ :=
    hv.at_place hp hl (wanted?_place hl hdrop) hlay hnext
  obtain ⟨l₂, ps₂, ha₂, hr₂⟩ := hw l₁ ps₁ rest rs ts i hl₁ hdrop hp₁ hlay.of_append hf
  refine ⟨l₂, ps₂, (ha₁.mono (Nat.le_max_left _ _)).trans ha₂, ?_⟩
  rw [resume_place_list hl₁ hdrop] at hr₁
  rw [unwind_place hl hdrop]
  exact hr₁.trans hr₂ hw' hnil

/-- After the last turn of a list with separators the list is left. -/
theorem last (hv : Turns s v) (hw : Passes ss w) (hd : Derives ss w)
    (ho : isOrderly (.separated s sep :: ss) = true) :
    Passes (.separated s sep :: ss) (v ++ w) := by
  intro l ps rest rs ts i hl hdrop hp hlay hf
  have hrest := (hd.follows ho hf).1
  obtain ⟨hbare, hsep⟩ := isBare_separator ho
  have hsub : s.extensions ⊆ (Step.separated s sep).extensions :=
    extensions_body_subset (isBare_body ho)
  have hsub' : sep.openings ⊆ (Step.separated s sep).extensions := List.subset_append_left _ _
  rw [List.append_assoc] at hlay
  obtain ⟨l₁, ps₁, ha₁, hl₁, hp₁, hr₁⟩ :=
    hv.at_place hp hl (wanted?_place hl hdrop) hlay (hrest.mono hsub)
  rw [resume_place_separated hl₁ hdrop, Bool.not_false, unwind_place hl₁ hdrop] at hr₁
  -- The separator is missing before what comes after the list.
  have hmiss : Reads ⟨l₁.place i true, ps₁⟩ [] (w ++ rest) sep.openings
      (unwind (l₁.place (i + 1) false) ps₁) := by
    refine reads_nil_of_isFlexible (hp₁.place i true) (isFlexible_place hl₁ hdrop rfl true)
      (wanted?_place_true hl₁ hdrop hbare) (isOrderly_singleton hbare hsep) hbare ?_
    intro a b he
    rw [currentStep?_place hl₁ hdrop] at he
    cases Option.some.inj he
    cases sep with
    | terminal | rule => rfl
    | _ => cases hbare
  have hturn : Reads ⟨l.place i false, ps⟩ (v ++ []) (w ++ rest)
      (Step.separated s sep).extensions (unwind (l₁.place (i + 1) false) ps₁) :=
    (hr₁.mono hsub).trans (w := []) (hmiss.mono hsub') nofun fun _ => List.Subset.refl _
  rw [List.append_nil] at hturn
  exact hw.after_step hd ho hl hl₁ hdrop (ha₁.mono (Nat.le_max_left _ _)) hp₁ hlay.of_append hf
    hturn

/-- After a turn of a list with separators and a separator the list is passed as before it. -/
theorem next (hv : Turns s v) (hu : Turns sep u) (hw : Passes (.separated s sep :: ss) w)
    (hdu : Derives [sep] u) (hd : Derives (.separated s sep :: ss) w)
    (ho : isOrderly (.separated s sep :: ss) = true) :
    Passes (.separated s sep :: ss) (v ++ (u ++ w)) := by
  intro l ps rest rs ts i hl hdrop hp hlay hf
  obtain ⟨hbare, hsep⟩ := isBare_separator ho
  have hou := isOrderly_singleton hbare hsep
  obtain ⟨y, u, rfl⟩ := List.exists_cons_of_ne_nil (hdu.ne_nil_of_isBare hbare hou)
  -- The list goes on after the separator, so a token follows.
  obtain ⟨z, w, rfl⟩ : ∃ z w', w = z :: w' := by
    refine List.exists_cons_of_ne_nil ?_
    rintro rfl
    cases hd.all_isSkippable ho
  have hy : y.token.IsOutside s.extensions := hdu.isOutside_turn ho
  have hz : z.token.IsOutside sep.extensions := hd.isOutside_separator ho
  rw [List.append_assoc, List.append_assoc] at hlay
  obtain ⟨l₁, ps₁, ha₁, hl₁, hp₁, hr₁⟩ :=
    hv.at_place hp hl (wanted?_place hl hdrop) hlay (follows_cons hy _)
  obtain ⟨l₂, ps₂, ha₂, hl₂, hp₂, hr₂⟩ :=
    hu.at_place hp₁ hl₁ (wanted?_place_true hl₁ hdrop hbare) hlay.of_append (follows_cons hz _)
  obtain ⟨l₃, ps₃, ha₃, hr₃⟩ :=
    hw l₂ ps₂ rest rs ts i hl₂ hdrop hp₂ hlay.of_append.of_append hf
  refine ⟨l₃, ps₃, ((ha₁.mono ?_).trans (ha₂.mono ?_)).trans ha₃, ?_⟩
  · exact Nat.le_trans (Nat.le_max_left _ _) (Nat.le_max_left _ _)
  · exact Nat.le_trans (Nat.le_max_right _ _) (Nat.le_max_left _ _)
  · rw [resume_place_separated hl₁ hdrop, Bool.not_false, unwind_place hl₁ hdrop] at hr₁
    rw [resume_place_separated hl₂ hdrop, Bool.not_true] at hr₂
    rw [unwind_place hl hdrop]
    rw [← List.append_assoc] at hr₁
    exact hr₁.append_cons (hr₂.append_cons hr₃ hz) hy

end Passes

namespace Derives

variable {s : Step} {ss : List Step} {v w : List SpacedToken}

/-- A first step that turns the link is passed, and it is all there is if no step comes after it. -/
theorem passes_and_turns_of_bare (hs : s.isBare = true) (hv : Turns s v) (hd : Derives ss w)
    (ho : isOrderly (s :: ss) = true) (hw : Passes ss w) :
    Passes (s :: ss) (v ++ w) ∧ ∀ s', s :: ss = [s'] → s'.isBare = true → Turns s' (v ++ w) := by
  obtain ⟨hb, hl⟩ : s.body = s ∧ s.isList = false := by
    cases s with
    | terminal | rule => exact ⟨rfl, rfl⟩
    | _ => cases hs
  refine ⟨.cons (hb.symm ▸ hv) hw hd ho hl, ?_⟩
  rintro s' he -
  obtain ⟨rfl, rfl⟩ := List.cons.inj he
  obtain rfl := hd.eq_nil
  rwa [List.append_nil]

/-- A first step with a mark is never one bare step. -/
theorem passes_and_turns_of_marked (hs : s.isBare = false) (hw : Passes (s :: ss) w) :
    Passes (s :: ss) w ∧ ∀ s', s :: ss = [s'] → s'.isBare = true → Turns s' w := by
  refine ⟨hw, fun s' he hs' => ?_⟩
  rw [← (List.cons.inj he).1, hs] at hs'
  cases hs'

/-- What is derived from orderly steps passes them, and what is derived from one bare step turns a
link that wants it. -/
theorem passes_and_turns (h : Derives ss w) (ho : isOrderly ss = true) :
    Passes ss w ∧ ∀ s, ss = [s] → s.isBare = true → Turns s w := by
  -- The induction is on the derivation. Both halves are needed at once: a construct turns a link if
  -- its steps are passed, and a step is passed if what it derives turns the link.
  induction h with
  | nil => exact ⟨.nil, nofun⟩
  | terminal he h ih =>
    exact passes_and_turns_of_bare rfl (.terminal he) h ho (ih (isOrderly_tail ho)).1
  | construct hk hv h ihv ih =>
    have hks := isOrderly_of_standard hk
    have ht := Turns.construct hk (ne_document_of_isOrderly ho) hv (ihv hks).1
    exact passes_and_turns_of_bare (isOrderly_cons.1 ho).1 ht h ho
      (ih (isOrderly_tail ho)).1
  | choice hk hf hs hv h ihv ih =>
    have hok := isOrderly_of_mem_answers hk hf
    have ht := (ihv hok).2 _ rfl (isOrderly_cons.1 hok).1
    exact passes_and_turns_of_bare (isOrderly_cons.1 ho).1 (.choice hk hf hs hv ht) h ho
      (ih (isOrderly_tail ho)).1
  | skip h ih | stop h ih =>
    exact passes_and_turns_of_marked rfl (.skip (ih (isOrderly_tail ho)).1 h ho rfl)
  | keep hv h ihv ih =>
    have ht := (ihv (isOrderly_body ho)).2 _ rfl (isBare_body ho)
    exact passes_and_turns_of_marked rfl (.cons ht (ih (isOrderly_tail ho)).1 h ho rfl)
  | again hv h ihv ih =>
    have ht := (ihv (isOrderly_body ho)).2 _ rfl (isBare_body ho)
    exact passes_and_turns_of_marked rfl (.again ht (ih ho).1 h ho)
  | last hv h ihv ih =>
    have ht := (ihv (isOrderly_body ho)).2 _ rfl (isBare_body ho)
    exact passes_and_turns_of_marked rfl (.last ht (ih (isOrderly_tail ho)).1 h ho)
  | next hv hu h ihv ihu ih =>
    have ht := (ihv (isOrderly_body ho)).2 _ rfl (isBare_body ho)
    obtain ⟨hbare, hsep⟩ := isBare_separator ho
    have htu := (ihu (isOrderly_singleton hbare hsep)).2 _ rfl hbare
    exact passes_and_turns_of_marked rfl (.next ht htu (ih ho).1 hu h ho)

/-- **What is derived from orderly steps passes them.** -/
theorem passes (h : Derives ss w) (ho : isOrderly ss = true) : Passes ss w :=
  (h.passes_and_turns ho).1

/-- **What is derived from a bare step turns a link that wants it.** -/
theorem turns (h : Derives [s] w) (ho : isOrderly [s] = true) (hs : s.isBare = true) : Turns s w :=
  (h.passes_and_turns ho).2 s rfl hs

/-- The turns of a list **leave it where it was found**, if none of them labels it. -/
theorem reads_list {l : Link} {ps : List Link} {rs ts : List Step} {rest : List SpacedToken}
    {i : Nat} (h : Derives [.list s] w) (ho : isOrderly [.list s] = true) (hs : s.reach = 0)
    (hl : l.rule = some (.steps rs)) (hd : rs.drop i = .list s :: ts) (hp : Plain (l :: ps))
    (hlay : LaidOut (w ++ rest)) (hf : Follows s.extensions rest) :
    Reads ⟨l.place i false, ps⟩ w rest s.extensions ⟨l.place i false, ps⟩ := by
  generalize he : [Step.list s] = ss at h
  induction h with
  | nil | terminal | construct | choice | skip | keep | last | next => cases he
  | stop h =>
    obtain ⟨-, rfl⟩ := List.cons.inj he
    obtain rfl := h.eq_nil
    exact (reads_nil _ rest).mono (List.nil_subset _)
  | @again s' ss v w hv h _ ih =>
    obtain ⟨he', rfl⟩ := List.cons.inj he
    obtain rfl : s = s' := Step.list.inj he'
    have hb := isBare_body ho
    rw [List.append_assoc] at hlay
    have hfw : Follows s.extensions w ∧ Follows s.extensions (w ++ rest) := by
      cases w with
      | nil => exact ⟨nofun, hf⟩
      | cons y w =>
        obtain ⟨m, hm, ha⟩ := h.head_mem_openings ho
        have hm : m ∈ (Step.list s).openings ++ [] := hm
        rw [List.append_nil, ← openings_body hb] at hm
        exact ⟨follows_of_mem_openings ho hm ha, follows_of_mem_openings ho hm ha⟩
    obtain ⟨l', ps', ha, hl', hp', hr⟩ := (hv.turns (isOrderly_body ho) hb).at_place hp hl
      (wanted?_place hl hd) hlay hfw.2
    -- A turn that labels nothing leaves the links that it found.
    obtain ⟨rfl, rfl⟩ := List.cons.inj (hs ▸ ha).eq_of_zero
    rw [resume_place_list hl hd, unwind_place hl hd] at hr
    exact hr.trans (ih hlay.of_append rfl) hfw.1 fun _ => List.Subset.refl _

end Derives

end QueryAssist
