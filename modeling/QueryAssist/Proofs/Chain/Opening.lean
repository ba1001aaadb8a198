import QueryAssist.Proofs.Chain.Sentence

/-! # Opening constructs

A construct that is begun and not complete is a link at some step of its rule, with the labels that
its tokens gave it. Main definitions:

* **`Chain.inside`** — a chain with one more construct open in it.
* **`Chain.StandsBefore`** — a chain at a place of its innermost rule with given steps left.

Main statements: `reads_begin` and `reads_choice_begin`, the first token of a construct opens it,
and `reads_terminal_inside`, `reads_steps`, `reads_condition`, what is read inside it. -/

namespace QueryAssist

open Grammar

/-- The link of an **opened** construct at a given step and with given labels. -/
def Link.opened (k : RuleKind) (i : Nat) (n t : Option String) : Link :=
  { kind := some k, step := i, name := n, type := t, rule := standard k }

namespace Chain

/-- The chain with a construct open **inside** its current step, at a given step and with given
labels. -/
def inside (c : Chain) (k : RuleKind) (i : Nat) (n t : Option String) : Chain :=
  ⟨.opened k i n t, c.links⟩

/-- A chain **stands before** some steps if they are what is left of its innermost rule. -/
structure StandsBefore (c : Chain) (ss : List Step) : Prop where
  place : ∃ rs i, c.top.rule = some (.steps rs) ∧ c.top.place i false = c.top ∧ rs.drop i = ss
  plain : Plain c.links

variable {c : Chain} {k : RuleKind} {ks ss ts : List Step} {s s' : Step} {e : Terminal}
  {x y : SpacedToken} {w rest : List SpacedToken} {i : Nat} {n t : Option String}

/-- Nothing is due where a construct is opened in a chain in which nothing is. -/
theorem plain_inside (h : Plain c.links) : Plain (c.inside k i n t).links :=
  List.forall_mem_cons.2 ⟨⟨rfl, rfl⟩, h⟩

/-- A named construct at a place of its own keeps a chain open. -/
theorem IsOpen.inside (h : c.IsOpen) (hn : c.top.Names k) (hk : standard k = some (.steps ks))
    (hi : i < ks.length) : (c.inside k i n t).IsOpen := by
  refine ⟨.inside (k := k) (r := .steps ks) ⟨rfl, hk, hk, hi, nofun, rfl⟩ hn h.nested, ?_⟩
  exact List.forall_mem_cons.2 ⟨rfl, h.idle⟩

/-- Where a construct is opened at a step, the chain stands before the steps from there on. -/
theorem standsBefore_inside (hk : standard k = some (.steps ks)) (hd : ks.drop i = ss)
    (hc : Plain c.links) : (c.inside k i n t).StandsBefore ss :=
  ⟨⟨ks, i, hk, rfl, hd⟩, plain_inside hc⟩

/-! ### The tokens of a construct -/

/-- After a step that is not the last one the construct goes on with the next. -/
theorem unwind_opened (hk : standard k = some (.steps ks)) (hd : ks.drop i = s :: s' :: ts)
    (hs : s.isList = false) (ps : List Link) :
    unwind (Link.opened k i n t).resume ps = ⟨.opened k (i + 1) n t, ps⟩ := by
  have hl : (Link.opened k i n t).rule = some (.steps ks) := hk
  have hd' : ks.drop (i + 1) = s' :: ts := by
    rw [← List.drop_drop, hd]
    rfl
  have hres : (Link.opened k i n t).resume = (Link.opened k i n t).place (i + 1) false :=
    resume_place hl hd hs false
  rw [hres]
  exact unwind_place hl hd' false

/-- The name that a construct has after a token of its own. -/
def label (e : Terminal) (x : SpacedToken) (n : Option String) : Option String :=
  if e.trace = .name then some x.token.text else n

/-- What a token that is wanted leads to. -/
theorem reads_terminal {l : Link} {ps : List Link} (hr : l.rule.isNone = false)
    (hw : l.wanted? x.token (x.ahead rest) = some (.terminal e)) (he : e.accepts x.token = true) :
    Reads ⟨l, ps⟩ [x] rest [] ((Chain.record ⟨l, ps⟩ e.trace x.token.text).advance true) :=
  Takes.reads ⟨⟨l, ps⟩, e, .refl, ⟨hr, hw, he⟩, rfl⟩

/-- A token of a construct is read inside it. -/
theorem reads_body_inside (hk : standard k = some (.steps ks)) (hd : ks.drop i = s :: s' :: ts)
    (hs : s.body = .terminal e) (hlist : s.isList = false) (ht : (e.trace == .type) = false)
    (he : e.accepts x.token = true) :
    Reads (c.inside k i n t) [x] rest [] (c.inside k (i + 1) (label e x n) t) := by
  have hl : (Link.opened k i n t).rule = some (.steps ks) := hk
  have hr : (Link.opened k i n t).rule.isNone = false := by
    rw [hl]
    rfl
  have hrec : Chain.record (c.inside k i n t) e.trace x.token.text =
      c.inside k i (label e x n) t := by
    unfold Chain.record label
    cases h : e.trace with
    | none | name => rfl
    | type =>
      rw [h] at ht
      cases ht
  have hend : (Chain.record (c.inside k i n t) e.trace x.token.text).advance true =
      c.inside k (i + 1) (label e x n) t := by
    rw [hrec]
    exact (advance_true_eq (l := .opened k i (label e x n) t) hr).trans
      (unwind_opened hk hd hlist c.links)
  rw [← hend]
  exact reads_terminal hr (hs ▸ wanted?_place hl hd x.token (x.ahead rest)) he

/-- So is one that cannot be left out. -/
theorem reads_terminal_inside (hk : standard k = some (.steps ks))
    (hd : ks.drop i = .terminal e :: s :: ts) (ht : (e.trace == .type) = false)
    (he : e.accepts x.token = true) :
    Reads (c.inside k i n t) [x] rest [] (c.inside k (i + 1) (label e x n) t) :=
  reads_body_inside hk hd rfl rfl ht he

/-- A construct that is wanted is entered at its first step. -/
theorem move_inside {t : Token} {ahead : List Char} {r : Rule} (hc : Plain c.links)
    (hr : c.top.rule.isNone = false) (hw : c.top.wanted? t ahead = some (.rule k))
    (hk : standard k = some r) : Move t ahead c (c.inside k 0 none none) := by
  have henter : c.enter k r = c.inside k 0 none none := by
    simp [Chain.enter, inside, Link.opened, hk, Chain.links, hc.head.1]
  rw [← henter]
  exact .enter hr hw hk

/-- A chain that stands before a step wants what the step holds. -/
theorem StandsBefore.wanted? (hc : c.StandsBefore (s :: ts)) (t : Token) (ahead : List Char) :
    c.top.rule.isNone = false ∧ c.top.wanted? t ahead = some s.body := by
  obtain ⟨rs, i, hr, hp, hd⟩ := hc.place
  rw [← hp, wanted?_place hr hd]
  exact ⟨by simp [Link.place, hr], rfl⟩

/-- The first token of a construct **opens** it. -/
theorem reads_begin (hc : c.StandsBefore (s :: ts)) (hs : s.body = .rule k)
    (hk : standard k = some (.steps (.terminal e :: s' :: ks))) (ht : (e.trace == .type) = false)
    (he : e.accepts x.token = true) :
    Reads c [x] rest [] (c.inside k 1 (label e x none) none) := by
  obtain ⟨hr, hw⟩ := hc.wanted? x.token (x.ahead ([] ++ rest))
  rw [hs] at hw
  -- The construct is entered first, and then wants the token.
  have hin : Reads (c.inside k 0 none none) [x] rest [] (c.inside k 1 (label e x none) none) :=
    reads_terminal_inside hk rfl ht he
  exact hin.of_falls (.single (move_inside hc.plain hr hw hk))

/-- A fork is entered and then the construct that it chooses. -/
theorem falls_choice {k' : RuleKind} {f : Fork} {r : Rule} {t : Token} {ahead : List Char}
    (hc : c.StandsBefore (s :: ts)) (hs : s.body = .rule k') (hk' : standard k' = some (.fork f))
    (hf : f.choose t ahead = some k) (hk : standard k = some r) :
    Falls t ahead c ((c.inside k' 0 none none).inside k 0 none none) := by
  obtain ⟨hr, hw⟩ := hc.wanted? t ahead
  rw [hs] at hw
  have hfork : (c.inside k' 0 none none).top.rule = some (.fork f) := hk'
  have hw' : (c.inside k' 0 none none).top.wanted? t ahead = some (.rule k) := by
    simp [Link.wanted?, Link.expected?, inside, Link.opened, hk', hf, Step.body]
  have hr' : (c.inside k' 0 none none).top.rule.isNone = false := by
    rw [hfork]
    rfl
  refine .head (move_inside hc.plain hr hw hk') (.single ?_)
  exact move_inside (plain_inside hc.plain) hr' hw' hk

/-- The first token of a construct that a fork chooses opens both. -/
theorem reads_choice_begin {k' : RuleKind} {f : Fork} (hc : c.StandsBefore (s :: ts))
    (hs : s.body = .rule k') (hk' : standard k' = some (.fork f))
    (hf : f.choose x.token (x.ahead rest) = some k)
    (hk : standard k = some (.steps (.terminal e :: s' :: ks))) (ht : (e.trace == .type) = false)
    (he : e.accepts x.token = true) :
    Reads c [x] rest [] ((c.inside k' 0 none none).inside k 1 (label e x none) none) := by
  have hin : Reads ((c.inside k' 0 none none).inside k 0 none none) [x] rest []
      ((c.inside k' 0 none none).inside k 1 (label e x none) none) :=
    reads_terminal_inside hk rfl ht he
  exact hin.of_falls (falls_choice hc hs hk' hf hk)

/-! ### The steps of a construct -/

/-- Some steps of a construct that label at most it are read inside it. -/
theorem exists_reads_steps (hk : standard k = some (.steps ks)) (hd : ks.drop i = ss ++ s :: ts)
    (hc : Plain c.links) (h : Derives ss w) (ho : isOrderly ss = true) (hr : seqReach ss ≤ 1)
    (hw : LaidOut (w ++ rest)) (hf : Follows (allExtensions ss) rest) :
    ∃ n' t', (seqReach ss = 0 → n' = n ∧ t' = t) ∧
      Reads (c.inside k i n t) w rest (allExtensions ss) (c.inside k (i + ss.length) n' t') := by
  have hl : (Link.opened k i n t).rule = some (.steps ks) := hk
  obtain ⟨l, ps, ha, hrd⟩ := h.passes ho (.opened k i n t) c.links rest ks (s :: ts) i hl hd
    (plain_inside hc) hw hf
  -- The steps label the construct at most, so the links around it are the same.
  obtain rfl := (ha.mono hr).tail.eq_of_zero
  obtain ⟨n', t', rfl⟩ := ha.head
  have hd' : ks.drop (i + ss.length) = s :: ts := by
    rw [← List.drop_drop, hd, List.drop_left]
  have hbegin : unwind ((Link.opened k i n t).place i false) c.links = c.inside k i n t := by
    obtain ⟨s₀, ss₀, hs₀⟩ : ∃ s₀ ss₀, ss ++ s :: ts = s₀ :: ss₀ :=
      List.exists_cons_of_ne_nil (by simp)
    exact unwind_place hl (hd.trans hs₀) false
  have hend : unwind (((Link.opened k i n t).relabel n' t').place (i + ss.length) false) c.links =
      c.inside k (i + ss.length) n' t' :=
    unwind_place (l := (Link.opened k i n t).relabel n' t') hk hd' false
  rw [hbegin, hend] at hrd
  refine ⟨n', t', fun hz => ?_, hrd⟩
  have := (List.cons.inj (hz ▸ ha).eq_of_zero).1
  exact ⟨(congrArg Link.name this).symm, (congrArg Link.type this).symm⟩

/-- Some steps of a construct are **read inside it**, with no label changed if they label
nothing. -/
theorem reads_steps (hk : standard k = some (.steps ks)) (hd : ks.drop i = ss ++ s :: ts)
    (hc : Plain c.links) (h : Derives ss w) (ho : isOrderly ss = true) (hr : seqReach ss = 0)
    (hw : LaidOut (w ++ rest)) (hf : Follows (allExtensions ss) rest) :
    Reads (c.inside k i n t) w rest (allExtensions ss) (c.inside k (i + ss.length) n t) := by
  obtain ⟨n', t', hlab, hrd⟩ := exists_reads_steps (c := c) (n := n) (t := t) hk hd hc h ho
    (hr.symm ▸ Nat.zero_le 1) hw hf
  obtain ⟨rfl, rfl⟩ := hlab hr
  exact hrd

/-- A step of a construct that **may be passed over** is, unless the next token begins it. -/
theorem reads_flexible_nil (hk : standard k = some (.steps ks)) (hd : ks.drop i = s :: s' :: ts)
    (hf : s.isFlexible = true) (hsep : s.separator? = none) (hs : s.body.isBare = true)
    (ho : isOrderly [s.body] = true) (hc : Plain c.links) :
    Reads (c.inside k i n t) [] rest s.body.openings (c.inside k (i + 1) n t) := by
  have hl : (Link.opened k i n t).rule = some (.steps ks) := hk
  have hd' : ks.drop (i + 1) = s' :: ts := by
    rw [← List.drop_drop, hd]
    rfl
  have hend : unwind (Link.opened k i n t).next c.links = c.inside k (i + 1) n t :=
    unwind_place hl hd' false
  rw [← hend]
  refine reads_nil_of_isFlexible (plain_inside hc) (isFlexible_place hl hd hf false)
    (wanted?_place hl hd) ho hs fun a sep he => ?_
  obtain rfl := Option.some.inj ((currentStep?_place hl hd false).symm.trans he)
  cases hsep

/-- So is one that may be left out. -/
theorem reads_optional_nil (hk : standard k = some (.steps ks))
    (hd : ks.drop i = .optional s :: s' :: ts) (hs : s.isBare = true) (ho : isOrderly [s] = true)
    (hc : Plain c.links) :
    Reads (c.inside k i n t) [] rest s.openings (c.inside k (i + 1) n t) :=
  reads_flexible_nil hk hd rfl rfl hs ho hc

/-- A construct that **cannot be passed over** at its step is given up with the step that it stands
for. -/
theorem giveUp_inside (hc : Plain c.links) (hr : (standard k).isNone = false)
    (hf : (Link.opened k i n t).isFlexible = false) : (c.inside k i n t).giveUp = c.giveUp := by
  have hb : backOut (c.inside k i n t).top (c.inside k i n t).outer = backOut c.top c.outer := by
    have hlink : (Link.opened k i n t).rule.isNone = false := hr
    change backOut (Link.opened k i n t) (c.top :: c.outer) = _
    rw [backOut, if_neg (by simp [hlink, hf])]
    exact congrArg (backOut · c.outer) hc.release_eq
  unfold Chain.giveUp
  rw [hb]

/-- The word `on` opens a type condition. -/
theorem reads_on (hk : standard k = some (.steps ks)) (hd : ks.drop i = s :: ts)
    (hs : s.body = .rule .typeCondition) (hc : Plain c.links) (hx : x.token = ⟨.name, "on"⟩) :
    Reads (c.inside k i n t) [x] rest []
      ((c.inside k i n t).inside .typeCondition 1 none none) := by
  refine reads_begin (standsBefore_inside hk hd hc) hs rfl rfl ?_
  rw [hx]
  rfl

/-- The name of a type is written on the construct around the type condition that it completes. -/
theorem advance_record_conditionType (hk : standard k = some (.steps ks))
    (hd : ks.drop i = s :: s' :: ts) (hl : s.isList = false) (hc : Plain c.links) (text : String) :
    (Chain.record (((c.inside k i n t).inside .typeCondition 1 none none).inside .namedType 0 none
      none) .type text).advance true = c.inside k (i + 1) n (some text) := by
  have hp : Plain ((Link.opened .typeCondition 1 none none) ::
      (Link.opened k i n (some text)) :: c.links) :=
    plain_inside (c := c.inside k i n (some text)) (plain_inside hc)
  -- Both constructs are complete with the name, and are left one after the other.
  calc (Chain.record (((c.inside k i n t).inside .typeCondition 1 none none).inside .namedType 0
          none none) .type text).advance true
    _ = unwind (Link.opened .namedType 1 (some text) none)
          (.opened .typeCondition 1 none none :: .opened k i n (some text) :: c.links) :=
        advance_true_eq (l := .opened .namedType 0 (some text) none) rfl
    _ = unwind (Link.opened .typeCondition 2 none none) (.opened k i n (some text) :: c.links) :=
        unwind_cons rfl rfl hp
    _ = unwind (Link.opened k i n (some text)).resume c.links := unwind_cons rfl rfl hp.tail
    _ = c.inside k (i + 1) n (some text) := unwind_opened hk hd hl c.links

/-- The name of a type that is read in a type condition is given to the construct around it. -/
theorem reads_conditionType (hk : standard k = some (.steps ks)) (hd : ks.drop i = s :: s' :: ts)
    (hl : s.isList = false) (hc : Plain c.links) (hy : y.token.kind = .name) :
    Reads ((c.inside k i n t).inside .typeCondition 1 none none) [y] rest []
      (c.inside k (i + 1) n (some y.token.text)) := by
  let cond : Chain := (c.inside k i n t).inside .typeCondition 1 none none
  have hp : Plain cond.links := plain_inside (plain_inside hc)
  have hsteps : standard .typeCondition =
      some (.steps [.terminal (.keyword "on"), .rule .namedType]) := rfl
  have hcond : cond.StandsBefore [.rule .namedType] :=
    standsBefore_inside hsteps rfl (plain_inside hc)
  obtain ⟨hr, hw⟩ := hcond.wanted? y.token (y.ahead ([] ++ rest))
  -- The name of the type is read one construct further in.
  have hkind : (Terminal.typeName "atom").accepts y.token = true := by
    simp [Terminal.accepts, Terminal.typeName, Matcher.accepts, hy]
  have hname : Reads (cond.inside .namedType 0 none none) [y] rest []
      (c.inside k (i + 1) n (some y.token.text)) := by
    rw [← advance_record_conditionType (t := t) hk hd hl hc]
    exact reads_terminal (l := .opened .namedType 0 none none) rfl rfl hkind
  exact hname.of_falls
    (.single (move_inside (r := .steps [.terminal (.typeName "atom")]) hp hr hw rfl))

/-- A type condition gives its type to the construct that it is in. -/
theorem reads_condition (hk : standard k = some (.steps ks)) (hd : ks.drop i = s :: s' :: ts)
    (hs : s.body = .rule .typeCondition) (hl : s.isList = false) (hc : Plain c.links)
    (hx : x.token = ⟨.name, "on"⟩) (hy : y.token.kind = .name) :
    Reads (c.inside k i n t) [x, y] rest [] (c.inside k (i + 1) n (some y.token.text)) :=
  (reads_on hk hd hs hc hx).append (reads_conditionType hk hd hl hc hy)

/-- The turns of a list leave the chain as it is. -/
theorem reads_turns (hc : c.StandsBefore (.list s :: ts)) (h : Derives [.list s] w)
    (ho : isOrderly [.list s] = true) (hs : s.reach = 0) (hw : LaidOut (w ++ rest))
    (hf : Follows s.extensions rest) : Reads c w rest s.extensions c := by
  obtain ⟨rs, i, hr, hp, hd⟩ := hc.place
  have hrd := h.reads_list ho hs hr hd hc.plain hw hf
  rwa [hp] at hrd

end Chain

end QueryAssist
