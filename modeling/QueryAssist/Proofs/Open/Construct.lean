import QueryAssist.Proofs.Chain.Opening
import QueryAssist.Proofs.Layout.Definitions
import QueryAssist.Proofs.Open.Head

/-! # The constructs of heads

A head builds a construct, which goes on with directives. Its labels tell which head it is. Main
definitions:

* **`NamedAt`** — the constructs of fields, where their name was read.
* **`Head.Builds`** — the construct of a head, at its directives, with its labels.
* **`EndsHead`** — what comes after a head.

Main statements: `Head.Writes.reads_definition` and `Head.Writes.reads_selection`, the tokens of a
head are read and build its construct. -/

namespace QueryAssist

open Grammar Chain Step Terminal

/-! ### The constructs of heads -/

/-- A field **is named** at a step of its construct, which has an alias or has none. -/
inductive NamedAt : RuleKind → Nat → Prop
  /-- Without an alias. -/
  | field : NamedAt .field 1
  /-- With an alias. -/
  | aliasedField : NamedAt .aliasedField 3

/-- A head **builds** a construct, which is at its directives with given labels. -/
inductive Head.Builds : Head → RuleKind → Nat → Option String → Option String → Prop
  /-- A query. -/
  | query (n t : Option String) : Builds .query .query 3 n t
  /-- A mutation. -/
  | mutation (n t : Option String) : Builds .mutation .mutation 3 n t
  /-- A subscription. -/
  | subscription (n t : Option String) : Builds .subscription .subscription 3 n t
  /-- A fragment. -/
  | fragment (n : Option String) {t : String} (ht : t ≠ "") :
      Builds (.fragment t) .fragmentDefinition 3 n (some t)
  /-- A field. -/
  | field {k : RuleKind} {i : Nat} {n : String} (hk : NamedAt k i) (hn : n ≠ "")
      (t : Option String) : Builds (.field n) k (i + 1) (some n) t
  /-- An inline fragment without a type. -/
  | inline (n : Option String) : Builds (.inline none) .inlineFragment 2 n none
  /-- An inline fragment on a type. -/
  | inlineOn (n : Option String) {t : String} (ht : t ≠ "") :
      Builds (.inline (some t)) .inlineFragment 2 n (some t)
  /-- A spread. -/
  | spread (n t : Option String) : Builds .spread .fragmentSpread 2 n t

/-- The field that is named goes on with its arguments. -/
theorem NamedAt.exists_steps {k : RuleKind} {i : Nat} (h : NamedAt k i) :
    ∃ ks, standard k = some (.steps ks) ∧ ks.drop i = fieldTail := by
  cases h with
  | field | aliasedField => exact ⟨_, rfl, rfl⟩

namespace Head.Builds

variable {h : Head} {k : RuleKind} {i : Nat} {n t : Option String}

/-- The construct of a head goes on with directives, and then with selections if the head has
some. -/
theorem exists_steps (hb : h.Builds k i n t) :
    ∃ ks ts, standard k = some (.steps ks) ∧ ks.drop i = list (rule .directive) :: ts ∧
      (h.hasSelections = true → ∃ s, ts = [s] ∧ s.body = rule .selectionSet ∧
        s.isList = false) := by
  cases hb with
  | field hk =>
    obtain ⟨ks, hks, hd⟩ := hk.exists_steps
    refine ⟨ks, [optional (rule .selectionSet)], hks, ?_, fun _ => ⟨_, rfl, rfl, rfl⟩⟩
    rw [← List.drop_drop, hd]
    rfl
  | spread => exact ⟨_, _, rfl, rfl, nofun⟩
  | _ => exact ⟨_, _, rfl, rfl, fun _ => ⟨_, rfl, rfl, rfl⟩⟩

end Head.Builds

/-! ### What ends a head -/

/-- The classes of the tokens that could go on with a head. -/
def Head.bars : List Matcher :=
  [.exactly .punctuation ":", .kind .name, .exactly .name "on", .exactly .punctuation "("]

/-- A directive or the brace of the selections **ends a head**. -/
def EndsHead (rest : List SpacedToken) : Prop :=
  ∃ y v, rest = y :: v ∧ (y.token = .mark "@" ∨ y.token = .mark "\x7b")

/-- What ends a head does not go on with it. -/
theorem EndsHead.follows {rest : List SpacedToken} (h : EndsHead rest) :
    Follows Head.bars rest := by
  obtain ⟨y, v, rfl, hy | hy⟩ := h
  all_goals
    refine follows_cons (fun m hm => ?_) v
    rw [hy]
    revert m
    decide

/-- Directives end a head if what comes after them does. -/
theorem EndsHead.append {v rest : List SpacedToken} (h : EndsHead rest)
    (hv : Derives [list (rule .directive)] v) : EndsHead (v ++ rest) := by
  cases v with
  | nil => exact h
  | cons y v =>
    obtain ⟨m, hm, ha⟩ := hv.head_mem_openings (by decide)
    obtain rfl : m = .exactly .punctuation "@" := List.mem_singleton.1 hm
    simp only [Matcher.accepts, Bool.and_eq_true, beq_iff_eq] at ha
    refine ⟨y, v ++ rest, rfl, .inl ?_⟩
    obtain ⟨⟨k, text⟩, g⟩ := y
    obtain ⟨rfl, rfl⟩ : k = .punctuation ∧ text = "@" := ha
    rfl

/-- The text of a whole token is not empty. -/
theorem SpacedToken.IsLaid.text_ne {x : SpacedToken} (h : x.IsLaid) : x.token.text ≠ "" := by
  intro he
  exact h.whole.toList_ne_nil (by rw [he]; rfl)

/-! ### Heads of definitions -/

/-- The chain inside a definition at the start of a document. -/
def definitionChain : Chain := Chain.start.inside .definition 0 none none

/-- Nothing is due inside a definition at the start of a document. -/
theorem plain_definitionChain : Plain definitionChain.links := plain_inside plain_start

/-- A scan begins before the definitions. -/
theorem standsBefore_start : Chain.start.StandsBefore [list (rule .definition)] :=
  ⟨⟨_, 0, rfl, rfl, rfl⟩, plain_start⟩

/-- The keyword of a definition opens it. -/
theorem reads_keyword {k : RuleKind} {word : String} {s : Step} {ks : List Step} {x : SpacedToken}
    {rest : List SpacedToken} (hx : x.token = .word word) (hk : definitionOf? word = some k)
    (hks : standard k = some (.steps (terminal (keyword word) :: s :: ks))) :
    Reads .start [x] rest [] (definitionChain.inside k 1 none none) := by
  refine reads_choice_begin standsBefore_start rfl rfl ?_ hks rfl ?_
  · rw [hx]
    exact hk
  · rw [hx]
    simp [Terminal.accepts, keyword, Matcher.accepts, Token.word]

/-- An operation is read up to its directives. -/
theorem reads_operation {k : RuleKind} {word : String} {x : SpacedToken} {u rest : List SpacedToken}
    (hx : x.token = .word word) (hk : definitionOf? word = some k)
    (hks : standard k = some (.steps (operation word)))
    (hu : Derives [optional (terminal (name "def")), optional (rule .variableDefinitions)] u)
    (hw : LaidOut ((x :: u) ++ rest)) (hr : Follows Head.bars rest) :
    ∃ n t, Reads .start (x :: u) rest Head.bars (definitionChain.inside k 3 n t) := by
  have hsub :
      allExtensions [optional (terminal (name "def")), optional (rule .variableDefinitions)] ⊆
        Head.bars := by decide
  have hbegin : Reads .start [x] (u ++ rest) [] (definitionChain.inside k 1 none none) :=
    reads_keyword hx hk hks
  have hdrop : (operation word).drop 1 =
      [optional (terminal (name "def")), optional (rule .variableDefinitions)] ++
        list (rule .directive) :: [rule .selectionSet] := rfl
  obtain ⟨n, t, -, hrd⟩ := exists_reads_steps (c := definitionChain) (n := none) (t := none) hks
    hdrop plain_definitionChain hu (by decide) (by decide) hw.of_cons (hr.mono hsub)
  exact ⟨n, t, hbegin.append (hrd.mono hsub)⟩

/-- A fragment is read up to its directives, with its name, if it has one, and its type. -/
theorem reads_fragment {x o y : SpacedToken} {u rest : List SpacedToken}
    (hx : x.token = .word "fragment")
    (hu : Derives [optional (terminal ((name "def").butNot [keyword "on"]))] u)
    (ho : o.token = .word "on") (hy : y.token.kind = .name) :
    Reads .start (x :: (u ++ [o, y])) rest []
      (definitionChain.inside .fragmentDefinition 3 (u.head?.map (·.token.text))
        (some y.token.text)) := by
  have hbegin : Reads .start [x] (u ++ [o, y] ++ rest) []
      (definitionChain.inside .fragmentDefinition 1 none none) := reads_keyword hx rfl rfl
  obtain ⟨ks, hks, hdrop, hdrop'⟩ : ∃ ks, standard .fragmentDefinition = some (.steps ks) ∧
      ks.drop 1 = optional (terminal ((name "def").butNot [keyword "on"])) ::
        rule .typeCondition :: [list (rule .directive), rule .selectionSet] ∧
      ks.drop 2 = rule .typeCondition :: list (rule .directive) :: [rule .selectionSet] :=
    ⟨_, rfl, rfl, rfl⟩
  have hcond : ∀ n, Reads (definitionChain.inside .fragmentDefinition 2 n none) [o, y] rest []
      (definitionChain.inside .fragmentDefinition 3 n (some y.token.text)) := fun n =>
    reads_condition hks hdrop' rfl rfl plain_definitionChain ho hy
  obtain ⟨u, e, rfl, hm, he⟩ := hu.exists_append_optional
  obtain rfl := he.eq_nil
  rw [List.append_nil] at hbegin ⊢
  obtain rfl | hm := hm
  · -- The name is missing, which shows at the word `on`.
    have hskip : Reads (definitionChain.inside .fragmentDefinition 1 none none) []
        ([o, y] ++ rest) _ (definitionChain.inside .fragmentDefinition 2 none none) :=
      reads_optional_nil hks hdrop rfl (by decide) plain_definitionChain
    refine hbegin.append (hskip.append_cons (hcond none) fun m hm => ?_)
    rw [ho]
    revert m
    decide
  · obtain ⟨m, e, rfl, hacc, he⟩ := hm.exists_cons
    obtain rfl := he.eq_nil
    have hname : Reads (definitionChain.inside .fragmentDefinition 1 none none) [m]
        ([o, y] ++ rest) []
        (definitionChain.inside .fragmentDefinition 2 (some m.token.text) none) :=
      reads_body_inside hks hdrop rfl rfl rfl hacc
    exact hbegin.append (hname.append (hcond _))

/-- The **head of a definition** builds its construct at the start of a document. -/
theorem Head.Writes.reads_definition {h : Head} {u rest : List SpacedToken} (hu : h.Writes u)
    (hd : h.isDefinition = true) (hw : LaidOut (u ++ rest)) (hr : Follows Head.bars rest) :
    ∃ k i n t, h.Builds k i n t ∧
      Reads .start u rest Head.bars (definitionChain.inside k i n t) := by
  cases hu with
  | operation hkey hx hv =>
    cases h with
    | query =>
      obtain rfl := Option.some.inj hkey
      obtain ⟨n, t, hrd⟩ := reads_operation hx rfl rfl hv hw hr
      exact ⟨_, _, n, t, .query n t, hrd⟩
    | mutation =>
      obtain rfl := Option.some.inj hkey
      obtain ⟨n, t, hrd⟩ := reads_operation hx rfl rfl hv hw hr
      exact ⟨_, _, n, t, .mutation n t, hrd⟩
    | subscription =>
      obtain rfl := Option.some.inj hkey
      obtain ⟨n, t, hrd⟩ := reads_operation hx rfl rfl hv hw hr
      exact ⟨_, _, n, t, .subscription n t, hrd⟩
    | _ => cases hkey
  | @fragment x o y v hx hv ho hy =>
    have hlaid : y.IsLaid := hw.laid y (by simp)
    exact ⟨_, _, _, _, .fragment _ hlaid.text_ne,
      (reads_fragment hx hv ho hy).mono (List.nil_subset _)⟩
  | _ => cases hd

/-! ### Heads of selections -/

namespace Chain

/-- The chain inside a selection. -/
def inSelection (c : Chain) : Chain := c.inside .selection 0 none none

/-- A chain **awaits selections** if its next step is the list of them. -/
def AwaitsSelections (c : Chain) : Prop := ∃ ts, c.StandsBefore (list (rule .selection) :: ts)

variable {c : Chain} {x y : SpacedToken} {v rest : List SpacedToken}

/-- Nothing is due inside a selection if nothing was before it. -/
theorem plain_inSelection (hc : Plain c.links) : Plain c.inSelection.links := plain_inside hc

/-- Nothing is due in a chain that awaits selections. -/
theorem AwaitsSelections.plain (hc : c.AwaitsSelections) : Plain c.links := by
  obtain ⟨ts, hc⟩ := hc
  exact hc.plain

/-- The first token of a selection opens it. -/
theorem AwaitsSelections.reads_begin {k : RuleKind} {e : Terminal} {s : Step} {ks : List Step}
    (hc : c.AwaitsSelections) (hf : selectionOf x.token (x.ahead rest) = k)
    (hk : standard k = some (.steps (terminal e :: s :: ks))) (ht : (e.trace == .type) = false)
    (he : e.accepts x.token = true) :
    Reads c [x] rest [] (c.inSelection.inside k 1 (label e x none) none) := by
  obtain ⟨ts, hc⟩ := hc
  exact reads_choice_begin hc rfl rfl (congrArg some hf) hk ht he

end Chain

section Selections

variable {c : Chain} {n : String} {u v rest : List SpacedToken}

/-- A **named field** is opened, with its name. -/
theorem NamesField.reads (hn : NamesField n u) (hc : c.AwaitsSelections) (hw : LaidOut (u ++ rest))
    (hr : Follows [.exactly .punctuation ":"] rest) :
    n ≠ "" ∧ ∃ k i, NamedAt k i ∧ Reads c u rest [] (c.inSelection.inside k i (some n) none) := by
  cases hn with
  | @plain x hx =>
    refine ⟨hw.head.text_ne, .field, 1, .field, ?_⟩
    -- Without a colon after it the name is no alias.
    have hcolon : ∀ y ∈ rest.head?, y.token ≠ ⟨.punctuation, ":"⟩ := by
      intro y hy he
      have := hr y hy _ (List.mem_singleton_self _)
      rw [he] at this
      exact absurd this (by decide)
    exact hc.reads_begin (selectionOf_field hw hx hcolon) rfl rfl (beq_iff_eq.2 hx)
  | @aliased a o x ha hl ho hx =>
    have hlaid : x.IsLaid := hw.laid x (by simp)
    refine ⟨hlaid.text_ne, .aliasedField, 3, .aliasedField, ?_⟩
    have hcolon : o.token.text = ":" := by
      rw [ho]
      rfl
    have halias : Reads c [a] ([o, x] ++ rest) []
        (c.inSelection.inside .aliasedField 1 (some a.token.text) none) :=
      hc.reads_begin (selectionOf_aliasedField hw ha hl hcolon) rfl rfl (beq_iff_eq.2 ha)
    have hmark : Reads (c.inSelection.inside .aliasedField 1 (some a.token.text) none) [o]
        ([x] ++ rest) [] (c.inSelection.inside .aliasedField 2 (some a.token.text) none) := by
      refine reads_terminal_inside (e := punctuation ":") rfl rfl rfl ?_
      rw [ho]
      rfl
    have hname : Reads (c.inSelection.inside .aliasedField 2 (some a.token.text) none) [x]
        rest [] (c.inSelection.inside .aliasedField 3 (some x.token.text) none) :=
      reads_terminal_inside (e := name "qualifier") rfl rfl rfl (beq_iff_eq.2 hx)
    exact halias.append (hmark.append hname)

/-- The arguments of a field that has some are read after its name. -/
theorem NamedAt.reads_arguments {k : RuleKind} {i : Nat} {l : Option String} (hk : NamedAt k i)
    (hc : Plain c.links) (hv : Derives [optional (rule .arguments)] v) (hw : LaidOut (v ++ rest))
    (hr : Follows Head.bars rest) :
    Reads (c.inside k i l none) v rest Head.bars (c.inside k (i + 1) l none) := by
  have hsub : allExtensions [optional (rule .arguments)] ⊆ Head.bars := by decide
  obtain ⟨ks, hks, hdrop⟩ := hk.exists_steps
  have hdrop' : ks.drop i = [optional (rule .arguments)] ++
      list (rule .directive) :: [optional (rule .selectionSet)] := hdrop
  exact (reads_steps hks hdrop' hc hv (by decide) (by decide) hw (hr.mono hsub)).mono hsub

/-- Arguments do not begin with a colon. -/
theorem follows_arguments (hv : Derives [optional (rule .arguments)] v)
    (hr : Follows Head.bars rest) :
    Follows [.exactly .punctuation ":"] (v ++ rest) := by
  cases v with
  | nil => exact hr.mono (by decide)
  | cons y v =>
    obtain ⟨m, hm, ha⟩ := hv.head_mem_openings (by decide)
    have hapart : Matcher.areApart (seqOpenings [optional (rule .arguments)])
        [.exactly .punctuation ":"] = true := by decide
    exact follows_cons (Token.isOutside_of_areApart hapart hm ha) _

/-- Three dots that stay on their line open an inline fragment if a condition, a directive or a
brace comes next. -/
theorem reads_inline {x y : SpacedToken} (hc : c.AwaitsSelections) (hx : x.token = .mark "...")
    (hl : x.StaysOnLine) (hw : LaidOut (x :: y :: v))
    (hy : y.token = .word "on" ∨ y.token = .mark "@" ∨ y.token = .mark "\x7b") :
    Reads c [x] (y :: v) [] (c.inSelection.inside .inlineFragment 1 none none) := by
  have hx' : x.token.text = "..." := by
    rw [hx]
    rfl
  have hy' : y.token.text = "on" ∨ y.token.text = "@" ∨ y.token.text = "\x7b" :=
    hy.imp (congrArg Token.text) (Or.imp (congrArg Token.text) (congrArg Token.text))
  refine hc.reads_begin (selectionOf_inlineFragment hw hx' hl hy') rfl rfl ?_
  rw [hx]
  rfl

/-- Three dots and a name that stay on a line spread a fragment. -/
theorem reads_spread {x y : SpacedToken} (hc : c.AwaitsSelections) (hx : x.token = .mark "...")
    (hl : x.StaysOnLine) (hy : y.token.kind = .name) (hon : y.token.text ≠ "on")
    (hw : LaidOut (x :: y :: rest)) :
    Reads c [x, y] rest [] (c.inSelection.inside .fragmentSpread 2 (some y.token.text) none) := by
  have hx' : x.token.text = "..." := by
    rw [hx]
    rfl
  have hbegin :
      Reads c [x] ([y] ++ rest) [] (c.inSelection.inside .fragmentSpread 1 none none) := by
    refine hc.reads_begin (selectionOf_fragmentSpread hw hx' hl hy hon) rfl rfl ?_
    rw [hx]
    rfl
  have hname : Reads (c.inSelection.inside .fragmentSpread 1 none none) [y] rest []
      (c.inSelection.inside .fragmentSpread 2 (some y.token.text) none) :=
    reads_terminal_inside (e := name "def") rfl rfl rfl (beq_iff_eq.2 hy)
  exact hbegin.append hname

/-- The **head of a selection** builds its construct where selections are awaited. -/
theorem Head.Writes.reads_selection {h : Head} (hu : h.Writes u) (hd : h.isDefinition = false)
    (hc : c.AwaitsSelections) (hw : LaidOut (u ++ rest)) (hr : EndsHead rest) :
    ∃ k i n t, h.Builds k i n t ∧ Reads c u rest Head.bars (c.inSelection.inside k i n t) := by
  have hplain : Plain c.inSelection.links := plain_inSelection hc.plain
  obtain ⟨ks, hks, hdrop⟩ : ∃ ks, standard .inlineFragment = some (.steps ks) ∧
      ks.drop 1 = optional (rule .typeCondition) :: list (rule .directive) ::
        [rule .selectionSet] :=
    ⟨_, rfl, rfl⟩
  cases hu with
  | operation hkey =>
    cases h with
    | query | mutation | subscription => cases hd
    | _ => cases hkey
  | fragment => cases hd
  | @field n u v hn hv =>
    rw [List.append_assoc] at hw
    have hcolon := follows_arguments hv hr.follows
    obtain ⟨hne, k, i, hk, hrd⟩ := hn.reads hc hw hcolon
    have hargs : Reads (c.inSelection.inside k i (some n) none) v rest Head.bars _ :=
      hk.reads_arguments hplain hv hw.of_append hr.follows
    exact ⟨k, i + 1, some n, none, .field hk hne none, hrd.append hargs⟩
  | @inline d hx hl =>
    obtain ⟨y, v, rfl, hy⟩ := id hr
    have hbegin : Reads c [d] (y :: v) [] _ := reads_inline hc hx hl hw (.inr hy)
    -- The type condition is missing, which shows at the token after the dots.
    have hskip : Reads (c.inSelection.inside .inlineFragment 1 none none) [] (y :: v)
        (Step.rule .typeCondition).openings (c.inSelection.inside .inlineFragment 2 none none) :=
      reads_optional_nil hks hdrop rfl (by decide) hplain
    have hsub : (Step.rule .typeCondition).openings ⊆ Head.bars := by decide
    exact ⟨_, _, none, _, .inline none, hbegin.append (hskip.mono hsub)⟩
  | @inlineOn d o y hx hl ho hy =>
    have hlaid : y.IsLaid := hw.laid y (by simp)
    have hbegin : Reads c [d] ([o, y] ++ rest) [] _ := reads_inline hc hx hl hw (.inl ho)
    have hcond : Reads (c.inSelection.inside .inlineFragment 1 none none) [o, y] rest []
        (c.inSelection.inside .inlineFragment 2 none (some y.token.text)) :=
      reads_condition hks hdrop rfl rfl hplain ho hy
    exact ⟨_, _, none, _, .inlineOn none hlaid.text_ne,
      (hbegin.append hcond).mono (List.nil_subset _)⟩
  | @spread d y hx hl hy hon =>
    exact ⟨_, _, some y.token.text, none, .spread _ _,
      (reads_spread hc hx hl hy hon hw).mono (List.nil_subset _)⟩

end Selections

end QueryAssist
