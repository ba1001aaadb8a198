import QueryAssist.Proofs.Cursor.Prefix

/-! # Separated lists

A list of items with separators between them is read by turns: an item, a separator, an item. A
document that is nothing but such a list takes and refuses tokens like an automaton with two states.
Main definitions:

* **`SeparatedList`** — the items and the separators of a list.
* **`SeparatedList.Turn`**, **`SeparatedList.next?`** — the states of the automaton, and its moves.
* **`SeparatedList.verdicts`** — which of some tokens the automaton takes.
* **`Chain.verdicts`** — which tokens of some streams do not end up outside the grammar.

Main statement: `verdicts_separatedList`, the two give the same verdicts, whatever is read. -/

namespace QueryAssist

/-! ### The automaton -/

/-- A list of **items** with separators between them. -/
structure SeparatedList where
  /-- The tokens that are items. -/
  item : Terminal
  /-- The tokens that are separators. -/
  separator : Terminal
  /-- Whether separators may be left out. -/
  isOptional : Bool
  deriving DecidableEq, Repr, Inhabited

namespace SeparatedList

/-- What a list expects next: it is the **turn** of an item or of a separator. -/
inductive Turn where
  /-- An item. -/
  | item
  /-- A separator. -/
  | separator
  deriving DecidableEq, Repr, Inhabited

/-- The turn after this one. -/
def Turn.other : Turn → Turn
  | item => separator
  | separator => item

variable (l : SeparatedList)

/-- The turn after a token that the list takes. At the turn of a separator it takes an item only if
separators may be left out. -/
def next? : Turn → Token → Option Turn
  | .item, t => if l.item.accepts t then some .separator else none
  | .separator, t =>
    if l.separator.accepts t then some .item
    else if l.isOptional && l.item.accepts t then some .separator else none

/-- **Which of some tokens the list takes.** One that it does not take leaves it the same turn. -/
def verdicts : Turn → List Token → List Bool
  | _, [] => []
  | turn, t :: ts => (l.next? turn t).isSome :: verdicts ((l.next? turn t).getD turn) ts

/-! ### The grammar -/

/-- The step between two items. -/
def separatorStep : Step :=
  if l.isOptional then .optional (.terminal l.separator) else .terminal l.separator

/-- The rule of a document that is such a list. -/
def rule : Rule := .steps [.separated (.terminal l.item) l.separatorStep]

/-- Between two items stands the separator. -/
@[simp] theorem body_separatorStep : l.separatorStep.body = .terminal l.separator := by
  unfold separatorStep
  split <;> rfl

/-- It may be missing if separators are optional. -/
@[simp] theorem isFlexible_separatorStep : l.separatorStep.isFlexible = l.isOptional := by
  unfold separatorStep
  split <;> simp_all [Step.isFlexible]

/-- The link of the document at a turn of the list, with the name that some token left behind. -/
def link (turn : Turn) (name : Option String) : Link :=
  { kind := some .document, name, rule := some l.rule, needsSeparator := turn == .separator }

/-- The chain of the document at a turn of the list. -/
def chain (turn : Turn) (name : Option String) : Chain := ⟨l.link turn name, Chain.root.links⟩

variable {l} {turn : Turn} {name : Option String} {g : Grammar}

/-- A document that is such a list begins at the turn of an item. -/
theorem start?_eq (h : g .document = some l.rule) :
    Chain.start? g = some (l.chain .item none) := by
  rw [Chain.start?, h]
  rfl

/-- At either turn nothing is left to settle. -/
@[simp] theorem settle_chain : (l.chain turn name).settle = l.chain turn name := rfl

/-- An advance changes turns. -/
theorem advance_chain : (l.chain turn name).advance true = l.chain turn.other name := by
  cases turn <;> rfl

/-- What is wanted is the terminal of the turn. -/
theorem wanted?_link (t : Token) (ahead : List Char) :
    (l.link turn name).wanted? t ahead = some (.terminal (match turn with
      | .item => l.item
      | .separator => l.separator)) := by
  cases turn with
  | item => rfl
  | separator => exact congrArg some l.body_separatorStep

/-- The name of a token may be left behind, and nothing else: no construct is two levels further
out. -/
theorem exists_record_chain (trace : Trace) (text : String) :
    ∃ name', (l.chain turn name).record trace text = l.chain turn name' := by
  cases trace with
  | none => exact ⟨name, rfl⟩
  | name => exact ⟨some text, rfl⟩
  | type => exact ⟨name, rfl⟩

/-- A chain **stands at a turn** of the list if it settles to the document at that turn. -/
def StandsAt (l : SeparatedList) (turn : Turn) (c : Chain) : Prop :=
  ∃ name, c.settle = l.chain turn name

/-- The chain of a turn stands at it. -/
theorem standsAt_chain : l.StandsAt turn (l.chain turn name) := ⟨name, settle_chain⟩

/-- What is outside the grammar leaves the turn. -/
theorem standsAt_enter (k : RuleKind) : l.StandsAt turn ((l.chain turn name).enter k (.steps [])) :=
  ⟨name, rfl⟩

/-- After a token that a terminal accepts it is the other turn, at once or as soon as what is due is
made up for. -/
theorem accept_chain (e : Terminal) (t : Token) :
    ((l.chain turn name).accept e t).top.kind = some .document ∧
      l.StandsAt turn.other ((l.chain turn name).accept e t) := by
  obtain ⟨name', h⟩ : ∃ name', (l.chain turn name).record e.trace t.text = l.chain turn name' :=
    exists_record_chain e.trace t.text
  unfold Chain.accept
  dsimp only
  rw [h]
  split
  · rw [advance_chain]
    exact ⟨rfl, standsAt_chain⟩
  · exact ⟨rfl, name', advance_chain⟩

/-! ### Holding a token against the list -/

/-- Without an item the list is given up, and nothing is left. -/
theorem giveUp_item : (l.chain .item name).giveUp = Chain.root := rfl

/-- Without a separator it is the turn of an item if separators may be left out, and else the list
is given up. -/
theorem giveUp_separator : (l.chain .separator name).giveUp =
    if l.isOptional then l.chain .item name else Chain.root := by
  have hadvance : (l.chain .separator name).giveUp =
      if l.separatorStep.isFlexible then l.chain .item name else Chain.root := rfl
  rw [hadvance, isFlexible_separatorStep]

/-- Outside the document every token is a misfit. -/
theorem match?_root (t : Token) (ahead : List Char) (n : Nat) :
    Chain.match? g t ahead (n + 1) Chain.root = .misfit := rfl

/-- One move: the token is accepted, or what is wanted is given up. -/
theorem match?_chain (t : Token) (ahead : List Char) (n : Nat) {e : Terminal}
    (h : (l.link turn name).wanted? t ahead = some (.terminal e)) :
    Chain.match? g t ahead (n + 1) (l.chain turn name) =
      if e.accepts t then .accepted e.style ((l.chain turn name).accept e t)
      else Chain.match? g t ahead n (l.chain turn name).giveUp := by
  have hrule : (l.chain turn name).top.rule.isNone = false := rfl
  have hwanted : (l.chain turn name).top.wanted? t ahead = some (.terminal e) := h
  rw [Chain.match?, if_neg (by simp [hrule]), hwanted]

/-- At the turn of an item the list **takes an item**. -/
theorem match?_item (t : Token) (ahead : List Char) (n : Nat) :
    Chain.match? g t ahead (n + 2) (l.chain .item name) =
      if l.item.accepts t then .accepted l.item.style ((l.chain .item name).accept l.item t)
      else .misfit := by
  rw [match?_chain t ahead _ (wanted?_link t ahead), giveUp_item, match?_root]

/-- At the turn of a separator it **takes a separator**, or perhaps an item. -/
theorem match?_separator (t : Token) (ahead : List Char) (n : Nat) :
    Chain.match? g t ahead (n + 3) (l.chain .separator name) =
      if l.separator.accepts t then
        .accepted l.separator.style ((l.chain .separator name).accept l.separator t)
      else if l.isOptional && l.item.accepts t then
        .accepted l.item.style ((l.chain .item name).accept l.item t)
      else .misfit := by
  rw [match?_chain t ahead _ (wanted?_link t ahead), giveUp_separator]
  cases l.isOptional with
  | true => simp only [if_true, Bool.true_and, match?_item]
  | false => simp only [Bool.false_eq_true, if_false, Bool.false_and, match?_root]

variable {turn' : Turn} {t : Token}

/-- A token that the automaton takes is **accepted**. -/
theorem match?_of_next? (h : l.next? turn t = some turn') (ahead : List Char) (n : Nat) :
    ∃ style d, Chain.match? g t ahead (n + 3) (l.chain turn name) = .accepted style d ∧
      d.top.kind = some .document ∧ l.StandsAt turn' d := by
  cases turn with
  | item =>
    rw [next?] at h
    split at h
    · next hi =>
      obtain rfl := Option.some.inj h
      rw [match?_item, if_pos hi]
      exact ⟨_, _, rfl, accept_chain l.item t⟩
    · cases h
  | separator =>
    rw [next?] at h
    -- Where a separator may stand, an item may come instead if the separator is optional.
    rw [match?_separator]
    split at h
    · next hs =>
      obtain rfl := Option.some.inj h
      rw [if_pos hs]
      exact ⟨_, _, rfl, accept_chain l.separator t⟩
    · next hs =>
      split at h
      · next hi =>
        obtain rfl := Option.some.inj h
        rw [if_neg hs, if_pos hi]
        exact ⟨_, _, rfl, accept_chain l.item t⟩
      · cases h

/-- Any other token **fits nowhere**. -/
theorem match?_of_next?_eq_none (h : l.next? turn t = none) (ahead : List Char) (n : Nat) :
    Chain.match? g t ahead (n + 3) (l.chain turn name) = .misfit := by
  cases turn with
  | item =>
    rw [next?] at h
    split at h
    · cases h
    · next hi => rw [match?_item, if_neg hi]
  | separator =>
    rw [next?] at h
    rw [match?_separator]
    split at h
    · cases h
    · next hs =>
      split at h
      · cases h
      · next hi => rw [if_neg hs, if_neg hi]

end SeparatedList

/-! ### Reading -/

/-- The token that is next on a stream, if it is one and not a comment. -/
def Stream.token? (s : Stream) : Option Token :=
  match (Lexer.piece s.rest).1 with
  | .token t => if t.kind = .comment then none else some t
  | _ => none

namespace Chain

/-- **Which tokens are accepted** where streams are read one after another, each to the end of its
next piece: those that do not end up outside the grammar. -/
def verdicts (g : Grammar) : Chain → List Stream → List Bool
  | _, [] => []
  | c, s :: ss =>
    let d := (Chain.read g s c).chain
    match s.token? with
    | some _ => (d.top.kind != some .invalid) :: verdicts g d ss
    | none => verdicts g d ss

/-- The chain after a reading is what the chain before it makes of the next piece, also at the end
of a line. -/
theorem chain_read (g : Grammar) (s : Stream) (c : Chain) :
    (Chain.read g s c).chain =
      (react g c (Lexer.piece s.rest).1 (s.rest.drop (Lexer.piece s.rest).2)).2 := by
  by_cases hs : s.rest = []
  · obtain ⟨start, token, rest⟩ := s
    obtain rfl : rest = [] := hs
    rfl
  · rw [read_eq g c hs]

end Chain

namespace SeparatedList

variable {l : SeparatedList} {g : Grammar} {turn : Turn} {c : Chain}

/-- **One token** is accepted if the automaton takes it, and leaves the turn that the automaton
goes to. -/
theorem react_token {t : Token} (ht : t.kind ≠ .comment) (ahead : List Char)
    (h : l.StandsAt turn c) :
    ((Chain.react g c (.token t) ahead).2.top.kind != some .invalid) = (l.next? turn t).isSome ∧
      l.StandsAt ((l.next? turn t).getD turn) (Chain.react g c (.token t) ahead).2 := by
  obtain ⟨name, hc⟩ := h
  -- There are moves enough: three would do.
  have hbudget : (l.chain turn name).budget = 2045 + 3 := rfl
  unfold Chain.react
  dsimp only
  rw [if_neg ht, hc, hbudget]
  cases hnext : l.next? turn t with
  | some turn' =>
    obtain ⟨style, d, hd, hkind, hstands⟩ : ∃ style d,
        Chain.match? g t ahead (2045 + 3) (l.chain turn name) = .accepted style d ∧
          d.top.kind = some .document ∧ l.StandsAt turn' d := match?_of_next? hnext ahead 2045
    rw [hd]
    exact ⟨by simp [hkind], hstands⟩
  | none =>
    rw [match?_of_next?_eq_none hnext]
    exact ⟨rfl, standsAt_enter .invalid⟩

/-- **What is no token**, or a comment, leaves the turn. -/
theorem standsAt_read {s : Stream} (hs : s.token? = none) (h : l.StandsAt turn c) :
    l.StandsAt turn (Chain.read g s c).chain := by
  obtain ⟨name, hc⟩ := h
  rw [Chain.chain_read]
  unfold Stream.token? at hs
  unfold Chain.react
  rw [hc]
  cases hp : (Lexer.piece s.rest).1 with
  | gap => exact standsAt_chain
  | unknown => exact standsAt_enter .invalid
  | token t =>
    rw [hp] at hs
    have ht : t.kind = .comment := by
      by_contra ht
      simp [ht] at hs
    dsimp only
    rw [if_pos ht]
    exact standsAt_enter .comment

/-- **One reading** of a token. -/
theorem verdict_read {s : Stream} {t : Token} (hs : s.token? = some t) (h : l.StandsAt turn c) :
    ((Chain.read g s c).chain.top.kind != some .invalid) = (l.next? turn t).isSome ∧
      l.StandsAt ((l.next? turn t).getD turn) (Chain.read g s c).chain := by
  rw [Chain.chain_read]
  unfold Stream.token? at hs
  cases hp : (Lexer.piece s.rest).1 with
  | gap =>
    rw [hp] at hs
    cases hs
  | unknown =>
    rw [hp] at hs
    cases hs
  | token u =>
    rw [hp] at hs
    dsimp only at hs
    split at hs
    · cases hs
    · next hu =>
      obtain rfl := Option.some.inj hs
      exact react_token hu _ h

/-- **Any number of readings**, from a chain that stands at a turn. -/
theorem verdicts_of_standsAt (ss : List Stream) (h : l.StandsAt turn c) :
    Chain.verdicts g c ss = l.verdicts turn (ss.filterMap Stream.token?) := by
  induction ss generalizing turn c with
  | nil => rfl
  | cons s ss ih =>
    rw [Chain.verdicts]
    cases hs : s.token? with
    | none =>
      rw [List.filterMap_cons_none hs]
      exact ih (standsAt_read hs h)
    | some t =>
      obtain ⟨hverdict, hstands⟩ := verdict_read (g := g) hs h
      rw [List.filterMap_cons_some hs, verdicts, ← hverdict]
      exact congrArg _ (ih hstands)

end SeparatedList

/-- **A separated list takes its tokens by turns.** Whatever the grammar says of other constructs,
if a document is a list of items with separators between them, then the tokens that are accepted
from the start of a document are those that the automaton takes: an item where it expects an item,
after which it expects a separator, and a separator where it expects one, after which it expects an
item; if separators may be left out, also an item where it expects a separator. Any other token is
refused and leaves what is expected. Each stream is whatever is left of some line; gaps, comments
and text that is no token change nothing. Should a token be both, it counts as a separator where one
is expected. -/
theorem verdicts_separatedList {g : Grammar} {l : SeparatedList} (h : g .document = some l.rule)
    (ss : List Stream) :
    ∃ c, Chain.start? g = some c ∧
      c.verdicts g ss = l.verdicts .item (ss.filterMap Stream.token?) :=
  ⟨_, SeparatedList.start?_eq h,
    SeparatedList.verdicts_of_standsAt ss SeparatedList.standsAt_chain⟩

/-- Names with bars between them that may be left out: of `a | b c || d` over some lines, with a gap
and a comment, the second of the two bars is refused, and the name after it is still an item. -/
theorem verdicts_separatedList_optional :
    let l : SeparatedList := ⟨.name "atom", .punctuation "|", true⟩
    let g : Grammar := fun k => if k = .document then some l.rule else none
    let ss := ["a", "| b", " b", "b # e", "# e", "c", "|| d", "| d", "d"].map fun line =>
      Stream.ofLine line.toList
    g .document = some l.rule ∧ ∃ c, Chain.start? g = some c ∧
      c.verdicts g ss = [true, true, true, true, true, false, true] := by
  intro l g ss
  have hg : g .document = some l.rule := rfl
  obtain ⟨c, hc, hverdicts⟩ := verdicts_separatedList hg ss
  refine ⟨hg, c, hc, hverdicts.trans ?_⟩
  decide +kernel

end QueryAssist
