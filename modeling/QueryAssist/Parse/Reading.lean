import QueryAssist.Parse.Chain
import QueryAssist.Syntax.Stream

/-! # Reading one token

The parse goes on by one token at a time. Main definitions:

* **`Chain.match?`** — hold a token against the grammar: enter what is wanted, give up what may be
  missing, until some terminal accepts the token or nothing is left.
* **`Chain.read`** — read the next token of a line, whatever it is.

A token that fits nowhere is put under `invalid`, and the chain below it is as it was before. Main
statement: `Chain.length_rest_read_lt`, each reading consumes something. -/

namespace QueryAssist

/-- What comes of holding a token against the grammar. -/
inductive Match where
  /-- A terminal of the given style accepts the token. -/
  | accepted (style : String) (c : Chain)
  /-- No open construct has a place for the token. -/
  | misfit
  /-- A construct without a rule is wanted. -/
  | unknownRule (k : RuleKind) (c : Chain)
  /-- The budget of moves is used up. -/
  | exhausted
  deriving DecidableEq, Repr, Inhabited

/-- The **reading** of one token: its style, or the construct whose rule was missing, with the
stream and the chain after it. -/
structure Reading where
  /-- The style of the token. -/
  style : Except RuleKind String
  /-- The stream after the token. -/
  stream : Stream
  /-- The chain after the token. -/
  chain : Chain
  deriving Inhabited

namespace Chain

/-- Hold a token against the grammar, in at most the given number of moves. -/
def match? (g : Grammar) (t : Token) (ahead : List Char) : Nat → Chain → Match
  | 0, _ => .exhausted
  | n + 1, c =>
    if c.top.rule.isNone then .misfit
    else
      match c.top.wanted? t ahead with
      | some (.rule k) =>
        match g k with
        | some r => match? g t ahead n (c.enter k r)
        | none => .unknownRule k c
      | some (.terminal e) =>
        if e.accepts t then .accepted e.style (c.accept e t) else match? g t ahead n c.giveUp
      | _ => match? g t ahead n c.giveUp

/-- The moves that a chain is granted: a fixed number for each of its links. -/
def budget (c : Chain) : Nat := 1024 * c.links.length

/-- Put the token just read outside the grammar. -/
def enterInvalid (c : Chain) : Chain := c.enter .invalid (.steps [])

/-- Put the token just read under a comment. -/
def enterComment (c : Chain) : Chain := c.enter .comment (.steps [])

/-- Pass over text that is no token: a run without blanks, or else one blank. -/
def skipUnknown (s : Stream) : Stream :=
  match s.read? Lexer.nonBlankRun with
  | some (_, s') => s'
  | none =>
    match s.read? Lexer.oneBlank with
    | some (_, s') => s'
    | none => s

/-- **Read** the next token of a line: ignored characters, a comment, a token of the grammar, or
text that is none of these. -/
def read (g : Grammar) (s : Stream) (c : Chain) : Reading :=
  let c := c.settle
  match s.skipWhile isIgnored with
  | some s' => ⟨.ok "ws", s', c⟩
  | none =>
    match s.next? with
    | none => ⟨.ok "invalidchar", skipUnknown s, c.enterInvalid⟩
    | some (t, s') =>
      if t.kind = .comment then ⟨.ok "comment", s', c.enterComment⟩
      else
        match match? g t s'.rest c.budget c with
        | .accepted style c' => ⟨.ok style, s', c'⟩
        | .unknownRule k c' => ⟨.error k, s', c'⟩
        | .misfit | .exhausted => ⟨.ok "invalidchar", s', c.enterInvalid⟩

/-- The chain at the start of a document, if the grammar has a rule for documents. -/
def start? (g : Grammar) : Option Chain := (g .document).map (root.enter .document)

/-- The chain at the **start** of a document of the standard grammar. -/
def start : Chain := root.enter .document (.steps [.list (.rule .definition)])

/-- Passing over unknown text leaves less ahead. -/
theorem length_rest_skipUnknown_lt {s : Stream} (hs : s.rest ≠ []) :
    (skipUnknown s).rest.length < s.rest.length := by
  unfold skipUnknown Stream.read?
  cases hr : Lexer.nonBlankRun s.rest with
  | some t =>
    refine Stream.length_rest_take_lt (List.length_pos_iff.2 ?_) hs
    unfold Lexer.nonBlankRun at hr
    grind
  | none =>
    obtain ⟨t, ht⟩ := Option.isSome_iff_exists.1 (Lexer.oneBlank_of_nonBlankRun hs hr)
    simp only [ht]
    refine Stream.length_rest_take_lt (List.length_pos_iff.2 ?_) hs
    unfold Lexer.oneBlank at ht
    grind

/-- **Reading goes on**: of a line that is not at its end, each reading leaves less ahead. -/
theorem length_rest_read_lt (g : Grammar) {s : Stream} (c : Chain) (hs : s.rest ≠ []) :
    (read g s c).stream.rest.length < s.rest.length := by
  unfold read
  split
  · next h => exact Stream.length_rest_skipWhile_lt h
  · split
    · exact length_rest_skipUnknown_lt hs
    · next h =>
      have := Stream.length_rest_next?_lt h hs
      split
      · exact this
      · dsimp only
        split <;> exact this

end Chain

end QueryAssist
