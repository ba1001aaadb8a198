import QueryAssist.Syntax.Grammar

/-! # Chains of open constructs

While a document is read, the constructs that are begun and not yet complete form a chain, from the
innermost out to the document and the root around it. Main definitions:

* **`Link`** — one open construct and the place reached in its rule.
* **`Chain`** — the innermost link and the links around it.
* **`Chain.enter`**, **`Chain.leave`** — begin a construct, and go back to the one around it.
* **`Chain.advance`** — go on to the next step, out of every construct that this completes.
* **`Chain.giveUp`** — pass over the nearest step that may be left out.

Going into a construct and leaving it again change nothing else: see `leave_enter`. -/

namespace QueryAssist

/-- A **link** is an open construct with the place reached in its rule. -/
structure Link where
  /-- The construct; the root around the document has none. -/
  kind : Option RuleKind := none
  /-- The step that is next or being read. -/
  step : Nat := 0
  /-- The name that the construct has been given. -/
  name : Option String := none
  /-- The type that the construct has been given. -/
  type : Option String := none
  /-- The rule that is followed; the root has none. -/
  rule : Option Rule := none
  /-- Whether the list being read goes on with its separator. -/
  needsSeparator : Bool := false
  /-- Whether the step was taken and the move to the next one is still due. -/
  needsAdvance : Bool := false
  /-- The cell in which the link is kept, if links are shared. -/
  cell : Option Nat := none
  deriving DecidableEq, Repr, Inhabited

namespace Link

/-- The step that is next, unless the rule is a fork or complete. -/
def currentStep? (l : Link) : Option Step := l.rule.bind fun r => r.step? l.step

/-- Whether the next step may be passed over. -/
def isFlexible (l : Link) : Bool := l.currentStep?.any Step.isFlexible

/-- Whether the rule has no step left. -/
def isComplete (l : Link) : Bool := l.rule.any fun r => r.length ≤ l.step

/-- The link without its construct. -/
def vacate (l : Link) : Link := { l with kind := none, rule := none }

/-- The link after a construct inside its current step is complete: a list stays at its step and
turns to its separator or back, and any other step is done. -/
def resume (l : Link) : Link :=
  if l.rule.isNone then l
  else
    match l.currentStep? with
    | some (.list _) => l
    | some (.separated _ _) => { l with needsSeparator := !l.needsSeparator }
    | _ => { l with needsSeparator := false, step := l.step + 1 }

/-- The step that a token with the text after it is held against. -/
def expected? (l : Link) (t : Token) (ahead : List Char) : Option Step :=
  match l.rule with
  | some (.fork f) => if l.step == 0 then (f.choose t ahead).map .rule else none
  | some (.steps ss) => ss[l.step]?
  | none => none

/-- The construct or terminal that is wanted: the separator where one is due, and else the step
itself, in both cases without the mark that it is optional or repeated. -/
def wanted? (l : Link) (t : Token) (ahead : List Char) : Option Step :=
  let expected := l.expected? t ahead
  (if l.needsSeparator then expected.bind Step.separator? else expected).map Step.body

end Link

/-- A **chain** is the innermost link with the links around it, innermost first. -/
structure Chain where
  /-- The innermost link. -/
  top : Link
  /-- The links around it. -/
  outer : List Link
  deriving DecidableEq, Repr, Inhabited

namespace Chain

/-- All links, innermost first. -/
def links (c : Chain) : List Link := c.top :: c.outer

/-- The chain that holds only the root. -/
def root : Chain := ⟨{}, []⟩

/-- **Enter** a construct: the innermost link is kept around a new one at the first step. -/
def enter (c : Chain) (k : RuleKind) (r : Rule) : Chain :=
  ⟨{ kind := some k, rule := some r, needsAdvance := c.top.needsAdvance }, c.top :: c.outer⟩

/-- **Leave** the innermost construct for the one around it. A due advance stays due. With nothing
around it the link is vacated. -/
def leave (c : Chain) : Chain :=
  match c.outer with
  | [] => ⟨c.top.vacate, []⟩
  | p :: ps => ⟨{ p with needsAdvance := c.top.needsAdvance, cell := none }, ps⟩

/-- The chain around the innermost link, if there is one. -/
def parent? (c : Chain) : Option Chain :=
  match c.outer with
  | [] => none
  | p :: ps => some ⟨p, ps⟩

/-- Leave every construct that is complete, and take up each one around it again. -/
def unwind : Link → List Link → Chain
  | t, [] => ⟨if t.isComplete then t.vacate else t, []⟩
  | t, p :: ps =>
    if t.isComplete then unwind { p with needsAdvance := t.needsAdvance, cell := none }.resume ps
    else ⟨t, p :: ps⟩

/-- Take the current step of the innermost construct as done. -/
def stepOn (c : Chain) : Chain :=
  unwind { c.top with needsSeparator := false, step := c.top.step + 1 } c.outer

/-- **Advance** after the current step was read or was found missing. A list may begin another turn
if the step was read; one with separators changes over between its item and its separator, and an
optional separator that is missing lets another item follow. -/
def advance (c : Chain) (successful : Bool) : Chain :=
  match c.top.currentStep? with
  | some (.list _) => if successful then c else c.stepOn
  | some (.separated _ sep) =>
    let turned : Chain := ⟨{ c.top with needsSeparator := !c.top.needsSeparator }, c.outer⟩
    if successful || (c.top.needsSeparator && sep.isFlexible) then turned else turned.stepOn
  | _ => c.stepOn

/-- Leave constructs until the current step is one that may be passed over, or only the root is
left. -/
def backOut : Link → List Link → Chain
  | t, [] => ⟨if t.rule.isNone || t.isFlexible then t else t.vacate, []⟩
  | t, p :: ps =>
    if t.rule.isNone || t.isFlexible then ⟨t, p :: ps⟩
    else backOut { p with needsAdvance := t.needsAdvance, cell := none } ps

/-- **Give up** the current step: fall back to the nearest step that may be left out, and pass over
it. -/
def giveUp (c : Chain) : Chain :=
  let c := backOut c.top c.outer
  if c.top.rule.isNone then c else c.advance false

/-- Leave a construct without steps, which only stands for the token before; else make the advance
that is due. -/
def settle (c : Chain) : Chain :=
  if c.top.rule = some (.steps []) then c.leave
  else if c.top.needsAdvance then
    Chain.advance ⟨{ c.top with needsAdvance := false }, c.outer⟩ true
  else c

/-- Write what an accepted token leaves behind. A type is only written if two constructs enclose the
innermost one. -/
def record (c : Chain) (trace : Trace) (text : String) : Chain :=
  match trace with
  | .none => c
  | .name => ⟨{ c.top with name := some text }, c.outer⟩
  | .type =>
    match c.outer with
    | p :: q :: ps =>
      ⟨{ c.top with name := some text }, p :: { q with type := some text } :: ps⟩
    | _ => c

/-- The chain after a terminal accepts a token. Punctuation completes its step at once; any other
token may still be written on, so that the advance is left due. -/
def accept (c : Chain) (t : Terminal) (tok : Token) : Chain :=
  let c := c.record t.trace tok.text
  if tok.kind = .punctuation then c.advance true
  else ⟨{ c.top with needsAdvance := true }, c.outer⟩

/-- Leaving a construct that was just entered gives back the chain, apart from its cell. -/
theorem leave_enter (c : Chain) (k : RuleKind) (r : Rule) :
    (c.enter k r).leave = ⟨{ c.top with cell := none }, c.outer⟩ := rfl

@[simp] theorem outer_enter (c : Chain) (k : RuleKind) (r : Rule) :
    (c.enter k r).outer = c.top :: c.outer := rfl

@[simp] theorem kind_enter (c : Chain) (k : RuleKind) (r : Rule) :
    (c.enter k r).top.kind = some k := rfl

@[simp] theorem links_mk (t : Link) (ls : List Link) : links ⟨t, ls⟩ = t :: ls := rfl

end Chain

end QueryAssist
