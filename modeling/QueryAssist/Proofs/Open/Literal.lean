import QueryAssist.Proofs.Open.Reading

/-! # Open literals

A document that ends inside the arguments of a field or a directive, in lists and objects that are
still open. Main definitions:

* **`ArgumentOwner`** — what the arguments are given to.
* **`OpensArguments`** — the tokens of a document that ends at the parenthesis of the arguments.
* **`OpensLiteral`** — the tokens of a document that ends where a literal, or a member of one, is
  next.
* **`Schema.inputAt`** — the type that is due there, by the path alone.
* **`Chain.AtLiteral`** — the chains at such places.

Main statement: `OpensLiteral.reads`, a run over such a document leads to such a chain. -/

namespace QueryAssist

open Grammar Chain Step Terminal

/-! ### Documents that end in a literal -/

/-- What **arguments are given to**. -/
inductive ArgumentOwner where
  /-- A field, selected inside some heads. -/
  | field (hs : List Head) (name : String)
  /-- A directive. -/
  | directive (name : String)
  deriving DecidableEq, Repr, Inhabited

/-- A document **opens the arguments** of a field or a directive: it ends at their parenthesis. -/
inductive OpensArguments : ArgumentOwner → List SpacedToken → Prop
  /-- Those of a field, with or without an alias, after complete selections. -/
  | field {hs : List Head} {n : String} {w z u : List SpacedToken} {b : SpacedToken}
      (ho : Opens hs w) (hz : Derives [list (rule .selection)] z) (hn : NamesField n u)
      (hb : b.token = .mark "(") : OpensArguments (.field hs n) (w ++ (z ++ (u ++ [b])))
  /-- Those of a directive after a head and complete directives. -/
  | directive {hs : List Head} {h : Head} {w v : List SpacedToken} {d x b : SpacedToken}
      (ho : Hosts hs h w) (hv : Derives [list (rule .directive)] v) (hd : d.token = .mark "@")
      (hx : x.token.kind = .name) (hb : b.token = .mark "(") :
      OpensArguments (.directive x.token.text) (w ++ (v ++ [d, x, b]))

/-- A step **into a literal**. -/
inductive LiteralStep where
  /-- To the items of a list. -/
  | item
  /-- To a field of an object. -/
  | field (name : String)
  deriving DecidableEq, Repr, Inhabited

/-- What can be next in a literal. -/
inductive LiteralSpot where
  /-- A literal, after a colon. -/
  | value
  /-- An item, inside a list. -/
  | item
  /-- A field, inside an object. -/
  | member
  deriving DecidableEq, Repr, Inhabited

/-- The complete literals that can stand before the next one: any inside a list, none after a
colon. -/
inductive LiteralSpot.Allows : LiteralSpot → List SpacedToken → Prop
  /-- None after a colon. -/
  | value : Allows .value []
  /-- Any items inside a list. -/
  | item {z : List SpacedToken} (hz : Derives [list (rule .value)] z) : Allows .item z

/-- A document **opens a literal** of an argument and goes some steps into it, each after complete
items or fields: it ends after the colon of the argument or of a field, or at a bracket or a
brace. -/
inductive OpensLiteral : ArgumentOwner → String → LiteralSpot → List LiteralStep →
    List SpacedToken → Prop
  /-- At the argument itself, after complete arguments. -/
  | argument {o : ArgumentOwner} {w z : List SpacedToken} {x c : SpacedToken}
      (ho : OpensArguments o w) (hz : Derives [list (rule .argument)] z)
      (hx : x.token.kind = .name) (hc : c.token = .mark ":") :
      OpensLiteral o x.token.text .value [] (w ++ (z ++ [x, c]))
  /-- Inside a list. -/
  | list {o : ArgumentOwner} {a : String} {spot : LiteralSpot} {p : List LiteralStep}
      {w z : List SpacedToken} {b : SpacedToken} (ho : OpensLiteral o a spot p w)
      (hz : spot.Allows z) (hb : b.token = .mark "[") :
      OpensLiteral o a .item (p ++ [.item]) (w ++ (z ++ [b]))
  /-- Inside an object. -/
  | object {o : ArgumentOwner} {a : String} {spot : LiteralSpot} {p : List LiteralStep}
      {w z : List SpacedToken} {b : SpacedToken} (ho : OpensLiteral o a spot p w)
      (hz : spot.Allows z) (hb : b.token = .mark "\x7b") :
      OpensLiteral o a .member p (w ++ (z ++ [b]))
  /-- At a field of an object, after complete ones. -/
  | field {o : ArgumentOwner} {a : String} {p : List LiteralStep} {w z : List SpacedToken}
      {x c : SpacedToken} (ho : OpensLiteral o a .member p w)
      (hz : Derives [list (rule .objectField)] z) (hx : x.token.kind = .name)
      (hc : c.token = .mark ":") :
      OpensLiteral o a .value (p ++ [.field x.token.text]) (w ++ (z ++ [x, c]))

/-! ### The type that is due -/

namespace Schema

/-- The arguments that an owner takes. -/
def argumentsOf? (s : Schema) : ArgumentOwner → Option (List InputValue)
  | .field hs n => (s.fieldOf? (s.baseType? (s.selected hs)) n).map (·.args)
  | .directive n => (s.directive? n).map (·.args)

/-- The type of the input value of a given name among some. -/
def inputOf? (vs : Option (List InputValue)) (name : String) : Option TypeRef :=
  (vs.bind fun vs => vs.find? (·.name == name)).map (·.type)

/-- The type after a step into a literal of some type. -/
def inputIn (s : Schema) (t : Option TypeRef) : LiteralStep → Option TypeRef
  | .item => t.bind TypeRef.item?
  | .field n => inputOf? (s.inputFields? t) n

/-- The type that a literal must have **after some steps** into an argument. -/
def inputAt (s : Schema) (o : ArgumentOwner) (argument : String) (p : List LiteralStep) :
    Option TypeRef :=
  p.foldl s.inputIn (inputOf? (s.argumentsOf? o) argument)

/-- The type after one more step into an argument is that after the step into the literal before. -/
theorem inputAt_concat (s : Schema) (o : ArgumentOwner) (a : String) (p : List LiteralStep)
    (e : LiteralStep) : s.inputAt o a (p ++ [e]) = s.inputIn (s.inputAt o a p) e := by
  simp [inputAt]

end Schema

/-! ### Chains in a literal -/

/-- A chain is at the **arguments of** an owner. -/
inductive Chain.AtArguments : ArgumentOwner → Chain → Prop
  /-- Those of a field. -/
  | field {hs : List Head} {c : Chain} {k : RuleKind} {i : Nat} {n : String} (hc : SelectsIn hs c)
      (hk : NamedAt k i) (hn : n ≠ "") : AtArguments (.field hs n)
        ((c.inSelection.inside k i (some n) none).inside .arguments 1 none none)
  /-- Those of a directive. -/
  | directive {hs : List Head} {h : Head} {d : Chain} {n : String} (hd : HostsIn hs h d)
      (hn : n ≠ "") :
      AtArguments (.directive n)
        ((d.inside .directive 2 (some n) none).inside .arguments 1 none none)

/-- A chain is **at a literal** of an argument, some steps into it. -/
inductive Chain.AtLiteral : ArgumentOwner → String → LiteralSpot → List LiteralStep → Chain → Prop
  /-- At the argument itself. -/
  | argument {o : ArgumentOwner} {c : Chain} {a : String} (hc : AtArguments o c) :
      AtLiteral o a .value [] (c.inside .argument 2 (some a) none)
  /-- Inside a list. -/
  | list {o : ArgumentOwner} {c : Chain} {a : String} {spot : LiteralSpot} {p : List LiteralStep}
      (hc : AtLiteral o a spot p c) : AtLiteral o a .item (p ++ [.item])
        ((c.inside .value 0 none none).inside .listValue 1 none none)
  /-- Inside an object. -/
  | object {o : ArgumentOwner} {c : Chain} {a : String} {spot : LiteralSpot} {p : List LiteralStep}
      (hc : AtLiteral o a spot p c) : AtLiteral o a .member p
        ((c.inside .value 0 none none).inside .objectValue 1 none none)
  /-- At a field of an object. -/
  | field {o : ArgumentOwner} {c : Chain} {a n : String} {p : List LiteralStep}
      (hc : AtLiteral o a .member p c) (hn : n ≠ "") :
      AtLiteral o a .value (p ++ [.field n]) (c.inside .objectField 2 (some n) none)

/-- The step that is next in a literal. -/
def LiteralSpot.step : LiteralSpot → Step
  | value => rule .value
  | item => list (rule .value)
  | member => list (rule .objectField)

namespace Chain

variable {c d : Chain} {o : ArgumentOwner} {a : String} {spot : LiteralSpot} {p : List LiteralStep}
  {hs : List Head} {h : Head} {k : RuleKind} {ts : List Step} {x y b : SpacedToken}
  {z rest : List SpacedToken}

/-- Nothing is due in a chain that hosts directives. -/
theorem HostsIn.plain (hd : d.HostsIn hs h) : Plain d.links := by
  obtain ⟨ts, hd⟩ := hd.standsBefore
  exact hd.plain

/-- A chain at some arguments stands before the list of them. -/
theorem AtArguments.standsBefore (hc : c.AtArguments o) :
    ∃ ts, c.StandsBefore (list (rule .argument) :: ts) := by
  refine ⟨[terminal (punctuation ")")], ?_⟩
  cases hc with
  | field hc =>
    have hp := plain_inSelection hc.awaitsSelections.plain
    exact standsBefore_inside (k := .arguments) rfl rfl (plain_inside hp)
  | directive hd => exact standsBefore_inside (k := .arguments) rfl rfl (plain_inside hd.plain)

/-- A chain at a literal stands before the step that is next in it. -/
theorem AtLiteral.standsBefore (hc : c.AtLiteral o a spot p) :
    ∃ ts, c.StandsBefore (spot.step :: ts) := by
  induction hc with
  | argument hc =>
    obtain ⟨ts, hc⟩ := hc.standsBefore
    exact ⟨[], standsBefore_inside (k := .argument) rfl rfl hc.plain⟩
  | list _ ih =>
    obtain ⟨ts, hc⟩ := ih
    exact ⟨_, standsBefore_inside (k := .listValue) rfl rfl (plain_inside hc.plain)⟩
  | object _ ih =>
    obtain ⟨ts, hc⟩ := ih
    exact ⟨_, standsBefore_inside (k := .objectValue) rfl rfl (plain_inside hc.plain)⟩
  | field _ _ ih =>
    obtain ⟨ts, hc⟩ := ih
    exact ⟨[], standsBefore_inside (k := .objectField) rfl rfl hc.plain⟩

/-! ### Runs over open literals -/

/-- Complete turns of a list of names with values, and another name with its colon, are read. -/
theorem reads_assignment (hc : c.StandsBefore (list (rule k) :: ts))
    (hk : standard k = some (.steps assignment)) (ho : isOrderly [list (rule k)] = true)
    (hr : k.reach = 0) (hz : Derives [list (rule k)] z) (hx : x.token.kind = .name)
    (hy : y.token = .mark ":") (hw : LaidOut ((z ++ [x, y]) ++ rest)) :
    Reads c (z ++ [x, y]) rest [] (c.inside k 2 (some x.token.text) none) := by
  rw [List.append_assoc] at hw
  have hopen : Matcher.kind .name ∈ (rule k).openings := by
    have hd : k ≠ .document := by
      rintro rfl
      cases hk
    have := openings_of_steps hk hd
    rw [this]
    exact List.mem_singleton_self _
  -- A name begins another assignment, so it does not go on with the value before it.
  have hf : Follows (rule k).extensions ([x, y] ++ rest) :=
    follows_of_mem_openings ho hopen (beq_iff_eq.2 hx)
  have hturns : Reads c z ([x, y] ++ rest) (rule k).extensions c := reads_turns hc hz ho hr hw hf
  have hname : Reads c [x] ([y] ++ rest) [] (c.inside k 1 (some x.token.text) none) :=
    reads_begin hc rfl hk rfl (beq_iff_eq.2 hx)
  have hcolon : Reads (c.inside k 1 (some x.token.text) none) [y] rest []
      (c.inside k 2 (some x.token.text) none) := by
    refine reads_terminal_inside (e := punctuation ":") hk rfl rfl ?_
    rw [hy]
    rfl
  exact hturns.append_cons (hname.append hcolon) (hf x rfl)

/-- Complete literals that may stand before the next one are read. Nothing goes on with a
literal. -/
theorem AtLiteral.reads_allowed (hc : c.AtLiteral o a spot p) (hz : spot.Allows z)
    (hw : LaidOut (z ++ rest)) : Reads c z rest [] c := by
  obtain ⟨ts, hc⟩ := hc.standsBefore
  have hnil : (rule .value).extensions = [] := by decide
  -- After a colon nothing is read. In a list nothing lags after the items.
  cases hz with
  | value => exact reads_nil c rest
  | item hz =>
    have hf : Follows (rule .value).extensions rest := by
      rw [hnil]
      exact fun _ _ => Token.isOutside_nil _
    have hrd := reads_turns hc hz (by decide) rfl hw hf
    rwa [hnil] at hrd

/-- A bracket or a brace opens a literal. -/
theorem AtLiteral.reads_opening {text : String} {s : Step} {ks : List Step}
    (hc : c.AtLiteral o a spot p) (hz : spot.Allows z) (hb : b.token = .mark text)
    (hf : valueOf? (.mark text) = some k)
    (hk : standard k = some (.steps (terminal (punctuation text) :: s :: ks)))
    (hw : LaidOut ((z ++ [b]) ++ rest)) :
    Reads c (z ++ [b]) rest [] ((c.inside .value 0 none none).inside k 1 none none) := by
  rw [List.append_assoc] at hw
  have hallowed := hc.reads_allowed hz hw
  obtain ⟨ts, hc⟩ := hc.standsBefore
  have hbody : spot.step.body = rule .value := by
    cases hz with
    | value | item => rfl
  have hopen : Reads c [b] rest [] ((c.inside .value 0 none none).inside k 1 none none) := by
    refine reads_choice_begin (f := .value) hc hbody rfl ?_ hk rfl ?_
    · rw [hb]
      exact hf
    · rw [hb]
      simp [Terminal.accepts, punctuation, Matcher.accepts, Token.mark]
  exact hallowed.append hopen

end Chain

/-- A parenthesis opens the arguments. -/
theorem reads_parenthesis {c : Chain} {ts : List Step} {b : SpacedToken} {rest : List SpacedToken}
    (hc : c.StandsBefore (optional (rule .arguments) :: ts)) (hb : b.token = .mark "(") :
    Reads c [b] rest [] (c.inside .arguments 1 none none) := by
  refine Chain.reads_begin hc rfl rfl rfl ?_
  rw [hb]
  rfl

/-- Complete selections, the name of a field and a parenthesis after it open its arguments. -/
theorem Chain.SelectsIn.reads_arguments {hs : List Head} {c : Chain} {n : String}
    {z u rest : List SpacedToken} {b : SpacedToken} (hc : c.SelectsIn hs)
    (hz : Derives [list (rule .selection)] z) (hn : NamesField n u) (hb : b.token = .mark "(")
    (hw : LaidOut (z ++ (u ++ [b] ++ rest))) :
    ∃ d, AtArguments (.field hs n) d ∧ Reads c (z ++ (u ++ [b])) rest [] d := by
  have hawaits := hc.awaitsSelections
  have hcolon : Follows [.exactly .punctuation ":"] ([b] ++ rest) := by
    refine follows_cons (fun m hm => ?_) rest
    rw [hb]
    revert m
    decide
  have hlaid : LaidOut (u ++ ([b] ++ rest)) := by
    rw [← List.append_assoc]
    exact hw.of_append
  obtain ⟨hne, k, i, hk, hname⟩ := hn.reads hawaits hlaid hcolon
  obtain ⟨ks, hks, hdrop⟩ := hk.exists_steps
  have hstands : (c.inSelection.inside k i (some n) none).StandsBefore fieldTail :=
    standsBefore_inside hks hdrop (plain_inSelection hawaits.plain)
  have hfield := hname.append (reads_parenthesis hstands hb)
  -- The name of the field does not go on with the selection before it.
  have hwrites : (Head.field n).Writes (u ++ []) := .field hn (.skip .nil)
  rw [List.append_nil] at hwrites
  obtain ⟨x, u, rfl, hx⟩ := hwrites.follows_selection rfl
  obtain ⟨ts, hsel⟩ := hawaits
  have hturns : Reads c z (((x :: u) ++ [b]) ++ rest) RuleKind.selection.extensions c :=
    reads_turns hsel hz (by decide) rfl hw (follows_cons hx _)
  exact ⟨_, .field hc hk hne, hturns.append_cons hfield hx⟩

/-- Complete directives, the name of another one and a parenthesis after it are read. -/
theorem Chain.HostsIn.reads_directive {hs : List Head} {h : Head} {c : Chain}
    {v rest : List SpacedToken} {x y b : SpacedToken} (hc : c.HostsIn hs h)
    (hv : Derives [list (rule .directive)] v) (hx : x.token = .mark "@") (hy : y.token.kind = .name)
    (hb : b.token = .mark "(") (hw : LaidOut (v ++ ([x, y, b] ++ rest))) :
    Reads c (v ++ [x, y, b]) rest []
      ((c.inside .directive 2 (some y.token.text) none).inside .arguments 1 none none) := by
  obtain ⟨ts, hstands⟩ := hc.standsBefore
  have hf : Follows (rule .directive).extensions ([x, y, b] ++ rest) := by
    have ha : Matcher.accepts (.exactly .punctuation "@") x.token = true := by
      rw [hx]
      rfl
    exact follows_of_mem_openings (by decide) (by decide) ha
  have hturns : Reads c v ([x, y, b] ++ rest) _ c :=
    reads_turns hstands hv (by decide) rfl hw hf
  have hmark : Reads c [x] ([y, b] ++ rest) [] (c.inside .directive 1 none none) := by
    refine Chain.reads_begin hstands rfl rfl rfl ?_
    rw [hx]
    rfl
  have hname : Reads (c.inside .directive 1 none none) [y] ([b] ++ rest) []
      (c.inside .directive 2 (some y.token.text) none) :=
    reads_terminal_inside (e := name "meta") rfl rfl rfl (beq_iff_eq.2 hy)
  have hopen : (c.inside .directive 2 (some y.token.text) none).StandsBefore
      [optional (rule .arguments)] := standsBefore_inside (k := .directive) rfl rfl hc.plain
  have hdirective := hmark.append (hname.append (reads_parenthesis hopen hb))
  exact hturns.append_cons hdirective (hf x rfl)

/-- They open its arguments. -/
theorem Chain.HostsIn.reads_arguments {hs : List Head} {h : Head} {c : Chain}
    {v rest : List SpacedToken} {x y b : SpacedToken} (hc : c.HostsIn hs h)
    (hv : Derives [list (rule .directive)] v) (hx : x.token = .mark "@") (hy : y.token.kind = .name)
    (hb : b.token = .mark "(") (hw : LaidOut (v ++ ([x, y, b] ++ rest))) :
    ∃ d, AtArguments (.directive y.token.text) d ∧ Reads c (v ++ [x, y, b]) rest [] d := by
  have hlaid : y.IsLaid := hw.laid y (by simp)
  exact ⟨_, .directive hc hlaid.text_ne, hc.reads_directive hv hx hy hb hw⟩

/-- A document that **opens arguments is read** up to them. -/
theorem OpensArguments.reads {o : ArgumentOwner} {w rest : List SpacedToken}
    (ho : OpensArguments o w) (hw : LaidOut (w ++ rest)) :
    ∃ c, AtArguments o c ∧ Reads .start w rest [] c := by
  cases ho with
  | @field hs n w z u b ho hz hn hb =>
    rw [List.append_assoc] at hw
    obtain ⟨c, hc, hopen⟩ := ho.reads hw
    have hw := hw.of_append
    rw [List.append_assoc] at hw
    obtain ⟨d, hd, hrd⟩ := hc.reads_arguments hz hn hb hw
    exact ⟨d, hd, hopen.append hrd⟩
  | @directive hs h w v x y b ho hv hx hy hb =>
    rw [List.append_assoc] at hw
    have hend : EndsHead ((v ++ [x, y, b]) ++ rest) := by
      rw [List.append_assoc]
      exact EndsHead.append ⟨x, _, rfl, .inl hx⟩ hv
    -- Directives may go on with the head, so what comes next is needed to see where it ends.
    have hend' : EndsHead (v ++ [x, y, b]) := EndsHead.append ⟨x, _, rfl, .inl hx⟩ hv
    obtain ⟨c, hc, hhost⟩ := ho.reads hw hend
    have hw := hw.of_append
    rw [List.append_assoc] at hw
    obtain ⟨d, hd, hrd⟩ := hc.reads_arguments hv hx hy hb hw
    exact ⟨d, hd, hhost.trans hrd hend'.follows (by simp)⟩

/-- A document that **opens a literal is read** up to it. -/
theorem OpensLiteral.reads {o : ArgumentOwner} {a : String} {spot : LiteralSpot}
    {p : List LiteralStep} {w rest : List SpacedToken} (ho : OpensLiteral o a spot p w)
    (hw : LaidOut (w ++ rest)) : ∃ c, AtLiteral o a spot p c ∧ Reads .start w rest [] c := by
  -- Induction on the steps into the literal, as on those into one of its arguments.
  induction ho generalizing rest with
  | argument ho hz hx hc =>
    rw [List.append_assoc] at hw
    obtain ⟨c, hat, hrd⟩ := ho.reads hw
    obtain ⟨ts, hstands⟩ := hat.standsBefore
    have hnext := reads_assignment hstands rfl (by decide) rfl hz hx hc hw.of_append
    exact ⟨_, .argument hat, hrd.append hnext⟩
  | list _ hz hb ih =>
    rw [List.append_assoc] at hw
    obtain ⟨c, hat, hrd⟩ := ih hw
    have hnext := hat.reads_opening hz hb rfl rfl hw.of_append
    exact ⟨_, .list hat, hrd.append hnext⟩
  | object _ hz hb ih =>
    rw [List.append_assoc] at hw
    obtain ⟨c, hat, hrd⟩ := ih hw
    have hnext := hat.reads_opening hz hb rfl rfl hw.of_append
    exact ⟨_, .object hat, hrd.append hnext⟩
  | @field _ _ w z x _ _ hz hx hc ih =>
    have hlaid : x.IsLaid := hw.laid x (by simp)
    rw [List.append_assoc] at hw
    obtain ⟨c, hat, hrd⟩ := ih hw
    obtain ⟨ts, hstands⟩ := hat.standsBefore
    have hnext := reads_assignment hstands rfl (by decide) rfl hz hx hc hw.of_append
    exact ⟨_, .field hat hlaid.text_ne, hrd.append hnext⟩

end QueryAssist
