import QueryAssist.Proofs.Open.Literal

/-! # From the parenthesis into a literal

What a document writes after the parenthesis of its arguments does not depend on what is before it,
and neither does the part of the chain that is opened by it. Main definitions:

* **`GoesInto`** — the tokens from the parenthesis on to a place in a literal.
* **`Chain.IsInto`** — a chain some steps into a literal, from the one at the arguments on.

Main statements: `OpensLiteral.exists_append`, a document that opens a literal ends with such
tokens, and `GoesInto.reads`, they are read from any arguments on. -/

namespace QueryAssist

open Grammar Chain Step Terminal

/-- Some tokens **go into** a literal of an argument, from the parenthesis on. -/
inductive GoesInto : String → LiteralSpot → List LiteralStep → List SpacedToken → Prop
  /-- To the argument itself, after complete arguments. -/
  | argument {z : List SpacedToken} {x c : SpacedToken} (hz : Derives [list (rule .argument)] z)
      (hx : x.token.kind = .name) (hc : c.token = .mark ":") :
      GoesInto x.token.text .value [] (z ++ [x, c])
  /-- Into a list. -/
  | list {a : String} {spot : LiteralSpot} {p : List LiteralStep} {t z : List SpacedToken}
      {b : SpacedToken} (ht : GoesInto a spot p t) (hz : spot.Allows z) (hb : b.token = .mark "[") :
      GoesInto a .item (p ++ [.item]) (t ++ (z ++ [b]))
  /-- Into an object. -/
  | object {a : String} {spot : LiteralSpot} {p : List LiteralStep} {t z : List SpacedToken}
      {b : SpacedToken} (ht : GoesInto a spot p t) (hz : spot.Allows z)
      (hb : b.token = .mark "\x7b") : GoesInto a .member p (t ++ (z ++ [b]))
  /-- To a field of an object, after complete ones. -/
  | field {a : String} {p : List LiteralStep} {t z : List SpacedToken} {x c : SpacedToken}
      (ht : GoesInto a .member p t) (hz : Derives [list (rule .objectField)] z)
      (hx : x.token.kind = .name) (hc : c.token = .mark ":") :
      GoesInto a .value (p ++ [.field x.token.text]) (t ++ (z ++ [x, c]))

/-- A chain is **some steps into** a literal of an argument, from one at the arguments on. -/
inductive Chain.IsInto (b : Chain) : String → LiteralSpot → List LiteralStep → Chain → Prop
  /-- At the argument itself. -/
  | argument (a : String) : IsInto b a .value [] (b.inside .argument 2 (some a) none)
  /-- In a list. -/
  | list {a : String} {spot : LiteralSpot} {p : List LiteralStep} {c : Chain}
      (hc : IsInto b a spot p c) (hs : spot ≠ .member) : IsInto b a .item (p ++ [.item])
        ((c.inside .value 0 none none).inside .listValue 1 none none)
  /-- In an object. -/
  | object {a : String} {spot : LiteralSpot} {p : List LiteralStep} {c : Chain}
      (hc : IsInto b a spot p c) (hs : spot ≠ .member) :
      IsInto b a .member p ((c.inside .value 0 none none).inside .objectValue 1 none none)
  /-- At a field of an object. -/
  | field {a n : String} {p : List LiteralStep} {c : Chain} (hc : IsInto b a .member p c)
      (hn : n ≠ "") : IsInto b a .value (p ++ [.field n]) (c.inside .objectField 2 (some n) none)

variable {o : ArgumentOwner} {a : String} {spot : LiteralSpot} {p : List LiteralStep}
  {w t z rest : List SpacedToken} {b c : Chain}

/-- A document that opens a literal **opens arguments and goes into it**. -/
theorem OpensLiteral.exists_append (ho : OpensLiteral o a spot p w) :
    ∃ u t, w = u ++ t ∧ OpensArguments o u ∧ GoesInto a spot p t := by
  induction ho with
  | argument ho hz hx hc => exact ⟨_, _, rfl, ho, .argument hz hx hc⟩
  | list _ hz hb ih =>
    obtain ⟨u, t, rfl, ho, ht⟩ := ih
    exact ⟨u, _, List.append_assoc .., ho, .list ht hz hb⟩
  | object _ hz hb ih =>
    obtain ⟨u, t, rfl, ho, ht⟩ := ih
    exact ⟨u, _, List.append_assoc .., ho, .object ht hz hb⟩
  | field _ hz hx hc ih =>
    obtain ⟨u, t, rfl, ho, ht⟩ := ih
    exact ⟨u, _, List.append_assoc .., ho, .field ht hz hx hc⟩

/-- Some steps into a literal of given arguments. -/
theorem Chain.IsInto.atLiteral (h : b.IsInto a spot p c) (hb : b.AtArguments o) :
    c.AtLiteral o a spot p := by
  induction h with
  | argument => exact .argument hb
  | list _ _ ih => exact .list ih
  | object _ _ ih => exact .object ih
  | field _ hn ih => exact .field ih hn

/-- No literal stands where a field of an object is next. -/
theorem LiteralSpot.Allows.ne_member (hz : spot.Allows z) : spot ≠ .member := by
  cases hz <;> nofun

/-- What goes into a literal **is read** from any arguments on. -/
theorem GoesInto.reads (ht : GoesInto a spot p t) (hb : b.AtArguments o)
    (hw : LaidOut (t ++ rest)) : ∃ c, b.IsInto a spot p c ∧ Reads b t rest [] c := by
  -- Induction on the steps into the argument: each one adds what it opens or names.
  induction ht generalizing rest with
  | argument hz hx hc =>
    obtain ⟨ts, hstands⟩ := hb.standsBefore
    exact ⟨_, .argument _, reads_assignment hstands rfl (by decide) rfl hz hx hc hw⟩
  | list _ hz hbr ih =>
    rw [List.append_assoc] at hw
    obtain ⟨c, hc, hrd⟩ := ih hw
    have hnext := (hc.atLiteral hb).reads_opening hz hbr rfl rfl hw.of_append
    exact ⟨_, .list hc hz.ne_member, hrd.append hnext⟩
  | object _ hz hbr ih =>
    rw [List.append_assoc] at hw
    obtain ⟨c, hc, hrd⟩ := ih hw
    have hnext := (hc.atLiteral hb).reads_opening hz hbr rfl rfl hw.of_append
    exact ⟨_, .object hc hz.ne_member, hrd.append hnext⟩
  | @field _ _ _ _ x _ _ hz hx hcolon ih =>
    have hlaid : x.IsLaid := hw.laid x (by simp)
    rw [List.append_assoc] at hw
    obtain ⟨c, hc, hrd⟩ := ih hw
    obtain ⟨ts, hstands⟩ := (hc.atLiteral hb).standsBefore
    have hnext := reads_assignment hstands rfl (by decide) rfl hz hx hcolon hw.of_append
    exact ⟨_, .field hc hlaid.text_ne, hrd.append hnext⟩

end QueryAssist
