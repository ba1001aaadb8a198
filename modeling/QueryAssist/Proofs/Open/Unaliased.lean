import QueryAssist.Proofs.Open.Inward
import QueryAssist.Proofs.Open.Alias

/-! # Open documents without their aliases

An open document stays open, at the same place, where its aliases are left out. Main definition:
**`IsExecutable`**, complete operations and fragments. Main statements: `Opens.unaliased` and
`OpensArguments.unaliased`, the same is open without aliases, and `GoesInto.dropAliases_append`,
what goes into a literal stays. -/

namespace QueryAssist

open Grammar Step Terminal

variable {b : Bool} {x : SpacedToken} {u v w z : List SpacedToken}

/-- Some tokens are **on their own** if they close their parentheses and no colon is first. -/
structure OnTheirOwn (w : List SpacedToken) : Prop where
  closed : enclosedAfter false w = false
  colon : beginsWithColon w = false

namespace OnTheirOwn

/-- No tokens are on their own. -/
theorem nil : OnTheirOwn [] := ⟨rfl, rfl⟩

/-- Two lists are on their own if each is. -/
theorem append (hv : OnTheirOwn v) (hw : OnTheirOwn w) : OnTheirOwn (v ++ w) where
  closed := by rw [enclosedAfter_append, hv.closed, hw.closed]
  colon := by rw [beginsWithColon_append, hv.colon, hw.colon, ite_self]

/-- Their aliases are left out on their own. -/
theorem dropAliases_append (hv : OnTheirOwn v) (hw : beginsWithColon w = false) :
    dropAliases false (v ++ w) = dropAliases false v ++ dropAliases false w := by
  rw [QueryAssist.dropAliases_append hw, hv.closed]

end OnTheirOwn

/-- What is derived is on its own, and is derived without aliases. -/
theorem Derives.unaliased {ss : List Step} (h : Derives ss w)
    (hs : areSelected ss = true) (hh : ss.head?.any isColon = false)
    (he : stepsWithoutAliases ss = ss) :
    Derives ss (dropAliases false w) ∧ OnTheirOwn w := by
  have hw := Sheds.of_derives h hs
  have hd := hw.derives
  rw [he] at hd
  exact ⟨hd, hw.closed, hw.colon.trans hh⟩

/-- A token is **simple** if it is no colon and no parenthesis. -/
def Token.IsSimple (t : Token) : Prop := t ≠ .mark ":" ∧ t ≠ .mark "(" ∧ t ≠ .mark ")"

instance (t : Token) : Decidable t.IsSimple := inferInstanceAs (Decidable (_ ∧ _))

/-- A name is simple. -/
theorem Token.isSimple_of_kind {t : Token} (h : t.kind = .name) : t.IsSimple := by
  refine ⟨?_, ?_, ?_⟩ <;> rintro rfl <;> cases h

/-- Simple tokens stay. -/
theorem dropAliases_simple (h : ∀ x ∈ w, x.token.IsSimple) :
    dropAliases false w = w ∧ OnTheirOwn w := by
  induction w with
  | nil => exact ⟨rfl, .nil⟩
  | cons x w ih =>
    obtain ⟨⟨hc, ho, hp⟩, hw⟩ := List.forall_mem_cons.1 h
    obtain ⟨hdrop, hown⟩ := ih hw
    have henc : x.token.encloses false = false := by
      rw [Token.encloses, if_neg ho, if_neg hp]
    refine ⟨?_, ?_, beq_eq_false_iff_ne.2 hc⟩
    · rw [dropAliases_cons hc hown.colon, henc, hdrop]
    · rw [enclosedAfter_cons, henc, hown.closed]

/-- A field is named without its alias. -/
theorem NamesField.unaliased {n : String} (h : NamesField n u) :
    NamesField n (dropAliases false u) ∧ OnTheirOwn u := by
  cases h with
  | @plain x hx =>
    obtain ⟨hdrop, hown⟩ := dropAliases_simple (w := [x])
      (by simpa using Token.isSimple_of_kind hx)
    rw [hdrop]
    exact ⟨.plain hx, hown⟩
  | @aliased a c x ha hl hc hx =>
    obtain ⟨hdrop, hown⟩ := dropAliases_simple (w := [x])
      (by simpa using Token.isSimple_of_kind hx)
    have hsimple := Token.isSimple_of_kind ha
    have henc : a.token.encloses false = false := by
      rw [Token.encloses, if_neg hsimple.2.1, if_neg hsimple.2.2]
    have henc' : (Token.mark ":").encloses false = false := rfl
    refine ⟨?_, ?_, beq_eq_false_iff_ne.2 hsimple.1⟩
    · have hall : dropAliases false [a, c, x] = dropAliases false [x] := by
        simp [dropAliases, henc, henc', hc]
      rw [hall, hdrop]
      exact .plain hx
    · rw [enclosedAfter_cons, henc, enclosedAfter_cons, hc, henc', hown.closed]

/-- A head is written without its alias. -/
theorem Head.Writes.unaliased {h : Head} (hu : h.Writes u) :
    h.Writes (dropAliases false u) ∧ OnTheirOwn u := by
  -- Only the name of a field can have an alias, and every other head stays as it is.
  cases hu with
  | @operation h word x u hw hx hu =>
    have hword : (Token.word word).IsSimple := Token.isSimple_of_kind rfl
    obtain ⟨hdrop, hown⟩ := dropAliases_simple (w := [x]) (by simpa [hx] using hword)
    obtain ⟨hd, hown'⟩ := hu.unaliased (by decide) (by decide) (by decide)
    rw [← List.singleton_append, hown.dropAliases_append hown'.colon, hdrop]
    exact ⟨.operation hw hx hd, hown.append hown'⟩
  | @fragment x o t u hx hu ho ht =>
    have hword : (Token.word "fragment").IsSimple := by decide
    have hon : (Token.word "on").IsSimple := by decide
    obtain ⟨hdrop, hown⟩ := dropAliases_simple (w := [x]) (by simpa [hx] using hword)
    obtain ⟨hd, hown'⟩ := hu.unaliased (by decide) (by decide) (by decide)
    obtain ⟨hdrop', hown''⟩ := dropAliases_simple (w := [o, t])
      (by simpa [ho] using ⟨hon, Token.isSimple_of_kind ht⟩)
    rw [← List.singleton_append, hown.dropAliases_append (hown'.append hown'').colon,
      hown'.dropAliases_append hown''.colon, hdrop, hdrop']
    exact ⟨.fragment hx hd ho ht, hown.append (hown'.append hown'')⟩
  | @field n u v hn hv =>
    obtain ⟨hn', hown⟩ := hn.unaliased
    obtain ⟨hd, hown'⟩ := hv.unaliased (by decide) (by decide) (by decide)
    rw [hown.dropAliases_append hown'.colon]
    exact ⟨.field hn' hd, hown.append hown'⟩
  | @inline d hd hl =>
    have hdots : (Token.mark "...").IsSimple := by decide
    obtain ⟨hdrop, hown⟩ := dropAliases_simple (w := [d]) (by simpa [hd] using hdots)
    rw [hdrop]
    exact ⟨.inline hd hl, hown⟩
  | @inlineOn d o t hd hl ho ht =>
    have hdots : (Token.mark "...").IsSimple := by decide
    have hon : (Token.word "on").IsSimple := by decide
    obtain ⟨hdrop, hown⟩ := dropAliases_simple (w := [d, o, t])
      (by simpa [hd, ho] using ⟨hdots, hon, Token.isSimple_of_kind ht⟩)
    rw [hdrop]
    exact ⟨.inlineOn hd hl ho ht, hown⟩
  | @spread d n hd hl hn ho =>
    have hdots : (Token.mark "...").IsSimple := by decide
    obtain ⟨hdrop, hown⟩ := dropAliases_simple (w := [d, n])
      (by simpa [hd] using ⟨hdots, Token.isSimple_of_kind hn⟩)
    rw [hdrop]
    exact ⟨.spread hd hl hn ho, hown⟩

/-- Complete operations and fragments are **executable**. -/
def IsExecutable (w : List SpacedToken) : Prop :=
  ∃ vs : List (List SpacedToken), w = vs.flatten ∧
    ∀ v ∈ vs, ∃ k : RuleKind, k.isDefinition = true ∧ Derives [rule k] v

/-- All complete definitions that some tokens begin with are executable. -/
def BeginsExecutably (w : List SpacedToken) : Prop :=
  ∀ z, z <+: w → Derives [list (rule .definition)] z → IsExecutable z

/-- What begins executably does so where it is shorter. -/
theorem BeginsExecutably.of_append (h : BeginsExecutably (u ++ w)) : BeginsExecutably u :=
  fun z hz => h z (hz.trans (List.prefix_append u w))

/-- The keywords of the schema language. -/
def schemaKeywords : List String :=
  ["schema", "scalar", "type", "interface", "union", "enum", "input", "extend", "directive"]

/-- Without a keyword of the schema language all definitions are executable. -/
theorem BeginsExecutably.of_keywords (h : ∀ x ∈ w, x.token.text ∉ schemaKeywords) :
    BeginsExecutably w := by
  intro z hz hd
  replace h : ∀ x ∈ z, x.token.text ∉ schemaKeywords := fun x hx => h x (hz.subset hx)
  clear hz
  generalize he : [list (rule .definition)] = ss at hd
  induction hd with
  | stop hd =>
    obtain ⟨-, rfl⟩ := List.cons.inj he
    exact ⟨[], hd.eq_nil, by simp⟩
  | @again s ss v z hv hd _ ih =>
    obtain ⟨vs, rfl, hvs⟩ := ih (fun x hx => h x (List.mem_append_right _ hx)) he
    obtain ⟨hs, rfl⟩ := List.cons.inj he
    obtain rfl := Step.list.inj hs
    refine ⟨v :: vs, rfl, List.forall_mem_cons.2 ⟨?_, hvs⟩⟩
    obtain ⟨k, hk, -, hv⟩ := hv.exists_answer rfl
    refine ⟨k, ?_, hv⟩
    -- A definition of the schema language begins with one of its keywords.
    have hall : ∀ k ∈ Fork.answers .definition, k.isDefinition = true ∨
        ∃ word ∈ schemaKeywords, seqOpenings [rule k] = [.exactly .name word] := by decide
    refine (hall k hk).resolve_right fun ⟨word, hword, hopen⟩ => ?_
    have ho : isOrderly [rule k] = true := isOrderly_of_mem_answers (k := .definition) rfl hk
    have hbare : (rule k).isBare = true := by
      have hall : ∀ k ∈ Fork.answers .definition, (rule k).isBare = true := by decide
      exact hall k hk
    obtain ⟨x, v, rfl⟩ := List.exists_cons_of_ne_nil (hv.ne_nil_of_isBare hbare ho)
    obtain ⟨m, hm, ha⟩ := hv.head_mem_openings ho
    rw [hopen, List.mem_singleton] at hm
    subst hm
    simp only [Matcher.accepts, Bool.and_eq_true, beq_iff_eq] at ha
    exact h x (by simp) (ha.2 ▸ hword)
  | _ => cases he

/-- Executable definitions are so without their aliases. -/
theorem IsExecutable.unaliased (h : IsExecutable w) :
    Derives [list (rule .definition)] (dropAliases false w) ∧ OnTheirOwn w := by
  obtain ⟨vs, rfl, hvs⟩ := h
  induction vs with
  | nil => exact ⟨.stop .nil, .nil⟩
  | cons v vs ih =>
    obtain ⟨⟨k, hk, hv⟩, hvs⟩ := List.forall_mem_cons.1 hvs
    obtain ⟨hd, hown⟩ := ih hvs
    have hanswer : k ∈ Fork.answers .definition ∧ areSelected [rule k] = true ∧
        stepsWithoutAliases [rule k] = [rule k] := by
      cases k <;> first | decide | cases hk
    obtain ⟨hd', hown'⟩ := hv.unaliased hanswer.2.1 rfl hanswer.2.2
    rw [List.flatten_cons, hown'.dropAliases_append hown.colon]
    refine ⟨.again (.answer rfl hanswer.1 ?_ hd') hd, hown'.append hown⟩
    cases k <;> trivial

/-- Selections and directives are derived without aliases. -/
theorem dropAliases_selections (h : Derives [list (rule .selection)] z) :
    Derives [list (rule .selection)] (dropAliases false z) ∧ OnTheirOwn z :=
  h.unaliased (by decide) (by decide) (by decide)

/-- Directives are, too, and they are on their own. -/
theorem dropAliases_directives (h : Derives [list (rule .directive)] z) :
    Derives [list (rule .directive)] (dropAliases false z) ∧ OnTheirOwn z :=
  h.unaliased (by decide) (by decide) (by decide)

/-- A brace is left as it is and is on its own. -/
theorem dropAliases_brace (hx : x.token = .mark "\x7b") :
    dropAliases false [x] = [x] ∧ OnTheirOwn [x] :=
  dropAliases_simple (by simpa [hx] using (by decide : (Token.mark "\x7b").IsSimple))

/-- **Selection sets are open without aliases**, those of the same heads. -/
theorem Opens.unaliased {hs : List Head} (ho : Opens hs w) (hx : BeginsExecutably w) :
    Opens hs (dropAliases false w) ∧ OnTheirOwn w := by
  -- The induction is on the sets that are open, beginning with the outermost one.
  induction ho with
  | @shorthand w b hw hb =>
    obtain ⟨hd, hown⟩ := (hx w (List.prefix_append w [b]) hw).unaliased
    obtain ⟨hdrop, hown'⟩ := dropAliases_brace hb
    rw [hown.dropAliases_append hown'.colon, hdrop]
    exact ⟨.shorthand hd hb, hown.append hown'⟩
  | @definition h w u v b hw hd hu hv hb =>
    obtain ⟨hw', hown⟩ := (hx w (List.prefix_append w _) hw).unaliased
    obtain ⟨hu', hown'⟩ := hu.unaliased
    obtain ⟨hv', hown''⟩ := dropAliases_directives hv
    obtain ⟨hdrop, hbrace⟩ := dropAliases_brace hb
    have hvb := hown''.append hbrace
    have huvb := hown'.append hvb
    rw [hown.dropAliases_append huvb.colon, hown'.dropAliases_append hvb.colon,
      hown''.dropAliases_append hbrace.colon, hdrop]
    exact ⟨.definition hw' hd hu' hv' hb, hown.append huvb⟩
  | @selection hs h w z u v b ho hz hd hh hu hv hb ih =>
    obtain ⟨ho', hown⟩ := ih hx.of_append
    obtain ⟨hz', hset⟩ := dropAliases_selections hz
    obtain ⟨hu', hown'⟩ := hu.unaliased
    obtain ⟨hv', hown''⟩ := dropAliases_directives hv
    obtain ⟨hdrop, hbrace⟩ := dropAliases_brace hb
    have hvb := hown''.append hbrace
    have huvb := hown'.append hvb
    have hzuvb := hset.append huvb
    rw [hown.dropAliases_append hzuvb.colon, hset.dropAliases_append huvb.colon,
      hown'.dropAliases_append hvb.colon, hown''.dropAliases_append hbrace.colon, hdrop]
    exact ⟨.selection ho' hz' hd hh hu' hv' hb, hown.append hzuvb⟩

/-- So are directives hosted. -/
theorem Hosts.unaliased {hs : List Head} {h : Head} (ho : Hosts hs h w)
    (hx : BeginsExecutably w) : Hosts hs h (dropAliases false w) ∧ OnTheirOwn w := by
  cases ho with
  | @definition h z u hz hd hu =>
    obtain ⟨hz', hown⟩ := (hx z (List.prefix_append z _) hz).unaliased
    obtain ⟨hu', hown'⟩ := hu.unaliased
    rw [hown.dropAliases_append hown'.colon]
    exact ⟨.definition hz' hd hu', hown.append hown'⟩
  | @selection hs h w z u ho hz hd hu =>
    obtain ⟨ho', hown⟩ := ho.unaliased hx.of_append
    obtain ⟨hz', hset⟩ := dropAliases_selections hz
    obtain ⟨hu', hown'⟩ := hu.unaliased
    have hzu := hset.append hown'
    rw [hown.dropAliases_append hzu.colon, hset.dropAliases_append hown'.colon]
    exact ⟨.selection ho' hz' hd hu', hown.append hzu⟩

/-- A parenthesis stays, and what is after it is enclosed. -/
theorem dropAliases_parenthesis (hx : x.token = .mark "(") :
    dropAliases false [x] = [x] ∧ enclosedAfter false [x] = true ∧ beginsWithColon [x] = false := by
  have hcolon : x.token ≠ .mark ":" := by
    rw [hx]
    decide
  have henc : x.token.encloses false = true := by
    rw [hx]
    rfl
  refine ⟨?_, ?_, beq_eq_false_iff_ne.2 hcolon⟩
  · rw [dropAliases_cons hcolon rfl, dropAliases_nil]
  · rw [enclosedAfter_cons, henc, enclosedAfter_nil]

/-- A directive with its parenthesis stays after the directives before it. -/
theorem Hosts.dropAliases_directive {hs : List Head} {h : Head} {d n p : SpacedToken}
    (ho : Hosts hs h w) (hx : BeginsExecutably w) (hv : Derives [list (rule .directive)] v)
    (hd : d.token = .mark "@") (hn : n.token.kind = .name) (hp : p.token = .mark "(") :
    dropAliases false (w ++ (v ++ [d, n, p])) =
        dropAliases false w ++ (dropAliases false v ++ [d, n, p]) ∧
      enclosedAfter false (w ++ (v ++ [d, n, p])) = true := by
  obtain ⟨-, hown⟩ := ho.unaliased hx
  obtain ⟨-, hown'⟩ := dropAliases_directives hv
  have hat : (Token.mark "@").IsSimple := by decide
  obtain ⟨hdrop, hname⟩ := dropAliases_simple (w := [d, n])
    (by simpa [hd] using ⟨hat, Token.isSimple_of_kind hn⟩)
  obtain ⟨hdrop', hopen, hcolon⟩ := dropAliases_parenthesis hp
  have hnp : beginsWithColon ([d, n] ++ [p]) = false := hname.colon
  have hvnp : beginsWithColon (v ++ ([d, n] ++ [p])) = false := by
    rw [beginsWithColon_append, hown'.colon, hnp, ite_self]
  have hsplit : [d, n, p] = [d, n] ++ [p] := rfl
  rw [hsplit]
  refine ⟨?_, ?_⟩
  · rw [hown.dropAliases_append hvnp, hown'.dropAliases_append hnp,
      hname.dropAliases_append hcolon, hdrop, hdrop']
  · rw [enclosedAfter_append, hown.closed, enclosedAfter_append, hown'.closed,
      enclosedAfter_append, hname.closed, hopen]

/-- **Arguments are open without aliases**, those of the same owner. -/
theorem OpensArguments.unaliased {o : ArgumentOwner} (ho : OpensArguments o w)
    (hx : BeginsExecutably w) :
    OpensArguments o (dropAliases false w) ∧ enclosedAfter false w = true := by
  cases ho with
  | @field hs n w z u b ho hz hn hb =>
    obtain ⟨ho', hown⟩ := ho.unaliased hx.of_append
    obtain ⟨hz', hset⟩ := dropAliases_selections hz
    obtain ⟨hn', hown'⟩ := hn.unaliased
    obtain ⟨hdrop, hopen, hcolon⟩ := dropAliases_parenthesis hb
    have hub : beginsWithColon (u ++ [b]) = false := by
      rw [beginsWithColon_append, hown'.colon, hcolon, ite_self]
    have hzub : beginsWithColon (z ++ (u ++ [b])) = false := by
      rw [beginsWithColon_append, hset.colon, hub, ite_self]
    refine ⟨?_, ?_⟩
    · rw [hown.dropAliases_append hzub, hset.dropAliases_append hub,
        hown'.dropAliases_append hcolon, hdrop]
      exact .field ho' hz' hn' hb
    · rw [enclosedAfter_append, hown.closed, enclosedAfter_append, hset.closed,
        enclosedAfter_append, hown'.closed, hopen]
  | directive ho hv hd hn hb =>
    obtain ⟨hdrop, hopen⟩ := ho.dropAliases_directive hx.of_append hv hd hn hb
    rw [hdrop]
    exact ⟨.directive (ho.unaliased hx.of_append).1 (dropAliases_directives hv).1 hd hn hb, hopen⟩

/-- What is in parentheses stays after what opens them. -/
theorem dropAliases_append_enclosed (hw : enclosedAfter false w = true)
    (hv : ∀ x ∈ v, x.token ≠ .mark "(" ∧ x.token ≠ .mark ")") (hc : beginsWithColon v = false) :
    dropAliases false (w ++ v) = dropAliases false w ++ v ∧
      enclosedAfter false (w ++ v) = true := by
  obtain ⟨hdrop, hopen⟩ := dropAliases_enclosed hv
  rw [dropAliases_append hc, enclosedAfter_append, hw, hdrop, hopen]
  exact ⟨rfl, rfl⟩

/-- So do complete assignments there, with the name and the colon of another one. -/
theorem dropAliases_append_assignment {k : RuleKind} {c : SpacedToken}
    (hw : enclosedAfter false w = true) (hk : k = .argument ∨ k = .objectField)
    (hz : Derives [list (rule k)] z) (hx : x.token.kind = .name) (hc : c.token = .mark ":") :
    dropAliases false (w ++ (z ++ [x, c])) = dropAliases false w ++ (z ++ [x, c]) ∧
      enclosedAfter false (w ++ (z ++ [x, c])) = true := by
  have hname := Token.isSimple_of_kind hx
  have hcolon : beginsWithColon z = false := by
    obtain rfl | rfl := hk <;> exact hz.beginsWithColon_eq (by decide) (by decide)
  refine dropAliases_append_enclosed hw (List.forall_mem_append.2 ⟨?_, ?_⟩) ?_
  · obtain rfl | rfl := hk <;> exact hz.ne_parenthesis (by decide)
  · simpa [hc] using ⟨hname.2, by decide⟩
  · rw [beginsWithColon_append, hcolon, beginsWithColon_cons, beq_eq_false_iff_ne.2 hname.1,
      ite_self]

/-- So do complete literals there, with a bracket or a brace. -/
theorem dropAliases_append_opening {spot : LiteralSpot} {b : SpacedToken} {text : String}
    (hw : enclosedAfter false w = true) (hz : spot.Allows z) (hb : b.token = .mark text)
    (ht : (Token.mark text).IsSimple) :
    dropAliases false (w ++ (z ++ [b])) = dropAliases false w ++ (z ++ [b]) ∧
      enclosedAfter false (w ++ (z ++ [b])) = true := by
  obtain ⟨hne, hcolon⟩ : (∀ x ∈ z, x.token ≠ .mark "(" ∧ x.token ≠ .mark ")") ∧
      beginsWithColon z = false := by
    cases hz with
    | value => exact ⟨by simp, rfl⟩
    | item hz =>
      exact ⟨hz.ne_parenthesis (by decide), hz.beginsWithColon_eq (by decide) (by decide)⟩
  refine dropAliases_append_enclosed hw (List.forall_mem_append.2 ⟨hne, ?_⟩) ?_
  · simpa [hb] using ht.2
  · rw [beginsWithColon_append, hcolon, beginsWithColon_cons, hb, beq_eq_false_iff_ne.2 ht.1,
      ite_self]

/-- What goes into a literal stays. -/
theorem GoesInto.dropAliases_append {a : String} {spot : LiteralSpot} {p : List LiteralStep}
    (hw : enclosedAfter false w = true) (hv : GoesInto a spot p v) :
    dropAliases false (w ++ v) = dropAliases false w ++ v ∧
      enclosedAfter false (w ++ v) = true := by
  induction hv with
  | argument hz hx hc => exact dropAliases_append_assignment hw (.inl rfl) hz hx hc
  | list _ hz hb ih | object _ hz hb ih =>
    obtain ⟨hdrop, hopen⟩ := dropAliases_append_opening ih.2 hz hb (by decide)
    rw [← List.append_assoc, hdrop, ih.1, List.append_assoc]
    exact ⟨rfl, hopen⟩
  | field _ hz hx hc ih =>
    obtain ⟨hdrop, hopen⟩ := dropAliases_append_assignment ih.2 (.inr rfl) hz hx hc
    rw [← List.append_assoc, hdrop, ih.1, List.append_assoc]
    exact ⟨rfl, hopen⟩

end QueryAssist
