import QueryAssist.Proofs.Grammar.Avoiding
import QueryAssist.Proofs.Open.Selected

/-! # Leaving out aliases

Among operations and fragments a colon outside of parentheses stands after an alias only, so that
the aliases can be left out without parsing. Main definition: **`dropAliases`**, some tokens without
the aliases and their colons. Main statement: `Sheds.of_derives`, what is derived is derived without
aliases too. -/

namespace QueryAssist

open Grammar Step Terminal

/-- Whether what comes after a token is **enclosed** in parentheses. -/
def Token.encloses (t : Token) (enclosed : Bool) : Bool :=
  if t = .mark "(" then true else if t = .mark ")" then false else enclosed

/-- Whether what comes after some tokens is enclosed in parentheses. -/
def enclosedAfter (enclosed : Bool) (w : List SpacedToken) : Bool :=
  w.foldl (fun b x => x.token.encloses b) enclosed

/-- Whether some tokens begin with a colon. -/
def beginsWithColon (w : List SpacedToken) : Bool := w.head?.any (·.token == .mark ":")

/-- Some tokens **without aliases**: outside of parentheses every colon is left out, with the token
before it. -/
def dropAliases (enclosed : Bool) : List SpacedToken → List SpacedToken
  | [] => []
  | x :: w =>
    let v := dropAliases (x.token.encloses enclosed) w
    if !enclosed && (x.token == .mark ":" || beginsWithColon w) then v else x :: v

variable {b : Bool} {x y : SpacedToken} {u v w z : List SpacedToken}

/-- No tokens begin with no colon. -/
@[simp] theorem beginsWithColon_nil : beginsWithColon [] = false := rfl

/-- Tokens begin with a colon if the first one is one. -/
@[simp] theorem beginsWithColon_cons (x : SpacedToken) (w : List SpacedToken) :
    beginsWithColon (x :: w) = (x.token == .mark ":") := rfl

/-- Two lists begin as the first one does, unless it is empty. -/
theorem beginsWithColon_append (u w : List SpacedToken) :
    beginsWithColon (u ++ w) = if u = [] then beginsWithColon w else beginsWithColon u := by
  cases u <;> rfl

/-- After no tokens it is as before. -/
@[simp] theorem enclosedAfter_nil (b : Bool) : enclosedAfter b [] = b := rfl

/-- After some tokens it is as the later ones leave what the first one does. -/
@[simp] theorem enclosedAfter_cons (b : Bool) (x : SpacedToken) (w : List SpacedToken) :
    enclosedAfter b (x :: w) = enclosedAfter (x.token.encloses b) w := rfl

/-- So it is after two lists. -/
theorem enclosedAfter_append (b : Bool) (u w : List SpacedToken) :
    enclosedAfter b (u ++ w) = enclosedAfter (enclosedAfter b u) w :=
  List.foldl_append

/-- No tokens have no aliases. -/
@[simp] theorem dropAliases_nil (b : Bool) : dropAliases b [] = [] := rfl

/-- Nothing but aliases is left out. -/
theorem dropAliases_sublist (b : Bool) (w : List SpacedToken) :
    (dropAliases b w).Sublist w := by
  induction w generalizing b with
  | nil => exact .slnil
  | cons x w ih =>
    rw [dropAliases]
    split
    · exact .cons x (ih _)
    · exact .cons_cons x (ih _)

/-- A colon belongs to the token **right before it**, so that parts are left alone by each other. -/
theorem dropAliases_append (h : beginsWithColon w = false) :
    dropAliases b (u ++ w) = dropAliases b u ++ dropAliases (enclosedAfter b u) w := by
  induction u generalizing b with
  | nil => rfl
  | cons x u ih =>
    have hcolon : beginsWithColon (u ++ w) = beginsWithColon u := by
      rw [beginsWithColon_append]
      split
      · next hu => rw [hu, h, beginsWithColon_nil]
      · rfl
    rw [List.cons_append, dropAliases, dropAliases, ih, hcolon]
    split <;> rfl

/-- A token that is no colon and has none after it stays. -/
theorem dropAliases_cons (hx : x.token ≠ .mark ":") (hw : beginsWithColon w = false) :
    dropAliases b (x :: w) = x :: dropAliases (x.token.encloses b) w := by
  rw [dropAliases, hw, beq_eq_false_iff_ne.2 hx]
  simp

/-- In parentheses everything stays. -/
theorem dropAliases_enclosed (h : ∀ x ∈ w, x.token ≠ .mark "(" ∧ x.token ≠ .mark ")") :
    dropAliases true w = w ∧ enclosedAfter true w = true := by
  induction w with
  | nil => exact ⟨rfl, rfl⟩
  | cons x w ih =>
    obtain ⟨ho, hc⟩ := h x List.mem_cons_self
    have hx : x.token.encloses true = true := by
      rw [Token.encloses, if_neg ho, if_neg hc]
    obtain ⟨hw, he⟩ := ih fun y hy => h y (List.mem_cons_of_mem _ hy)
    rw [dropAliases, enclosedAfter, List.foldl_cons, hx]
    exact ⟨congrArg (x :: ·) hw, he⟩

/-- The last token stays, unless it is a colon outside of parentheses. -/
theorem getLast?_dropAliases (h : enclosedAfter b u = true ∨ x.token ≠ .mark ":") :
    (dropAliases b (u ++ [x])).getLast? = some x := by
  induction u generalizing b with
  | nil =>
    have hb : (!b && (x.token == .mark ":" || beginsWithColon [])) = false := by
      obtain rfl | h := h
      · rfl
      · simp [h]
    simp only [List.nil_append, dropAliases, hb]
    rfl
  | cons y u ih =>
    rw [List.cons_append, dropAliases]
    split
    · exact ih h
    · rw [List.getLast?_cons, ih h]
      rfl

/-- So it stays if what comes after it is enclosed. -/
theorem getLast?_dropAliases_of_enclosed (h : enclosedAfter false w = true) :
    (dropAliases false w).getLast? = w.getLast? := by
  obtain rfl | ⟨u, x, rfl⟩ := w.eq_nil_or_concat
  · rfl
  · rw [List.concat_eq_append] at h ⊢
    rw [enclosedAfter_append, enclosedAfter_cons, enclosedAfter_nil] at h
    rw [List.getLast?_concat]
    refine getLast?_dropAliases ?_
    by_cases hx : x.token = .mark ":"
    · rw [hx] at h
      exact .inl h
    · exact .inr hx

/-- Tokens that are laid out are so without aliases. -/
theorem LaidOut.unaliased (h : LaidOut w) (b : Bool) : LaidOut (dropAliases b w) := by
  have hsub := dropAliases_sublist b w
  have hlast : (dropAliases b w).dropLast.Sublist w.dropLast := by
    rw [← List.reverse_sublist, ← List.tail_reverse, ← List.tail_reverse]
    exact hsub.reverse.tail
  exact ⟨fun x hx => h.laid x (hsub.subset hx), fun x hx => h.apart x (hlast.subset hx)⟩

/-! ### What stands in parentheses -/

/-- A token outside of some classes is no mark that one of them is of. -/
theorem Token.IsOutside.ne_mark {t : Token} {ms : List Matcher} {text : String}
    (h : t.IsOutside ms) (hm : .exactly .punctuation text ∈ ms) : t ≠ .mark text := by
  rintro rfl
  have := h _ hm
  simp [Matcher.accepts, Token.mark] at this

/-- What stands in parentheses has none in it. -/
theorem Derives.ne_parenthesis {ss : List Step} (h : Derives ss w)
    (hs : ss.all (Step.avoids RuleKind.isInner parentheses) = true) :
    ∀ x ∈ w, x.token ≠ .mark "(" ∧ x.token ≠ .mark ")" := by
  intro x hx
  have hout := h.isOutside_parentheses hs x hx
  exact ⟨hout.ne_mark (by decide), hout.ne_mark (by decide)⟩

/-- What some steps derive begins with a colon only if one of them does. -/
theorem Derives.beginsWithColon_eq {ss : List Step} (h : Derives ss w) (ho : isOrderly ss = true)
    (hs : Matcher.areApart (seqOpenings ss) [.exactly .punctuation ":"] = true) :
    beginsWithColon w = false := by
  have hf := h.follows_of_areApart ho hs
  cases w with
  | nil => rfl
  | cons x w => exact beq_eq_false_iff_ne.2 ((hf x rfl).ne_mark (List.mem_singleton_self _))

/-! ### What is derived outside of parentheses -/

/-- The constructs that aliases can stand in, and what is around them in operations and
fragments. -/
def RuleKind.isSelected : RuleKind → Bool
  | .shortQuery | .query | .mutation | .subscription | .fragmentDefinition | .selectionSet
  | .selection | .aliasedField | .field | .fragmentSpread | .inlineFragment | .typeCondition
  | .namedType | .directive | .arguments | .variableDefinitions => true
  | _ => false

/-- The constructs that begin and end with a parenthesis. -/
def RuleKind.isEnclosed : RuleKind → Bool
  | .arguments | .variableDefinitions => true
  | _ => false

namespace Step

/-- Whether a step takes a colon. -/
def isColon : Step → Bool
  | terminal e => e.matcher == .exactly .punctuation ":"
  | _ => false

/-- Whether a step takes only what stands in operations and fragments, outside of parentheses. -/
def isSelected : Step → Bool
  | terminal e =>
    Matcher.areApart [e.matcher] parentheses &&
      ((terminal e).isColon || Matcher.areApart [e.matcher] [.exactly .punctuation ":"])
  | rule k => k.isSelected
  | optional s | list s => s.isSelected && !s.isColon && s != rule .aliasedField
  | separated _ _ => false

/-- Whether a step is a token. -/
def isTerminal : Step → Bool
  | terminal _ => true
  | _ => false

/-- A step without an alias. -/
def withoutAlias (s : Step) : Step := if s = rule .aliasedField then rule .field else s

end Step

/-- Whether some steps take only what stands in operations and fragments, outside of parentheses,
and a colon only at their beginning or after a token. -/
def areSelected : List Step → Bool
  | [] => true
  | s :: ss => s.isSelected && (!ss.head?.any isColon || s.isTerminal) && areSelected ss

/-- Some steps **without aliases**, as `dropAliases` leaves them out of tokens. -/
def stepsWithoutAliases : List Step → List Step
  | [] => []
  | s :: ss =>
    if s.isColon || ss.head?.any isColon then stepsWithoutAliases ss
    else s.withoutAlias :: stepsWithoutAliases ss

/-- What it takes for steps to be selected, step by step. -/
theorem areSelected_cons {s : Step} {ss : List Step} :
    areSelected (s :: ss) = true ↔ s.isSelected = true ∧
      (ss.head?.any isColon = false ∨ s.isTerminal = true) ∧ areSelected ss = true := by
  simp [areSelected, and_assoc]

/-- Steps of which neither the first one nor the second one takes a colon stay. -/
theorem stepsWithoutAliases_cons {s : Step} {ss : List Step} (hs : s.isColon = false)
    (hh : ss.head?.any isColon = false) :
    stepsWithoutAliases (s :: ss) = s.withoutAlias :: stepsWithoutAliases ss := by
  rw [stepsWithoutAliases, hs, hh]
  rfl

/-- A construct that is no aliased field stays as a step. -/
theorem stepsWithoutAliases_rule {k : RuleKind} (hk : k ≠ .aliasedField) :
    stepsWithoutAliases [rule k] = [rule k] := by
  rw [stepsWithoutAliases_cons rfl rfl, Step.withoutAlias, if_neg (by simpa using hk)]
  rfl

/-- The steps of a construct that can be selected and is not enclosed. -/
structure AreSelected (k : RuleKind) (ss : List Step) : Prop where
  selected : areSelected ss = true
  head : ss.head?.any isColon = false
  same : k ≠ .aliasedField → stepsWithoutAliases ss = ss

instance (k : RuleKind) (ss : List Step) : Decidable (AreSelected k ss) :=
  decidable_of_iff (areSelected ss = true ∧ ss.head?.any isColon = false ∧
      (k ≠ .aliasedField → stepsWithoutAliases ss = ss))
    ⟨fun ⟨hs, hh, he⟩ => ⟨hs, hh, he⟩, fun h => ⟨h.selected, h.head, h.same⟩⟩

/-- The rules of the constructs that can be selected **are selected**, unless parentheses are around
them. -/
theorem RuleKind.areSelected_of_standard {k : RuleKind} {ss : List Step} (h : k.isSelected = true)
    (he : k.isEnclosed = false) (hk : standard k = some (.steps ss)) : AreSelected k ss := by
  let p (k : RuleKind) (ss : List Step) : Bool :=
    !k.isSelected || (k.isEnclosed || decide (AreSelected k ss))
  have hp : p k ss = true := of_allSteps (by decide) hk
  simpa [p, h, he] using hp

/-- Some steps **shed aliases** from tokens if without its aliases each side derives the other, and
the tokens close their parentheses. -/
structure Sheds (ss : List Step) (w : List SpacedToken) : Prop where
  derives : Derives (stepsWithoutAliases ss) (dropAliases false w)
  closed : enclosedAfter false w = false
  colon : beginsWithColon w = ss.head?.any isColon

/-- A construct in parentheses is left alone. -/
theorem Sheds.isEnclosed {k : RuleKind} (hk : k.isEnclosed = true) (h : Derives [rule k] v) :
    Sheds [rule k] v := by
  obtain ⟨k', hks, hin, ho, ha⟩ : ∃ k', standard k = some (.steps (bracketed "(" k' ")")) ∧
      k'.isInner = true ∧ isOrderly [list (rule k')] = true ∧
      Matcher.areApart (seqOpenings [list (rule k')]) [.exactly .punctuation ":"] = true := by
    cases k with
    | «arguments» => exact ⟨.argument, rfl, rfl, by decide, by decide⟩
    | variableDefinitions => exact ⟨.variableDefinition, rfl, rfl, by decide, by decide⟩
    | _ => cases hk
  obtain ⟨x, w, rfl, hx, hw⟩ := (h.of_rule hks).exists_cons
  obtain ⟨u, w, rfl, hu, hw⟩ := hw.exists_append_list
  obtain ⟨y, e, rfl, hy, he⟩ := hw.exists_cons
  obtain rfl := he.eq_nil
  replace hx := mark_of_accepts rfl hx
  replace hy := mark_of_accepts rfl hy
  obtain ⟨hdrop, hclosed⟩ :=
    dropAliases_enclosed (hu.ne_parenthesis (by simpa [Step.avoids] using hin))
  have hcolon : beginsWithColon [y] = false := by
    rw [beginsWithColon_cons, hy]
    rfl
  have hnext : beginsWithColon (u ++ [y]) = false := by
    rw [beginsWithColon_append, hcolon, hu.beginsWithColon_eq ho ha, ite_self]
  have hopen : x.token.encloses false = true := by
    rw [hx]
    rfl
  -- All between the parentheses is enclosed, so no alias is dropped there.
  have hstay : dropAliases false (x :: (u ++ [y])) = x :: (u ++ [y]) := by
    rw [dropAliases_cons (by rw [hx]; decide) hnext, hopen, dropAliases_append hcolon, hdrop,
      hclosed]
    rfl
  refine ⟨?_, ?_, ?_⟩
  · rwa [hstay, stepsWithoutAliases_rule (by rintro rfl; cases hk)]
  · rw [enclosedAfter_cons, hopen, enclosedAfter_append, hclosed, enclosedAfter_cons, hy]
    rfl
  · rw [beginsWithColon_cons, hx]
    rfl

namespace Sheds

variable {ss ts : List Step} {s : Step}

/-- Without steps and tokens there are no aliases to shed. -/
theorem nil : Sheds [] [] := ⟨.nil, rfl, rfl⟩

/-- A step that takes no colon sheds aliases from its tokens, and those after it from theirs. -/
theorem append (hs : s.isColon = false) (hh : ss.head?.any isColon = false) (hv : Sheds [s] v)
    (hw : Sheds ss w) : Sheds (s :: ss) (v ++ w) := by
  have hcolon : beginsWithColon w = false := hw.colon.trans hh
  refine ⟨?_, ?_, ?_⟩
  · rw [stepsWithoutAliases_cons hs hh, dropAliases_append hcolon, hv.closed]
    have hd := hv.derives
    rw [stepsWithoutAliases_cons hs rfl] at hd
    exact hd.append hw.derives
  · rw [enclosedAfter_append, hv.closed, hw.closed]
  · rw [beginsWithColon_append, hcolon, hv.colon]
    split <;> simp [hs]

/-- A token that is no colon stays, and the one before a colon does not, nor does the colon. -/
theorem terminal {e : Terminal} (hs : areSelected (.terminal e :: ss) = true)
    (he : e.accepts x.token = true) (hw : Sheds ss w) : Sheds (.terminal e :: ss) (x :: w) := by
  obtain ⟨hsel, -, -⟩ := areSelected_cons.1 hs
  simp only [Step.isSelected, Bool.and_eq_true, Bool.or_eq_true] at hsel
  obtain ⟨hparen, hcolon⟩ := hsel
  have hout := Token.isOutside_of_areApart hparen (List.mem_singleton_self _) he
  have henc : x.token.encloses false = false := by
    rw [Token.encloses, if_neg (hout.ne_mark (by decide)), if_neg (hout.ne_mark (by decide))]
  have hx : (x.token == .mark ":") = (Step.terminal e).isColon := by
    rw [Bool.eq_iff_iff, beq_iff_eq]
    refine ⟨fun hx => hcolon.resolve_right fun ha => ?_, fun hc => ?_⟩
    · exact (Token.isOutside_of_areApart ha (List.mem_singleton_self _) he).ne_mark
        (List.mem_singleton_self _) hx
    · exact mark_of_accepts (beq_iff_eq.1 hc) he
  refine ⟨?_, ?_, ?_⟩
  · rw [dropAliases, stepsWithoutAliases, henc, hx, hw.colon, Bool.not_false, Bool.true_and]
    split
    · exact hw.derives
    · exact .terminal he hw.derives
  · rw [enclosedAfter_cons, henc, hw.closed]
  · exact hx

end Sheds

/-- The steps of a construct that is derived from without aliases. -/
theorem Sheds.construct {k : RuleKind} {ks : List Step} (hk : standard k = some (.steps ks))
    (hs : AreSelected k ks) (hv : Sheds ks v) : Sheds [rule k] v := by
  refine ⟨?_, hv.closed, hv.colon.trans hs.head⟩
  by_cases ha : k = .aliasedField
  · subst ha
    obtain rfl := Rule.steps.inj (Option.some.inj hk)
    -- Without its alias and the colon the name of a field stands first.
    obtain ⟨x, w, hw, hx, htail⟩ := hv.derives.exists_cons (e := name "qualifier")
    rw [hw]
    exact .rule (k := .field) rfl (.terminal hx htail)
  · have hd := hv.derives
    rw [hs.same ha] at hd
    rw [stepsWithoutAliases_rule ha]
    exact .rule hk hd

/-- What a step that can be left out or repeated marks sheds aliases too. -/
theorem Step.isSelected_mark {s : Step} (h : (optional s).isSelected = true) :
    areSelected [s] = true ∧ s.isColon = false ∧ s ≠ rule .aliasedField := by
  simp only [Step.isSelected, Bool.and_eq_true, Bool.not_eq_true', bne_iff_ne] at h
  exact ⟨areSelected_cons.2 ⟨h.1.1, .inl rfl, rfl⟩, h.1.2, h.2⟩

/-- One step that is no alias derives its tokens without aliases. -/
theorem Sheds.derives_of_ne {s : Step} (hs : s.isColon = false) (ha : s ≠ rule .aliasedField)
    (hv : Sheds [s] v) : Derives [s] (dropAliases false v) := by
  have hd := hv.derives
  rwa [stepsWithoutAliases_cons hs rfl, Step.withoutAlias, if_neg ha] at hd

/-- The three dots stay that tell how a selection suits a fork, and the name after them. -/
theorem RuleKind.Suits.unaliased {k : RuleKind} (hf : k ∈ Fork.answers .selection)
    (hk : k ≠ .aliasedField) (hs : k.Suits v) (hv : Derives [rule k] v) :
    k.Suits (dropAliases false v) := by
  have hdots : Token.mark "..." ≠ .mark ":" := by decide
  -- An aliased field is set aside, since its alias is what is dropped.
  rcases (by simpa [Fork.answers] using hf :
    k = .inlineFragment ∨ k = .fragmentSpread ∨ k = .aliasedField ∨ k = .field) with
    rfl | rfl | rfl | rfl
  · obtain ⟨x, w, rfl, hx, hw⟩ := (hv.of_rule rfl).exists_cons
    rw [dropAliases_cons (mark_of_accepts rfl hx ▸ hdots)
      (hw.beginsWithColon_eq (by decide) (by decide))]
    exact hs
  · obtain ⟨x, w, rfl, hx, hw⟩ := (hv.of_rule rfl).exists_cons
    obtain ⟨y, w, rfl, hy, hw⟩ := hw.exists_cons
    have hname : y.token ≠ .mark ":" := by
      intro he
      rw [he] at hy
      revert hy
      decide
    have hnext : beginsWithColon (y :: w) = false := beq_eq_false_iff_ne.2 hname
    rw [dropAliases_cons (mark_of_accepts rfl hx ▸ hdots) hnext, dropAliases_cons hname
      (hw.beginsWithColon_eq (by decide) (by decide))]
    exact hs
  · exact absurd rfl hk
  · trivial

/-- A selection is derived without its alias. -/
theorem Sheds.choice {k k' : RuleKind} {f : Fork} (hk : standard k = some (.fork f))
    (hsel : k.isSelected = true) (hf : k' ∈ f.answers) (hs : k'.Suits v)
    (hd : Derives [rule k'] v) (hv : areSelected [rule k'] = true → Sheds [rule k'] v) :
    Sheds [rule k] v := by
  obtain rfl : k = .selection := by
    revert hk hsel
    cases k <;> simp [standard, steps?, RuleKind.isSelected]
  obtain rfl := Rule.fork.inj (Option.some.inj hk)
  have hall : ∀ k ∈ Fork.answers .selection, areSelected [rule k] = true := by decide
  have hshed := hv (hall k' hf)
  refine ⟨?_, hshed.closed, hshed.colon⟩
  by_cases ha : k' = .aliasedField
  · subst ha
    exact .answer (a := .field) rfl (by decide) trivial hshed.derives
  · have hne : rule k' ≠ rule .aliasedField := fun he => ha (Step.rule.inj he)
    exact .answer rfl hf (hs.unaliased hf ha hd) (hshed.derives_of_ne rfl hne)

/-- **What is derived is derived without aliases**: steps of operations and fragments shed the
aliases of the tokens that they derive. -/
theorem Sheds.of_derives {ss : List Step} (h : Derives ss w) (hs : areSelected ss = true) :
    Sheds ss w := by
  -- The induction is on the derivation; only the choice of a selection can lose an alias.
  induction h with
  | nil => exact .nil
  | terminal he _ ih => exact .terminal hs he (ih (areSelected_cons.1 hs).2.2)
  | @construct k ks ss v w hk hv _ ihv ih =>
    obtain ⟨hsel, hnext, hrest⟩ := areSelected_cons.1 hs
    have hv' : Sheds [rule k] v := by
      cases he : k.isEnclosed with
      | true => exact .isEnclosed he (.rule hk hv)
      | false =>
        have hks := RuleKind.areSelected_of_standard hsel he hk
        exact .construct hk hks (ihv hks.selected)
    exact hv'.append rfl (hnext.resolve_right nofun) (ih hrest)
  | @choice k k' f ss v w hk hf hsuits hv _ ihv ih =>
    obtain ⟨hsel, hnext, hrest⟩ := areSelected_cons.1 hs
    exact (Sheds.choice hk hsel hf hsuits hv ihv).append rfl (hnext.resolve_right nofun) (ih hrest)
  | @skip s ss w _ ih =>
    obtain ⟨-, hnext, hrest⟩ := areSelected_cons.1 hs
    have hh := hnext.resolve_right nofun
    have hw := ih hrest
    refine ⟨?_, hw.closed, hw.colon.trans hh⟩
    rw [stepsWithoutAliases_cons rfl hh]
    exact .skip hw.derives
  | @keep s ss v w _ _ ihv ih =>
    obtain ⟨hsel, hnext, hrest⟩ := areSelected_cons.1 hs
    obtain ⟨hs', hcolon, hne⟩ := Step.isSelected_mark hsel
    have hv := ihv hs'
    have hmark : Sheds [optional s] v := by
      refine ⟨?_, hv.closed, hv.colon.trans hcolon⟩
      have hd := Derives.keep (hv.derives_of_ne hcolon hne) .nil
      rwa [List.append_nil] at hd
    exact hmark.append rfl (hnext.resolve_right nofun) (ih hrest)
  | @stop s ss w _ ih =>
    obtain ⟨-, hnext, hrest⟩ := areSelected_cons.1 hs
    have hh := hnext.resolve_right nofun
    have hw := ih hrest
    refine ⟨?_, hw.closed, hw.colon.trans hh⟩
    rw [stepsWithoutAliases_cons rfl hh]
    exact .stop hw.derives
  | @again s ss v w _ _ ihv ih =>
    obtain ⟨hsel, hnext, -⟩ := areSelected_cons.1 hs
    obtain ⟨hs', hcolon, hne⟩ := Step.isSelected_mark hsel
    have hv := ihv hs'
    have hw := ih hs
    have hwc : beginsWithColon w = false := hw.colon
    refine ⟨?_, ?_, ?_⟩
    · have hd := hw.derives
      rw [stepsWithoutAliases_cons rfl (hnext.resolve_right nofun)] at hd ⊢
      rw [dropAliases_append hwc, hv.closed]
      exact .again (hv.derives_of_ne hcolon hne) hd
    · rw [enclosedAfter_append, hv.closed, hw.closed]
    · rw [beginsWithColon_append, hwc, hv.colon, List.head?_cons, Option.any_some, hcolon, ite_self]
      rfl
  | last | next => exact absurd (areSelected_cons.1 hs).1 nofun

end QueryAssist
