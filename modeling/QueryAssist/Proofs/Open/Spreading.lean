import QueryAssist.Proofs.Cursor.Placing
import QueryAssist.Proofs.Layout.Fragments
import QueryAssist.Proofs.Open.Unfinished

/-! # Completing spreads

A spread that is being written stands in the middle of a document. The chain at its dots knows the
definition around it and the type that is selected from. The fragments are found by a scan of the
whole document, which gives up the spread at the brace after it and goes on with the definitions
there. Main definitions:

* **`Head.Begins`** — the tokens of a definition up to the brace of its selections.
* **`UnfinishedDocument`** — a document that breaks off at a spread and goes on after it.

Main statements: `Head.Begins.gathers`, a definition whose set is closed in any way gathers its own
head and nothing else, and `complete_spread`, what is suggested at the dots. -/

namespace QueryAssist

open Grammar Chain Step Terminal

/-- The tokens that **begin a definition**: its head, its directives and the brace of its
selections, or only the brace of a query. -/
inductive Head.Begins : Head → List SpacedToken → Prop
  /-- A query without its keyword. -/
  | shorthand {b : SpacedToken} (hb : b.token = .mark "\x7b") : Begins .query [b]
  /-- An operation or a fragment. -/
  | definition {h : Head} {u v : List SpacedToken} {b : SpacedToken} (hd : h.isDefinition = true)
      (hu : h.Writes u) (hv : Derives [list (rule .directive)] v) (hb : b.token = .mark "\x7b") :
      Begins h (u ++ (v ++ [b]))

variable {h : Head} {hs : List Head} {k : RuleKind} {ks ss : List Step} {s : Step} {i : Nat}
  {n t : Option String} {b d x : SpacedToken} {o v w z rest : List SpacedToken}

/-! ### Definitions with a set that is closed -/

/-- A construct that ends with a selection set is completed when the set is closed, also with
nothing around it. -/
theorem exists_takesAll_closed (hk : standard k = some (.steps ks)) (hd : ks.drop i = ss ++ [s])
    (hs : s.body = rule .selectionSet) (hl : s.isList = false) (ho : isOrderly ss = true)
    (hv : Derives ss v) (hb : b.token = .mark "\x7b")
    (hbar : b.token.IsOutside (allExtensions ss)) (hw : ClosesSet w rest)
    (hlay : LaidOut ((v ++ b :: w) ++ rest)) (n t : Option String) :
    ∃ d, TakesAll rest ⟨.opened k i n t, []⟩ (v ++ b :: w) d ∧ d.top.rule.isNone = true := by
  have hlink : (Link.opened k i n t).rule = some (.steps ks) := hk
  have hplain : ∀ j (a u : Option String), Plain [Link.opened k j a u] := fun j a u l hl => by
    obtain rfl := List.mem_singleton.1 hl
    exact ⟨rfl, rfl⟩
  rw [List.append_assoc] at hlay
  obtain ⟨l, ls, ha, hr⟩ := hv.passes ho (.opened k i n t) [] (b :: w ++ rest) ks [s] i hlink hd
    (hplain i n t) hlay (follows_cons hbar _)
  -- Nothing is around the construct, so only its own labels can be set.
  obtain ⟨a, u, rfl⟩ := ha.head
  obtain rfl : ls = [] := (ha.mono (Nat.le_succ _)).tail.eq_nil
  have hd' : ks.drop (i + ss.length) = [s] := by
    rw [← List.drop_drop, hd, List.drop_left]
  obtain ⟨s₀, ss₀, hs₀⟩ : ∃ s₀ ss₀, ss ++ [s] = s₀ :: ss₀ := List.exists_cons_of_ne_nil (by simp)
  have hbegin : unwind ((Link.opened k i n t).place i false) [] = ⟨.opened k i n t, []⟩ :=
    unwind_place hlink (hd.trans hs₀) false
  let e : Chain := ⟨.opened k (i + ss.length) a u, []⟩
  have hend : unwind (((Link.opened k i n t).relabel a u).place (i + ss.length) false) [] = e :=
    unwind_place (l := (Link.opened k i n t).relabel a u) hk hd' false
  rw [hbegin, hend] at hr
  have hstands : e.StandsBefore [s] := ⟨⟨ks, _, hk, rfl, hd'⟩, hplain _ _ _⟩
  have hset : Reads e [b] (w ++ rest) [] (e.inside .selectionSet 1 none none) :=
    reads_begin hstands hs rfl rfl (by rw [hb]; rfl)
  have hrun := (hr.append_cons (hset.append (hw e hstands.plain)) hbar).takesAll
  refine ⟨_, hrun, ?_⟩
  -- The selection set was the last step.
  have hcomplete : e.top.resume.isComplete = true := isComplete_resume_opened hk hd' hl
  change (unwind e.top.resume []).top.rule.isNone = true
  rw [unwind, if_pos hcomplete]
  rfl

/-- If it is an operation or a fragment, it gathers nothing but the head that was read before. -/
theorem gathers_closed {heads : List FragmentHead} (hdefn : k.isDefinition = true)
    (hk : standard k = some (.steps ks)) (hd : ks.drop i = ss ++ [s])
    (hs : s.body = rule .selectionSet) (hl : s.isList = false) (ho : isOrderly ss = true)
    (hlabel : k = .fragmentDefinition → seqReach (ss ++ [s]) = 0) (hv : Derives ss v)
    (hb : b.token = .mark "\x7b") (hbar : b.token.IsOutside (allExtensions ss))
    (hw : ClosesSet w rest) (hlast : ∀ y ∈ w.getLast?, y.token.kind = .punctuation)
    (hlay : LaidOut ((v ++ b :: w) ++ rest))
    (hheads : gather heads (Link.opened k i n t).fragmentHead? = heads) :
    Gathers rest (definitionChain.inside k i n t) heads (v ++ b :: w) .start heads := by
  obtain ⟨d, hrun, hnone⟩ := exists_takesAll_closed hk hd hs hl ho hv hb hbar hw hlay n t
  have hi : i < ks.length := by
    have := congrArg List.length hd
    rw [List.length_drop, List.length_append, List.length_singleton] at this
    omega
  refine hrun.gathers_frame hdefn hk hi (hd.symm ▸ hlabel) hnone (fun y hy => ?_) hheads
  rw [List.getLast?_append_cons] at hy
  cases w with
  | nil =>
    obtain rfl : b = y := Option.some.inj hy
    rw [hb]
    rfl
  | cons z w => exact hlast y (List.getLast?_cons_cons.symm.trans hy)

/-- The keyword of an operation begins a definition that is no fragment. -/
theorem Head.exists_operation {word : String} (hkey : h.keyword? = some word) :
    ∃ k, definitionOf? word = some k ∧ standard k = some (.steps (operation word)) ∧
      k.isDefinition = true ∧ k ≠ .fragmentDefinition := by
  cases h with
  | query | mutation | subscription =>
    obtain rfl := Option.some.inj hkey
    exact ⟨_, rfl, rfl, rfl, nofun⟩
  | _ => cases hkey

/-- An operation is no fragment. -/
theorem fragmentOf?_operation {word : String} (hkey : h.keyword? = some word)
    (hx : x.token = .word word) (w : List SpacedToken) : fragmentOf? (x :: w) = none := by
  obtain ⟨k, hword, -, -, hne⟩ := Head.exists_operation hkey
  match w with
  | [] | [_] | [_, _] => rfl
  | _ :: _ :: _ :: _ =>
    refine if_neg fun hf => ?_
    obtain rfl := congrArg Token.text (hx.symm.trans hf.1)
    exact hne (Option.some.inj hword).symm

/-- An operation gathers nothing if its set is closed. -/
theorem gathers_operation_closed {word : String} {u : List SpacedToken}
    (hdefn : k.isDefinition = true) (hne : k ≠ .fragmentDefinition)
    (hword : definitionOf? word = some k) (hks : standard k = some (.steps (operation word)))
    (hx : x.token = .word word)
    (hu : Derives [optional (terminal (name "def")), optional (rule .variableDefinitions)] u)
    (hv : Derives [list (rule .directive)] v) (hb : b.token = .mark "\x7b")
    (hw : ClosesSet w rest) (hlast : ∀ y ∈ w.getLast?, y.token.kind = .punctuation)
    (hlay : LaidOut (x :: (u ++ (v ++ b :: w)) ++ rest)) (heads : List FragmentHead) :
    Gathers rest .start heads (x :: (u ++ (v ++ b :: w))) .start heads := by
  have hkeyword : Reads .start [x] ((u ++ (v ++ b :: w)) ++ rest) []
      (definitionChain.inside k 1 none none) := reads_keyword hx hword hks
  have hnone : (Link.opened k 1 none none).fragmentHead? = none :=
    Link.fragmentHead?_eq_none fun h => hne (Option.some.inj h)
  refine .of_reads_operation hdefn hne hkeyword ?_
  rw [← List.append_assoc]
  have hbar : b.token.IsOutside (allExtensions [optional (terminal (name "def")),
      optional (rule .variableDefinitions), list (rule .directive)]) := by
    rw [hb]
    intro m hm
    revert m
    decide +kernel
  refine gathers_closed hdefn hks (i := 1) rfl rfl rfl (by decide +kernel) (absurd · hne)
    (hu.append hv) hb hbar hw hlast ?_ ?_
  · simpa using hlay.of_cons
  · rw [hnone]
    rfl

/-- A definition whose set is closed **gathers its own head**, if it is a fragment with a name. -/
theorem Head.Begins.gathers (ho : h.Begins o) (hw : ClosesSet w rest)
    (hlast : ∀ y ∈ w.getLast?, y.token.kind = .punctuation) (hlay : LaidOut ((o ++ w) ++ rest))
    (heads : List FragmentHead) :
    Gathers rest .start heads (o ++ w) .start (gather heads (fragmentOf? o)) := by
  cases ho with
  -- A shorthand is known by its brace and has no head to gather.
  | @shorthand b hb =>
    have hchoose : Fork.choose .definition b.token (b.ahead (w ++ rest)) = some .shortQuery := by
      rw [hb]
      rfl
    have hin : Gathers rest (definitionChain.inside .shortQuery 0 none none) heads ([] ++ b :: w)
        .start heads :=
      gathers_closed rfl rfl (List.nil_append _).symm rfl rfl rfl nofun .nil hb
        (Token.isOutside_nil _) hw hlast hlay rfl
    exact hin.of_falls (falls_choice standsBefore_start rfl rfl hchoose rfl)
  | @definition h u v b hd hu hv hb =>
    rw [List.append_assoc u, List.append_assoc v] at hlay ⊢
    cases hu with
    | @operation _ word x u hkey hx hu =>
      obtain ⟨k, hword, hks, hdefn, hne⟩ := Head.exists_operation hkey
      have hnone : fragmentOf? (x :: u ++ (v ++ [b])) = none := fragmentOf?_operation hkey hx _
      rw [hnone]
      exact gathers_operation_closed hdefn hne hword hks hx hu hv hb hw hlast hlay heads
    | @fragment x o y u hx hu ho hy =>
      have hname := hu.fragmentName
      have hbar : b.token.IsOutside (allExtensions [list (rule .directive)]) := by
        rw [hb]
        intro m hm
        revert m
        decide +kernel
      have hlaid : LaidOut ((x :: (u ++ [o, y])) ++ ((v ++ b :: w) ++ rest)) := by simpa using hlay
      obtain ⟨ks, hks, -, -, hdrop⟩ := fragment_steps
      have hhead : fragmentOf? (x :: (u ++ [o, y]) ++ (v ++ [b])) =
          fragmentOf? (x :: (u ++ o :: y :: (v ++ b :: w))) := by
        rw [fragmentOf?_condition hname ho, ← fragmentOf?_condition hname ho (v ++ [b])]
        simp
      have hassoc : x :: (u ++ [o, y]) ++ (v ++ ([b] ++ w)) =
          x :: (u ++ o :: y :: (v ++ b :: w)) := by simp
      rw [hhead, hassoc]
      -- The head of a fragment is complete with its type, before the directives.
      refine gathers_fragment_head ho hy heads hx hname
        (fun z hz => hlaid.laid z (List.mem_append_left _ hz)) fun n t heads hheads => ?_
      exact gathers_closed rfl hks hdrop rfl rfl (by decide +kernel) (by decide) hv hb hbar hw hlast
        hlaid.of_append hheads
    | _ => cases hd

/-! ### The chain at the dots -/

/-- The name of the fragment whose definition a link stands for. -/
def Link.fragmentName? (l : Link) : Option String :=
  if l.kind = some .fragmentDefinition then l.name else none

/-- A definition that begins is **read** up to a chain in its set, with its own link, which names
the fragment that it is. -/
theorem Head.Begins.reads (ho : h.Begins o) (hw : LaidOut (o ++ rest)) :
    ∃ c, c.SelectsIn [h] ∧ Reads .start o rest [] c ∧ ∃ D ∈ c.links, D.isDefinition = true ∧
      D.fragmentName? = (fragmentOf? o).map (·.name) := by
  have hmem : ∀ l D, D ∈ l :: D :: definitionChain.links := fun l D =>
    List.mem_cons_of_mem l List.mem_cons_self
  cases ho with
  | shorthand hb =>
    exact ⟨_, .shorthand, reads_shorthand hb, _, hmem _ _, rfl, rfl⟩
  | @definition h u v b hd hu hv hb =>
    have hh := Head.hasSelections_of_isDefinition hd
    rw [List.append_assoc] at hw
    cases hu with
    | @operation _ word x u hkey hx hu =>
      obtain ⟨k, i, n, t, hbuild, hrd⟩ := (Head.Writes.operation hkey hx hu).reads_definition hd hw
        (endsHead_brace hv hb rest).follows
      have hset := hbuild.reads_on hh plain_definitionChain hv hb hw.of_append hrd
      have hnone : fragmentOf? (x :: u ++ (v ++ [b])) = none :=
        fragmentOf?_operation hkey hx _
      -- An operation names no fragment.
      obtain ⟨hdefn, hname⟩ : (Link.opened k (i + 1) n t).isDefinition = true ∧
          (Link.opened k (i + 1) n t).fragmentName? = none := by
        cases hbuild with
        | query | mutation | subscription => exact ⟨rfl, rfl⟩
        | fragment => cases hkey
        | _ => cases hd
      refine ⟨_, .definition hd hbuild, hset, _, hmem _ _, hdefn, ?_⟩
      rw [hnone]
      exact hname
    | @fragment x o y u hx hu ho hy =>
      have hlaid : y.IsLaid := hw.laid y (by simp)
      have hbuild : (Head.fragment y.token.text).Builds _ _ (u.head?.map (·.token.text)) _ :=
        .fragment _ hlaid.text_ne
      have hrd := @reads_fragment x o y u ((v ++ [b]) ++ rest) hx hu ho hy
      have hset := hbuild.reads_on hh plain_definitionChain hv hb hw.of_append
        (hrd.mono (List.nil_subset _))
      have hassoc : x :: (u ++ [o, y]) ++ (v ++ [b]) = x :: (u ++ o :: y :: (v ++ [b])) := by simp
      refine ⟨_, .definition hd hbuild, hset, _, hmem _ _, rfl, ?_⟩
      rw [hassoc]
      obtain rfl | ⟨m, rfl, -, hon⟩ := hu.fragmentName
      · rw [List.nil_append, fragmentOf?_unnamed ho]
        rfl
      · have hsome : fragmentOf? (x :: m :: o :: y :: (v ++ [b])) =
            some ⟨m.token.text, y.token.text⟩ := if_pos ⟨hx, hon⟩
        rw [List.singleton_append, hsome]
        rfl
    | _ => cases hd

/-! ### What can be spread -/

/-- Whether a fragment can be spread, with its type looked up last. -/
theorem any_canSpread (s : Schema) (parent type : Option TypeDef) :
    type.any (Candidates.canSpread s parent) =
      parent.any fun p => p.isComposite && type.any fun t => t.isComposite && s.overlap p t := by
  cases parent <;> cases type <;> simp [Candidates.canSpread, Bool.and_assoc]

/-- A fragment **as a suggestion** for a spread. -/
def FragmentHead.asSpread (f : FragmentHead) : Suggestion :=
  { text := f.name, type := some (.named f.type),
    description := some (.string ("fragment " ++ f.name ++ " on " ++ f.type)) }

/-- Nothing in an option is a name if the option is not that name. -/
theorem all_bne_iff {e : Option String} {n : String} : e.all (· != n) = true ↔ e ≠ some n := by
  cases e <;> simp

/-- The spreads that are suggested are the fragments on a type that overlaps the one selected from,
apart from the fragment around the place. -/
theorem spreads_eq (s : Schema) (parent : Option TypeDef) (ls : List Link)
    (fs : List FragmentHead) :
    Candidates.spreads s parent ls fs =
      (fs.filter fun f => (Candidates.enclosingFragment? ls).all (· != f.name) &&
        (s.type? f.type).any (Candidates.canSpread s parent)).map FragmentHead.asSpread := by
  induction fs with
  | nil => rfl
  | cons f fs ih =>
    rw [Candidates.spreads, List.filterMap_cons, ← Candidates.spreads, List.filter_cons]
    -- A fragment on a type that the schema lacks is left out on both sides.
    cases ht : s.type? f.type with
    | none => simpa using ih
    | some t =>
      have hiff : (Candidates.enclosingFragment? ls ≠ some f.name ∧
          Candidates.canSpread s parent t = true) ↔ ((Candidates.enclosingFragment? ls).all
            (· != f.name) && (some t).any (Candidates.canSpread s parent)) = true := by
        rw [← all_bne_iff, Option.any_some, Bool.and_eq_true]
      by_cases h : Candidates.enclosingFragment? ls ≠ some f.name ∧
          Candidates.canSpread s parent t = true
      · rw [Option.bind_some, if_pos h, if_pos (hiff.1 h), List.map_cons, ← ih,
          Schema.name_of_type? ht]
        rfl
      · rw [Option.bind_some, if_neg h, if_neg (h ∘ hiff.2)]
        exact ih

/-- They are **named** after these fragments. -/
theorem text_spreads (s : Schema) (parent : Option TypeDef) (ls : List Link)
    (fs : List FragmentHead) :
    (Candidates.spreads s parent ls fs).map (·.text) =
      (fs.filter fun f => (Candidates.enclosingFragment? ls).all (· != f.name) &&
        (s.type? f.type).any (Candidates.canSpread s parent)).map (·.name) := by
  rw [spreads_eq, List.map_map]
  rfl

/-- The dots of a spread in the set of some heads are at the position of its name, and the context
is that of their type. -/
theorem Chain.SelectsIn.complete_dots {c : Chain} {document : List Char} {cursor : Cursor}
    (hc : c.SelectsIn hs) (s : Schema)
    (hchain : (cursor.locate document).chain = c.inSelection.inside .fragmentSpread 1 none none)
    (htext : isFilterable (cursor.locate document).text.toList = false) :
    complete s document cursor =
      .ok (Candidates.spreads s (s.baseType? (s.selected hs))
        (c.inSelection.inside .fragmentSpread 1 none none).links (fragmentHeads document)) := by
  have hctx := hc.context s
  have hlinks : TypeContext.ofLinks s (c.inSelection.inside .fragmentSpread 1 none none).links =
      TypeContext.ofLinks s c.links := rfl
  rw [complete_eq_candidates hchain htext nofun rfl (hlinks ▸ hctx.fault), hlinks, candidates,
    hctx.parent]

/-! ### Documents -/

/-- An **unfinished document** breaks off at a spread in the selection sets of some heads: complete
definitions, one with the open sets that ends in the dots and the closing braces, and complete
definitions after it. -/
structure UnfinishedDocument (h : Head) (hs : List Head) where
  /-- The definitions before the open one. -/
  before : List (List SpacedToken)
  /-- The head of the open definition, up to its brace. -/
  opening : List SpacedToken
  /-- The sets that are opened in it. -/
  sets : List SpacedToken
  /-- The selections before the spread. -/
  siblings : List SpacedToken
  /-- The three dots. -/
  dots : SpacedToken
  /-- The closing braces. -/
  braces : List SpacedToken
  /-- The definitions after the open one. -/
  after : List (List SpacedToken)
  complete_before : ∀ v ∈ before, ∃ k : RuleKind, k.isDefinition = true ∧ Derives [rule k] v
  begins : h.Begins opening
  opens : OpensIn hs sets
  complete_siblings : Derives [list (rule .selection)] siblings
  token_dots : dots.token = .mark "..."
  token_braces : ∀ x ∈ braces, x.token = .mark "\x7d"
  length_braces : braces.length = hs.length + 1
  complete_after : ∀ v ∈ after, ∃ k : RuleKind, k.isDefinition = true ∧ Derives [rule k] v

namespace UnfinishedDocument

/-- The tokens of the open definition. -/
def definition (u : UnfinishedDocument h hs) : List SpacedToken :=
  u.opening ++ (u.sets ++ ((u.siblings ++ [u.dots]) ++ u.braces))

/-- The tokens of the document. -/
def tokens (u : UnfinishedDocument h hs) : List SpacedToken :=
  u.before.flatten ++ (u.definition ++ u.after.flatten)

/-- The tokens before the dots. -/
def tokensBefore (u : UnfinishedDocument h hs) : List SpacedToken :=
  u.before.flatten ++ (u.opening ++ (u.sets ++ u.siblings))

/-- The definitions, of the open one only how it begins. -/
def definitions (u : UnfinishedDocument h hs) : List (List SpacedToken) :=
  u.before ++ u.opening :: u.after

variable {u : UnfinishedDocument h hs}

/-- The dots stand before a closing brace. -/
theorem exists_tokens (u : UnfinishedDocument h hs) :
    ∃ x cs, u.braces = x :: cs ∧ x.token = .mark "\x7d" ∧
      u.tokens = u.tokensBefore ++ u.dots :: (x :: cs ++ u.after.flatten) := by
  obtain ⟨x, cs, hbraces⟩ := List.exists_cons_of_length_eq_add_one u.length_braces
  refine ⟨x, cs, hbraces, u.token_braces x (by simp [hbraces]), ?_⟩
  simp [tokens, definition, tokensBefore, hbraces]

/-- The document is read up to the dots, in the set of its heads and in a definition that names the
fragment which it is. -/
theorem exists_takesAll_dots (hw : LaidOut u.tokens) :
    ∃ (c : Chain) (D : Link), c.SelectsIn (h :: hs) ∧ D ∈ c.links ∧ D.isDefinition = true ∧
      D.fragmentName? = (fragmentOf? u.opening).map (·.name) ∧
      TakesAll (u.braces ++ u.after.flatten) .start (u.tokensBefore ++ [u.dots])
        (c.inSelection.inside .fragmentSpread 1 none none) := by
  obtain ⟨x, cs, hbraces, hx, -⟩ := u.exists_tokens
  let rest := u.braces ++ u.after.flatten
  have hlaid : LaidOut (u.before.flatten ++
      (u.opening ++ (u.sets ++ ((u.siblings ++ [u.dots]) ++ rest)))) := by
    simpa [tokens, definition, rest] using hw
  -- The definitions before, the opening of this one, the sets in it and the siblings, in turn.
  have hbefore := (gathers_definitions_before u.complete_before hlaid []).takesAll
  obtain ⟨c, hc, hbegin, D, hD, hdefn, hname⟩ := u.begins.reads hlaid.of_append
  obtain ⟨e, he, hsuffix, hheads, hopen⟩ :=
    u.opens.reads hc.awaitsSelections hlaid.of_append.of_append
  have hrest : rest = x :: (cs ++ u.after.flatten) := by simp [rest, hbraces]
  have hdots : Reads e (u.siblings ++ [u.dots]) rest []
      (e.inSelection.inside .fragmentSpread 1 none none) := by
    have hlast := hlaid.of_append.of_append.of_append
    rw [hrest] at hlast ⊢
    exact reads_dots he u.complete_siblings hlast u.token_dots hx
  have hassoc : u.tokensBefore ++ [u.dots] =
      u.before.flatten ++ (u.opening ++ (u.sets ++ (u.siblings ++ [u.dots]))) := by
    simp [tokensBefore]
  rw [← List.append_assoc u.sets] at hbegin
  refine ⟨e, D, hheads [h] hc, hsuffix.subset hD, hdefn, hname, ?_⟩
  rw [hassoc]
  refine .append ?_ (hbegin.append (hopen.append hdots)).takesAll
  simpa [rest] using hbefore

/-- The open definition **gathers its own head** and nothing else. -/
theorem gathers_definition (hw : LaidOut (u.definition ++ rest)) (heads : List FragmentHead) :
    Gathers rest .start heads u.definition .start (gather heads (fragmentOf? u.opening)) := by
  obtain ⟨x, cs, hbraces, hx, -⟩ := u.exists_tokens
  have hcs : ∀ y ∈ cs, y.token = .mark "\x7d" := fun y hy =>
    u.token_braces y (by simp [hbraces, hy])
  have hlen : cs.length = hs.length := by simpa [hbraces] using u.length_braces
  have hlaid : LaidOut (u.opening ++
      (u.sets ++ ((u.siblings ++ [u.dots]) ++ x :: (cs ++ rest)))) := by
    simpa [definition, hbraces] using hw
  have hsets := hlaid.of_append
  -- The first brace gives up the spread, the others close the sets further out.
  have hinner : ClosesSet ((u.siblings ++ [u.dots]) ++ [x]) (cs ++ rest) :=
    closesSet_dots u.complete_siblings hsets.of_append u.token_dots hx
  have hclose : ClosesSet (u.sets ++ (((u.siblings ++ [u.dots]) ++ [x]) ++ cs)) rest :=
    u.opens.closesSet hinner hlen hcs (by simpa using hsets)
  have hassoc : u.sets ++ (((u.siblings ++ [u.dots]) ++ [x]) ++ cs) =
      u.sets ++ ((u.siblings ++ [u.dots]) ++ u.braces) := by simp [hbraces]
  rw [hassoc] at hclose
  refine u.begins.gathers hclose (fun y hy => ?_) hw heads
  have hy : y ∈ u.braces := by
    rw [hbraces, ← List.append_assoc, List.getLast?_append_cons] at hy
    exact hbraces ▸ List.mem_of_getLast? hy
  rw [u.token_braces y hy]
  rfl

/-- So the document gathers the heads of its definitions, one after another. -/
theorem gathers (hw : LaidOut u.tokens) :
    Gathers [] .start [] u.tokens .start
      (u.definitions.foldl (fun hs v => gather hs (fragmentOf? v)) []) := by
  have hafter : LaidOut (u.definition ++ u.after.flatten) := hw.of_append
  rw [definitions, List.foldl_append, List.foldl_cons]
  have hbefore : LaidOut (u.before.flatten ++ ((u.definition ++ u.after.flatten) ++ [])) := by
    rwa [List.append_nil]
  refine .append (gathers_definitions_before u.complete_before hbefore []) (.append ?_
    (gathers_definitions u.complete_after hafter.of_append _))
  exact gathers_definition (by rwa [List.append_nil]) _

end UnfinishedDocument

/-- **Completing a spread is exact over the whole document**: at the three dots that end the
innermost set of a definition, before the closing braces, the suggestions are the names of the
fragments of all definitions, in order and of each name the first one, whose type is composite and
overlaps the one selected from, apart from the fragment that is being written. -/
theorem complete_spread (s : Schema) {lead : List Char} (u : UnfinishedDocument h hs)
    (hlead : ∀ c ∈ lead, isSeparator c = true) (hw : LaidOut u.tokens) :
    let document := lead ++ render u.tokens
    let cursor := Cursor.atEnd (lead ++ (render u.tokensBefore ++ "...".toList))
    let fragments := (u.definitions.filterMap fragmentOf?).eraseDupsBy fun a b => a.name == b.name
    let parent := s.baseType? (s.selected (h :: hs))
    (complete s document cursor).map (fun ss => ss.map (·.text)) =
      .ok ((fragments.filter fun f => (fragmentOf? u.opening).all (·.name != f.name) &&
        parent.any fun p => p.isComposite &&
          (s.type? f.type).any fun t => t.isComposite && s.overlap p t).map (·.name)) := by
  intro document cursor fragments parent
  -- The scan up to the cursor.
  obtain ⟨c, D, hc, hD, hdefn, hname, hrun⟩ := u.exists_takesAll_dots hw
  obtain ⟨x, cs, hbraces, -, htokens⟩ := u.exists_tokens
  have hlaid : LaidOut (u.tokensBefore ++ u.dots :: (u.braces ++ u.after.flatten)) := by
    rwa [hbraces, ← htokens]
  have hlocate := locate_of_run hlead hlaid hrun (by rw [u.token_dots]; rfl)
  rw [hbraces, ← htokens, u.token_dots] at hlocate
  obtain ⟨hchain, htext, hopen⟩ : (cursor.locate document).chain = _ ∧
    (cursor.locate document).text = "..." ∧ _ := hlocate
  have henclosing : Candidates.enclosingFragment?
      (c.inSelection.inside .fragmentSpread 1 none none).links =
        (fragmentOf? u.opening).map (·.name) := by
    have hmem : D ∈ (c.inSelection.inside .fragmentSpread 1 none none).links :=
      List.mem_cons_of_mem _ (List.mem_cons_of_mem _ hD)
    rw [Candidates.enclosingFragment?, hopen.nested.definitionLink?_eq hmem hdefn]
    exact hname
  -- The scan of the whole document.
  have hheads : fragmentHeads document = fragments :=
    (fragmentHeads_eq_of_gathers hlead hw (u.gathers hw)).trans
      (foldl_gather_fragmentOf? u.definitions)
  rw [hc.complete_dots s hchain (by rw [htext]; decide), hheads]
  refine congrArg Except.ok ((text_spreads s parent _ fragments).trans ?_)
  simp only [henclosing, Option.all_map, any_canSpread]

/-- In a field of a fragment the fragments before and after it on the same type are suggested, not
the fragment itself and not the one on another type. -/
theorem complete_spread_nested :
    ∃ (s : Schema) (lead : List Char)
      (u : UnfinishedDocument (.fragment "User") [.field "friend"]),
      lead ++ render u.tokens =
        ("fragment A on User \x7b name \x7d\n" ++
          "fragment B on User \x7b friend \x7b name ... \x7d \x7d\n" ++
          "fragment C on Query \x7b name \x7d\nfragment D on User \x7b name \x7d\n").toList ∧
      (∀ c ∈ lead, isSeparator c = true) ∧ LaidOut u.tokens ∧
      let document := lead ++ render u.tokens
      let cursor := Cursor.atEnd (lead ++ (render u.tokensBefore ++ "...".toList))
      (complete s document cursor).map (fun ss => ss.map (·.text)) = .ok ["A", "D"] := by
  let s : Schema := {
    query := some "Query",
    types := [
      { name := "Query", body := .object [] [{ name := "name", type := .named "String" }] },
      { name := "User", body := .object [] [{ name := "friend", type := .named "User" }] }] }
  let spaced (t : Token) : SpacedToken := ⟨t, [' ']⟩
  let brace : SpacedToken := spaced (.mark "\x7b")
  let close : SpacedToken := ⟨.mark "\x7d", ['\n']⟩
  let field (name : String) : SpacedToken := spaced (.word name)
  let fragment (name type : String) : List SpacedToken :=
    [spaced (.word "fragment"), spaced (.word name), spaced (.word "on"), spaced (.word type)]
  let definition (name type : String) : List SpacedToken :=
    fragment name type ++ [brace, field "name", close]
  let definitionName : Terminal := (name "def").butNot [keyword "on"]
  have hfield : Derives [rule .selection] [field "name"] :=
    .answer (a := .field) rfl (by decide) trivial
      (Derives.rule rfl (.terminal rfl (.skip (.stop (.skip .nil)))))
  have hset : Derives [rule .selectionSet] [brace, field "name", close] :=
    Derives.rule rfl (.terminal rfl (.again hfield (.stop (.terminal rfl .nil))))
  have hname : ∀ n, definitionName.accepts (.word n) = true →
      Derives [optional (terminal definitionName)] [spaced (.word n)] := fun n hn => by
    simpa using Derives.keep (.terminal (x := spaced (.word n)) hn .nil) .nil
  have hdefn : ∀ n t, definitionName.accepts (.word n) = true →
      ∃ k : RuleKind, k.isDefinition = true ∧ Derives [rule k] (definition n t) := fun n t hn => by
    have htype : Derives [terminal (keyword "on"), rule .namedType]
        [spaced (.word "on"), spaced (.word t)] :=
      .terminal rfl (Derives.rule rfl (.terminal rfl .nil))
    exact ⟨.fragmentDefinition, rfl, Derives.rule rfl
      (.terminal rfl ((hname n hn).append (.construct rfl htype (.stop hset))))⟩
  let u : UnfinishedDocument (.fragment "User") [.field "friend"] := {
    before := [definition "A" "User"]
    opening := fragment "B" "User" ++ ([] ++ [brace])
    sets := [field "friend", brace]
    siblings := [field "name"]
    dots := spaced (.mark "...")
    braces := [spaced (.mark "\x7d"), close]
    after := [definition "C" "Query", definition "D" "User"]
    complete_before := by simpa using hdefn "A" "User" rfl
    begins := .definition rfl (.fragment (t := spaced (.word "User")) rfl (hname "B" rfl) rfl rfl)
      (.stop .nil) rfl
    opens := .cons (z := []) (v := []) (.stop .nil) rfl rfl
      (.field (.plain (x := field "friend") rfl) (.skip .nil)) (.stop .nil) rfl .nil
    complete_siblings := .again hfield (.stop .nil)
    token_dots := rfl
    token_braces := by decide
    length_braces := rfl
    complete_after := by simpa using ⟨hdefn "C" "Query" rfl, hdefn "D" "User" rfl⟩ }
  have hlead : ∀ c ∈ [], isSeparator c = true := by simp
  have hw : LaidOut u.tokens := by
    dsimp only [u, UnfinishedDocument.tokens, UnfinishedDocument.definition]
    decide
  refine ⟨s, [], u, ?_, hlead, hw, (complete_spread s u hlead hw).trans ?_⟩
  · dsimp only [u, UnfinishedDocument.tokens, UnfinishedDocument.definition]
    decide +kernel
  · dsimp only [u, UnfinishedDocument.definitions]
    decide

end QueryAssist
