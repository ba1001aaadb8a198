import QueryAssist.Completion.Fragments
import QueryAssist.Proofs.Chain.Frame
import QueryAssist.Proofs.Open.Construct

/-! # Fragments of laid out definitions

The head of a fragment is complete when the type that it is on is read. From there to the end of the
definition nothing is written on the fragment again, whatever is inside it, and an operation is
never taken for a fragment. Main definitions:

* **`Link.fragmentHead?`** — the head that a link stands for.
* **`Chain.Gathers`** — a run with the heads that are gathered along it.
* **`fragmentOf?`** — the head of a fragment, from the tokens of its definition.

Main statement: `fragmentHeads_render`, of a laid out document of definitions the named fragments
are found, the first of each name, in order. -/

namespace QueryAssist

open Grammar Chain Step Terminal

/-! ### The fragment at a chain -/

/-- The **head** of the fragment that a link stands for, once its name and its type are read. -/
def Link.fragmentHead? (l : Link) : Option FragmentHead :=
  match l.kind, l.name, l.type with
  | some .fragmentDefinition, some n, some t =>
    if n.isEmpty || t.isEmpty then none else some ⟨n, t⟩
  | _, _, _ => none

/-- The fragment around some links is that of their definition, if it is a fragment. -/
theorem FragmentHead.around?_eq (ls : List Link) :
    around? ls = (definitionLink? ls).bind Link.fragmentHead? := rfl

/-- What is not the definition of a fragment has no head. -/
theorem Link.fragmentHead?_eq_none {l : Link} (h : l.kind ≠ some .fragmentDefinition) :
    l.fragmentHead? = none := by
  unfold fragmentHead?
  split
  · next hk _ _ => exact absurd hk h
  · rfl

/-- A link keeps its head if nothing that is left of a fragment can label it. -/
theorem Link.Continues.fragmentHead?_eq {D l : Link} (h : D.Continues l)
    (hD : D.kind = some .fragmentDefinition → D.reach = 0) :
    l.fragmentHead? = D.fragmentHead? := by
  by_cases hk : D.kind = some .fragmentDefinition
  · obtain ⟨hn, ht⟩ := h.labels (hD hk)
    simp only [fragmentHead?, h.kind, hn, ht]
  · rw [fragmentHead?_eq_none hk, fragmentHead?_eq_none (h.kind ▸ hk)]

/-- The operation or fragment among nested links is the only one. -/
theorem Nested.definitionLink?_eq {ls : List Link} {D : Link} (h : Nested ls) (hD : D ∈ ls)
    (hd : D.isDefinition = true) : definitionLink? ls = some D := by
  -- Induction from the outermost link in: no definition stands around another one.
  induction h with
  | @document l r hl =>
    simp only [List.mem_cons, List.not_mem_nil, or_false] at hD
    rcases hD with rfl | rfl
    · simp [Link.isDefinition, hl.kind, RuleKind.isDefinition] at hd
    · cases hd
  | @inside l p ls k r hl hp hs ih =>
    have hopen : openLinks (l :: p :: ls) = l :: openLinks (p :: ls) :=
      List.takeWhile_cons_of_pos (by simp [hl.kind])
    have hfind : definitionLink? (l :: p :: ls) =
        if l.isDefinition then some l else definitionLink? (p :: ls) := by
      rw [definitionLink?, hopen, List.find?_cons]
      unfold Link.isDefinition
      cases l.kind.any RuleKind.isDefinition <;> rfl
    rw [hfind]
    split
    · next hl' =>
      have hnone := (Nested.inside hl hp hs).countP_eq_zero_of_isDefinition hl'
      rcases List.mem_cons.1 hD with rfl | hD
      · rfl
      · exact absurd hd (List.countP_eq_zero.1 hnone D hD)
    · next hl' =>
      refine ih ((List.mem_cons.1 hD).resolve_left ?_)
      rintro rfl
      exact hl' hd

/-- A fragment is not left with an advance that is due unless its definition is. -/
theorem Chain.IsRegular.around?_settle {c : Chain} (h : c.IsRegular)
    (hd : (definitionLink? c.settle.links).isSome) :
    FragmentHead.around? c.links = FragmentHead.around? c.settle.links := by
  cases h with
  | inside h =>
    obtain hs | ⟨e, he, rfl⟩ := h.cases
    · rw [hs.settle_eq]
    · rw [he.settle_defer] at hd ⊢
      obtain ⟨D, hD⟩ := Option.isSome_iff_exists.1 hd
      have hmem : D ∈ (e.advance true).links :=
        (List.takeWhile_sublist _).subset (List.mem_of_find?_eq_some hD)
      have hdefn : D.isDefinition = true := List.find?_some hD
      obtain ⟨ss, hss⟩ := he.advance.steps
      have honward : Onward e (e.advance true) :=
        (onward_advance he.toIsOpen.plain true).resolve_left (by simp [hss])
      obtain ⟨m, hm, i, b, rfl⟩ := honward.exists_mem hmem
      -- The definition was there before the advance, with the same labels.
      obtain ⟨m', hm', hk, hhead⟩ : ∃ m' ∈ e.defer.links, m'.kind = m.kind ∧
          m'.fragmentHead? = m.fragmentHead? := by
        rcases List.mem_cons.1 hm with rfl | hm
        · exact ⟨_, List.mem_cons_self, rfl, rfl⟩
        · exact ⟨m, List.mem_cons_of_mem _ hm, rfl, rfl⟩
      have hdefn' : m'.isDefinition = true := by
        rw [Link.isDefinition, hk]
        exact hdefn
      rw [FragmentHead.around?_eq, FragmentHead.around?_eq, hD,
        h.nested.definitionLink?_eq hm' hdefn']
      exact hhead
  | outside h ha hk =>
    rw [(h.isSettled ha).settle_enter]
    rcases hk with rfl | rfl <;> rfl

/-! ### Gathering -/

/-- Some fragments with what a chain stands at, if it is a fragment. -/
def gather (hs : List FragmentHead) (o : Option FragmentHead) : List FragmentHead :=
  match o with
  | some h => addFragment hs h
  | none => hs

/-- To gather a fragment twice is to gather it once. -/
theorem gather_idem (hs : List FragmentHead) (o : Option FragmentHead) :
    gather (gather hs o) o = gather hs o := by
  cases o with
  | none => rfl
  | some h =>
    have hany : (addFragment hs h).any (·.name == h.name) = true := by
      unfold addFragment
      split
      · assumption
      · simp
    exact if_pos hany

/-- To gather from some places is to add the fragments that are there. -/
theorem foldl_gather {α : Type} (f : α → Option FragmentHead) (xs : List α)
    (hs : List FragmentHead) :
    xs.foldl (fun hs x => gather hs (f x)) hs = (xs.filterMap f).foldl addFragment hs := by
  rw [List.foldl_filterMap]
  congr
  funext hs x
  cases f x <;> rfl

namespace Chain

/-- A run **gathers** the fragments that it stands at after each of its tokens. The fragment is seen
as soon as the token is read, unless the token completes its definition. -/
inductive Gathers (rest : List SpacedToken) :
    Chain → List FragmentHead → List SpacedToken → Chain → List FragmentHead → Prop
  /-- Nothing is left to take. -/
  | nil {c : Chain} {hs : List FragmentHead} : Gathers rest c hs [] c hs
  /-- One token and a run after it. -/
  | cons {c d e : Chain} {x : SpacedToken} {w : List SpacedToken} {hs hs' : List FragmentHead}
      (hx : Takes x (x.ahead (w ++ rest)) c d)
      (hd : (definitionLink? d.links).isSome ∨ x.token.kind = .punctuation)
      (h : Gathers rest d (gather hs (FragmentHead.around? d.links)) w e hs') :
      Gathers rest c hs (x :: w) e hs'

namespace Gathers

variable {c d e : Chain} {x : SpacedToken} {v w rest : List SpacedToken}
  {hs hs₁ hs₂ : List FragmentHead}

/-- A run that gathers fragments is a run. -/
theorem takesAll (h : Gathers rest c hs w d hs₁) : TakesAll rest c w d := by
  induction h with
  | nil => exact .nil
  | cons hx _ _ ih => exact .cons hx ih

/-- Two runs that gather fragments, one after the other, gather those of both. -/
theorem append (h : Gathers (w ++ rest) c hs v d hs₁) (h' : Gathers rest d hs₁ w e hs₂) :
    Gathers rest c hs (v ++ w) e hs₂ := by
  induction h with
  | nil => exact h'
  | cons hx hd _ ih =>
    rw [← List.append_assoc] at hx
    exact .cons hx hd (ih h')

/-- A run may begin at a chain that falls to its first one. -/
theorem of_falls (h : Gathers rest d hs (x :: w) e hs₁)
    (hf : Falls x.token (x.ahead (w ++ rest)) c d) : Gathers rest c hs (x :: w) e hs₁ := by
  cases h with
  | cons hx hd h => exact .cons (hx.of_falls hf) hd h

/-- One token that is read without a lag is gathered from. -/
theorem of_reads (h : Reads c [x] (w ++ rest) [] d) (hd : (definitionLink? d.links).isSome)
    (h' : Gathers rest d (gather hs (FragmentHead.around? d.links)) w e hs₁) :
    Gathers rest c hs (x :: w) e hs₁ := by
  obtain ⟨b, hr, -, hb⟩ := h
  obtain rfl := hb rfl
  obtain ⟨m, hx, hr⟩ := hr.exists_of_cons
  obtain rfl := hr.eq_of_nil
  exact .cons hx (.inl hd) h'

end Gathers

end Chain

namespace Scan

/-- A scan **gathers** what the run that it traces gathers. -/
theorem Traces.foldl_gather {ts : List PlacedToken} {c d e : Chain} {w : List SpacedToken}
    {hs hs' : List FragmentHead} (h : Traces ts c w d) (hg : Gathers [] c.settle hs w e hs')
    (hn : gather hs (FragmentHead.around? c.settle.links) = hs) :
    ts.foldl (fun hs t => gather hs (FragmentHead.around? t.chain.links)) hs = hs' := by
  -- Induction on the trace; a gap leaves the settled chain, and a token is the next one of the run.
  induction h generalizing hs with
  | nil =>
    cases hg
    rfl
  | gap hc ht _ _ ih =>
    have hset := hc.settle.settle_eq
    rw [List.foldl_cons, ht, hn]
    refine ih ?_ ?_
    · rwa [ht, hset]
    · rwa [ht, hset]
  | @token c d t ts x w hc hx _ _ hp _ h ih =>
    cases hg with
    | cons hx' hd hg =>
      rw [List.append_nil] at hx'
      obtain rfl := hc.settle.toIsOpen.takes_unique hx hx'
      have hseen : FragmentHead.around? t.chain.links =
          FragmentHead.around? t.chain.settle.links := by
        rcases hd with hd | hd
        · exact h.isRegular.around?_settle hd
        · rw [← hp hd]
      rw [List.foldl_cons, hseen]
      exact ih hg (gather_idem _ _)

end Scan

/-! ### Definitions -/

/-- Operations and fragments are definitions that end with a closing brace and do not go on after
it. They label nothing around them. -/
theorem RuleKind.of_isDefinition {k : RuleKind} (h : k.isDefinition = true) :
    k ∈ Fork.answers .definition ∧ k.reach = 0 ∧ k.extensions = [] ∧
      k.closings = [.exactly .punctuation "\x7d"] := by
  have hall : RuleKind.all.all (fun k => !k.isDefinition ||
      decide (k ∈ Fork.answers .definition ∧ k.reach = 0 ∧ k.extensions = [] ∧
        k.closings = [.exactly .punctuation "\x7d"])) = true := by decide
  have := List.all_eq_true.1 hall k (mem_all k)
  simpa [h] using this

/-- An operation or a fragment is a sequence of some steps. -/
theorem RuleKind.exists_steps_of_isDefinition {k : RuleKind} (h : k.isDefinition = true) :
    ∃ s ss, standard k = some (.steps (s :: ss)) := by
  cases k <;> first | exact ⟨_, _, rfl⟩ | cases h

section Definitions

variable {k : RuleKind} {ks ss : List Step} {s : Step} {i : Nat} {n t : Option String}
  {v w rest : List SpacedToken} {hs : List FragmentHead}

/-- The chain inside a definition is open. -/
theorem isOpen_definitionChain : definitionChain.IsOpen := by
  have hstart : Chain.start.IsOpen := isRegular_start.settle.toIsOpen
  exact hstart.enter (k := .definition) ⟨_, rfl, List.mem_singleton_self _⟩ rfl

/-- A chain that grows from a definition belongs to it. -/
theorem Chain.GrowsFrom.exists_definitionLink? {c : Chain} {D : Link} {ps : List Link}
    (h : c.GrowsFrom D) (ho : (c.within ps).IsOpen) (hdefn : D.isDefinition = true) :
    ∃ l, D.Continues l ∧ definitionLink? (c.within ps).links = some l := by
  obtain ⟨l, hl, hcont⟩ := h
  have hmem : l ∈ c.links ++ ps := List.mem_append_left _ (List.mem_of_getLast? hl)
  refine ⟨l, hcont, ho.nested.definitionLink?_eq hmem ?_⟩
  rw [Link.isDefinition, hcont.kind]
  exact hdefn

/-- A run inside a definition gathers nothing but the head of the definition. -/
theorem Chain.TakesAll.gathers {c d : Chain} {D p : Link} {ps : List Link}
    (h : TakesAll rest c w d) (hd : d.top.rule.isNone = true) (ho : (c.within (p :: ps)).IsOpen)
    (hc : c.GrowsFrom D) (hD : D.reach ≤ 1) (hdefn : D.isDefinition = true)
    (hlabel : D.kind = some .fragmentDefinition → D.reach = 0)
    (hlast : ∀ y ∈ w.getLast?, y.token.kind = .punctuation)
    (hout : FragmentHead.around? (unwind p.resume ps).links = none)
    (hhs : gather hs D.fragmentHead? = hs) :
    Gathers rest (c.within (p :: ps)) hs w (unwind p.resume ps) hs := by
  induction h with
  | nil =>
    obtain ⟨k, r, hl⟩ := ho.isLive_top
    rw [top_within] at hl
    rw [hl.rule] at hd
    cases hd
  | @cons c m d x w hx h ih =>
    obtain ⟨hx, hm⟩ | ⟨hm, hx⟩ := hx.within ho hc hD
    · have hom := (hx.isSettled ho).toIsOpen
      obtain ⟨l, hcont, hlink⟩ := hm.exists_definitionLink? hom hdefn
      have hhead : FragmentHead.around? (m.within (p :: ps)).links = D.fragmentHead? := by
        rw [FragmentHead.around?_eq, hlink]
        exact hcont.fragmentHead?_eq hlabel
      refine .cons hx (.inl (by rw [hlink]; rfl)) ?_
      rw [hhead, hhs]
      refine ih hd hom hm fun y hy => hlast y ?_
      cases w with
      | nil => cases hy
      | cons z w => exact List.getLast?_cons_cons.trans hy
    · -- The definition is complete, so this is the last token.
      cases h with
      | nil =>
        refine .cons hx (.inr (hlast x rfl)) ?_
        rw [hout]
        exact .nil
      | cons hy => simp [hy.rule_isNone_eq_false] at hm

/-- A token that leads into an operation gathers nothing. -/
theorem Chain.Gathers.of_reads_operation {c e : Chain} {x : SpacedToken}
    {hs' : List FragmentHead} (hdefn : k.isDefinition = true) (hne : k ≠ .fragmentDefinition)
    (h : Reads c [x] (w ++ rest) [] (definitionChain.inside k i n t))
    (h' : Gathers rest (definitionChain.inside k i n t) hs w e hs') :
    Gathers rest c hs (x :: w) e hs' := by
  have hlink : definitionLink? (definitionChain.inside k i n t).links = some (.opened k i n t) :=
    List.find?_cons_of_pos hdefn
  have hnone : FragmentHead.around? (definitionChain.inside k i n t).links = none := by
    rw [FragmentHead.around?_eq, hlink, Option.bind_some,
      Link.fragmentHead?_eq_none fun h => hne (Option.some.inj h)]
  refine .of_reads h (by rw [hlink]; rfl) ?_
  rwa [hnone]

/-- A run that completes an operation or a fragment, apart from what is around it, gathers nothing
there but the head that was read before. -/
theorem Chain.TakesAll.gathers_frame {d : Chain} (hdefn : k.isDefinition = true)
    (hk : standard k = some (.steps ks)) (hi : i < ks.length)
    (hlabel : k = .fragmentDefinition → seqReach (ks.drop i) = 0)
    (hrun : TakesAll rest ⟨.opened k i n t, []⟩ w d) (hd : d.top.rule.isNone = true)
    (hlast : ∀ y ∈ w.getLast?, y.token.kind = .punctuation)
    (hhs : gather hs (Link.opened k i n t).fragmentHead? = hs) :
    Gathers rest (definitionChain.inside k i n t) hs w .start hs := by
  obtain ⟨hmem, hreach, -, -⟩ := RuleKind.of_isDefinition hdefn
  have hopen : (definitionChain.inside k i n t).IsOpen :=
    isOpen_definitionChain.inside ⟨_, rfl, hmem⟩ hk hi
  have hone : (Link.opened k i n t).reach ≤ 1 := by
    obtain ⟨k', r, hl⟩ := hopen.isLive_top
    obtain rfl : k = k' := Option.some.inj hl.kind
    have hle := hl.reach_le
    rwa [hreach] at hle
  have hgrows : Chain.GrowsFrom (.opened k i n t) ⟨.opened k i n t, []⟩ := ⟨_, rfl, .refl _⟩
  refine hrun.gathers hd hopen hgrows hone hdefn (fun hf => ?_) hlast rfl hhs
  rw [Link.reach_of_steps (l := .opened k i n t) hk]
  exact hlabel (Option.some.inj hf)

/-- What completes an operation or a fragment gathers nothing but the head that is read before. -/
theorem gathers_inside (hdefn : k.isDefinition = true) (hk : standard k = some (.steps ks))
    (hd : ks.drop i = s :: ss) (h : Derives (s :: ss) w)
    (hlabel : k = .fragmentDefinition → seqReach (s :: ss) = 0)
    (he : allExtensions (s :: ss) = [])
    (hcl : allClosings (s :: ss) = [.exactly .punctuation "\x7d"]) (hw : LaidOut (w ++ rest))
    (hhs : gather hs (Link.opened k i n t).fragmentHead? = hs) :
    Gathers rest (definitionChain.inside k i n t) hs w .start hs := by
  have ho : isOrderly (s :: ss) = true := hd ▸ isOrderly_drop (isOrderly_of_standard hk) i
  have hi : i < ks.length := by
    have := congrArg List.length hd
    rw [List.length_drop, List.length_cons] at this
    omega
  obtain ⟨d, hrun, hnone⟩ := exists_takesAll_opened hk hd h he hw n t
  refine hrun.gathers_frame hdefn hk hi (hd.symm ▸ hlabel) hnone ?_ hhs
  intro y hy
  obtain ⟨m, hm, ha⟩ := h.endsIn_closings ho y hy
  rw [hcl, List.mem_singleton] at hm
  subst hm
  simp only [Matcher.accepts, Bool.and_eq_true, beq_iff_eq] at ha
  exact ha.1

/-- An operation gathers nothing. -/
theorem gathers_operation (hdefn : k.isDefinition = true) (hne : k ≠ .fragmentDefinition)
    (hv : Derives [.rule k] v) (hw : LaidOut (v ++ rest)) (hs : List FragmentHead) :
    Gathers rest .start hs v .start hs := by
  obtain ⟨hmem, -, hext, hcl⟩ := RuleKind.of_isDefinition hdefn
  obtain ⟨s, ss, hk⟩ := RuleKind.exists_steps_of_isDefinition hdefn
  have hok := isOrderly_of_mem_answers (k := .definition) rfl hmem
  obtain ⟨x, v, rfl⟩ :=
    List.exists_cons_of_ne_nil (hv.ne_nil_of_isBare (isOrderly_cons.1 hok).1 hok)
  have hsuits : k.Suits (x :: v) := by
    cases k <;> trivial
  have hchoose := Fork.choose_eq hmem hsuits hv hok hw (follows_nil rest)
  have hin : Gathers rest (definitionChain.inside k 0 none none) hs (x :: v) .start hs := by
    refine gathers_inside hdefn hk rfl (hv.of_rule hk) (absurd · hne) ?_ ?_ hw ?_
    · rw [← hext]
      exact (extensions_of_steps hk).symm
    · rw [← hcl]
      exact (closings_of_steps hk).symm
    · rw [Link.fragmentHead?_eq_none fun h => hne (Option.some.inj h)]
      rfl
  exact hin.of_falls (falls_choice standsBefore_start rfl rfl hchoose hk)

/-- A keyword is the word that it names. -/
theorem word_of_accepts_keyword {word : String} {x : SpacedToken}
    (h : (keyword word).accepts x.token = true) : x.token = .word word := by
  simp only [Terminal.accepts, keyword, Matcher.accepts, Bool.and_eq_true, beq_iff_eq] at h
  obtain ⟨⟨k, text⟩, g⟩ := x
  obtain ⟨rfl, rfl⟩ : k = .name ∧ text = word := h
  rfl

/-- A name that is not `on` can be that of a fragment. -/
theorem accepts_fragmentName {x : SpacedToken} (hx : x.token.kind = .name)
    (hon : x.token ≠ .word "on") :
    ((name "def").butNot [keyword "on"]).accepts x.token = true := by
  have hnot : (keyword "on").accepts x.token = false :=
    Bool.eq_false_iff.2 fun ha => hon (word_of_accepts_keyword ha)
  rw [Terminal.accepts_butNot, Bool.and_eq_true]
  exact ⟨beq_iff_eq.2 hx, by simp [hnot]⟩

/-- The **name of a fragment** may be missing, and is not the word before its type. -/
theorem Derives.fragmentName {u : List SpacedToken}
    (h : Derives [.optional (.terminal ((name "def").butNot [keyword "on"]))] u) :
    u = [] ∨ ∃ n, u = [n] ∧ n.token.kind = .name ∧ n.token ≠ .word "on" := by
  obtain ⟨u, e, rfl, hu, he⟩ := h.exists_append_optional
  obtain rfl := he.eq_nil
  rw [List.append_nil]
  refine hu.imp id fun hu => ?_
  obtain ⟨n, e, rfl, hn, he⟩ := hu.exists_cons
  obtain rfl := he.eq_nil
  rw [Terminal.accepts_butNot, Bool.and_eq_true] at hn
  refine ⟨n, rfl, eq_of_beq hn.1, fun hon => ?_⟩
  have hnot := hn.2
  rw [hon] at hnot
  cases hnot

/-- The tokens of a **fragment**: the keyword, a name or none, and the type that it is on, before
the directives and selections. -/
theorem Derives.exists_fragment (h : Derives [.rule .fragmentDefinition] v) :
    ∃ x u o y w, v = x :: (u ++ o :: y :: w) ∧ x.token = .word "fragment" ∧
      o.token = .word "on" ∧ y.token.kind = .name ∧
      (u = [] ∨ ∃ n, u = [n] ∧ n.token.kind = .name ∧ n.token ≠ .word "on") ∧
      Derives [.list (.rule .directive), .rule .selectionSet] w := by
  obtain ⟨x, v₁, rfl, hx, h₁⟩ := (h.of_rule rfl).exists_cons
  obtain ⟨u, v₂, rfl, hu, h₂⟩ := h₁.exists_append_optional
  obtain ⟨c, w, rfl, hc, hw⟩ := h₂.exists_append rfl
  have hname : Derives [.optional (.terminal ((name "def").butNot [keyword "on"]))] u := by
    obtain rfl | hu := hu
    · exact .skip .nil
    · simpa using Derives.keep hu .nil
  obtain ⟨o, c₁, rfl, ho, hc₁⟩ := hc.exists_cons
  obtain ⟨m, e, rfl, hm, he⟩ := hc₁.exists_append rfl
  obtain rfl := he.eq_nil
  obtain ⟨y, e, rfl, hy, he⟩ := hm.exists_cons
  obtain rfl := he.eq_nil
  exact ⟨x, u, o, y, w, rfl, word_of_accepts_keyword hx, word_of_accepts_keyword ho,
    eq_of_beq hy, hname.fragmentName, hw⟩

/-- The **head of the fragment** that some tokens define, if they define one with a name. -/
def fragmentOf? : List SpacedToken → Option FragmentHead
  | x :: n :: _ :: t :: _ =>
    if x.token = .word "fragment" ∧ n.token ≠ .word "on" then some ⟨n.token.text, t.token.text⟩
    else none
  | _ => none

/-- A fragment without a name has no head. -/
theorem fragmentOf?_unnamed {x o : SpacedToken} (ho : o.token = .word "on") (w : List SpacedToken) :
    fragmentOf? (x :: o :: w) = none := by
  match w with
  | [] | [_] => rfl
  | _ :: _ :: _ => exact if_neg fun h => h.2 ho

/-- The head of a fragment is read off its tokens up to its type. -/
theorem fragmentOf?_condition {x o y : SpacedToken} {u : List SpacedToken}
    (hu : u = [] ∨ ∃ n, u = [n] ∧ n.token.kind = .name ∧ n.token ≠ .word "on")
    (ho : o.token = .word "on") (w : List SpacedToken) :
    fragmentOf? (x :: (u ++ o :: y :: w)) = fragmentOf? (x :: (u ++ [o, y])) := by
  obtain rfl | ⟨n, rfl, -, -⟩ := hu
  · exact (fragmentOf?_unnamed ho _).trans (fragmentOf?_unnamed ho _).symm
  · rfl

/-- The chain inside a fragment, at a given step and with given labels. -/
abbrev fragmentChain (i : Nat) (n t : Option String) : Chain :=
  definitionChain.inside .fragmentDefinition i n t

/-- The steps of a fragment, from its name, its type and its directives on. -/
theorem fragment_steps : ∃ ks, standard .fragmentDefinition = some (.steps ks) ∧
    ks.drop 1 = optional (terminal ((name "def").butNot [keyword "on"])) ::
      rule .typeCondition :: [list (rule .directive), rule .selectionSet] ∧
    ks.drop 2 = rule .typeCondition :: list (rule .directive) :: [rule .selectionSet] ∧
    ks.drop 3 = [list (rule .directive), rule .selectionSet] := ⟨_, rfl, rfl, rfl, rfl⟩

section Fragment

variable {x o y m : SpacedToken} {u : List SpacedToken} (ho : o.token = .word "on")
  (hy : y.token.kind = .name) (hs : List FragmentHead)

include ho hy

/-- From the type condition on, a fragment gathers the head that is complete with its type. -/
theorem gathers_condition (n : Option String) :
    Gathers rest (fragmentChain 2 n none) hs [o, y] (fragmentChain 3 n (some y.token.text))
      (gather hs (Link.opened .fragmentDefinition 3 n (some y.token.text)).fragmentHead?) := by
  obtain ⟨ks, hks, -, hdrop, hdrop'⟩ := fragment_steps
  let cond : Chain := (fragmentChain 2 n none).inside .typeCondition 1 none none
  have hon : Reads (fragmentChain 2 n none) [o] ([y] ++ rest) [] cond :=
    reads_on hks hdrop rfl plain_definitionChain ho
  have htype : Reads cond [y] ([] ++ rest) [] (fragmentChain 3 n (some y.token.text)) :=
    reads_conditionType hks hdrop rfl plain_definitionChain hy
  -- Without the type the head is not complete.
  have hnone : FragmentHead.around? cond.links = none := by
    cases n <;> rfl
  refine .of_reads hon rfl ?_
  rw [hnone]
  exact .of_reads htype rfl .nil

/-- A fragment without a name gathers nothing. -/
theorem gathers_unnamed :
    Gathers rest (fragmentChain 1 none none) hs [o, y] (fragmentChain 3 none (some y.token.text))
      hs := by
  obtain ⟨ks, hks, hdrop, -, -⟩ := fragment_steps
  -- The name is missing, which shows at the word `on`.
  have hskip : Reads (fragmentChain 1 none none) [] rest _ (fragmentChain 2 none none) :=
    reads_optional_nil hks hdrop rfl (by decide) plain_definitionChain
  refine (gathers_condition ho hy hs none).of_falls (hskip.lags _ _ fun m hm => ?_)
  rw [ho]
  revert m
  decide

/-- A fragment with a name gathers its name and its type. -/
theorem gathers_named (hm : m.token.kind = .name) (hon : m.token ≠ .word "on") :
    Gathers rest (fragmentChain 1 none none) hs [m, o, y]
      (fragmentChain 3 (some m.token.text) (some y.token.text))
      (gather hs (Link.opened .fragmentDefinition 3 (some m.token.text)
        (some y.token.text)).fragmentHead?) := by
  obtain ⟨ks, hks, hdrop, -, -⟩ := fragment_steps
  have hreads : Reads (fragmentChain 1 none none) [m] ([o, y] ++ rest) []
      (fragmentChain 2 (some m.token.text) none) :=
    reads_body_inside hks hdrop rfl rfl rfl (accepts_fragmentName hm hon)
  exact .of_reads hreads rfl (gathers_condition ho hy hs (some m.token.text))

/-- A fragment is read up to its directives, and has **gathered its head** there, if it has a
name. -/
theorem exists_gathers_head (hx : x.token = .word "fragment")
    (hu : u = [] ∨ ∃ n, u = [n] ∧ n.token.kind = .name ∧ n.token ≠ .word "on")
    (hw : ∀ z ∈ x :: (u ++ [o, y]), z.IsLaid) :
    ∃ n, (Link.opened .fragmentDefinition 3 n (some y.token.text)).fragmentHead? =
        fragmentOf? (x :: (u ++ [o, y])) ∧
      ∀ rest, Gathers rest .start hs (x :: (u ++ [o, y])) (fragmentChain 3 n (some y.token.text))
        (gather hs (fragmentOf? (x :: (u ++ [o, y])))) := by
  have hkeyword : ∀ w, Reads .start [x] w [] (fragmentChain 1 none none) :=
    fun w => reads_keyword hx rfl rfl
  obtain rfl | ⟨m, rfl, hm, hon⟩ := hu
  · rw [List.nil_append, fragmentOf?_unnamed ho]
    exact ⟨none, rfl, fun rest => .of_reads (hkeyword _) rfl (gathers_unnamed ho hy hs)⟩
  · have hsome : fragmentOf? (x :: ([m] ++ [o, y])) = some ⟨m.token.text, y.token.text⟩ :=
      if_pos ⟨hx, hon⟩
    have hlaidm : m.IsLaid := hw m (by simp)
    have hlaidy : y.IsLaid := hw y (by simp)
    have hhead : (Link.opened .fragmentDefinition 3 (some m.token.text)
        (some y.token.text)).fragmentHead? = some ⟨m.token.text, y.token.text⟩ :=
      if_neg (by simp [hlaidm.text_ne, hlaidy.text_ne])
    rw [hsome, ← hhead]
    exact ⟨some m.token.text, rfl,
      fun rest => .of_reads (hkeyword _) rfl (gathers_named ho hy hs hm hon)⟩

/-- What completes a fragment whose head was gathered gathers nothing else. -/
theorem gathers_fragment_head {w : List SpacedToken} (hx : x.token = .word "fragment")
    (hu : u = [] ∨ ∃ n, u = [n] ∧ n.token.kind = .name ∧ n.token ≠ .word "on")
    (hw : ∀ z ∈ x :: (u ++ [o, y]), z.IsLaid)
    (htail : ∀ (n t : Option String) (hs : List FragmentHead),
      gather hs (Link.opened .fragmentDefinition 3 n t).fragmentHead? = hs →
        Gathers rest (fragmentChain 3 n t) hs w .start hs) :
    Gathers rest .start hs (x :: (u ++ o :: y :: w)) .start
      (gather hs (fragmentOf? (x :: (u ++ o :: y :: w)))) := by
  obtain ⟨n, hhead, hg⟩ := exists_gathers_head ho hy hs hx hu hw
  have hrest := htail n (some y.token.text) (gather hs (fragmentOf? (x :: (u ++ [o, y])))) (by
    rw [hhead]
    exact gather_idem hs _)
  have hassoc : x :: (u ++ o :: y :: w) = x :: (u ++ [o, y]) ++ w := by simp
  rw [fragmentOf?_condition hu ho, hassoc]
  exact (hg (w ++ rest)).append hrest

end Fragment

/-- So does a complete fragment. -/
theorem gathers_fragment (hv : Derives [.rule .fragmentDefinition] v) (hw : LaidOut (v ++ rest))
    (hs : List FragmentHead) : Gathers rest .start hs v .start (gather hs (fragmentOf? v)) := by
  obtain ⟨x, u, o, y, w, rfl, hx, ho, hy, hu, htail⟩ := hv.exists_fragment
  have hw' : LaidOut ((x :: u ++ [o, y]) ++ (w ++ rest)) := by simpa using hw
  obtain ⟨ks, hks, -, -, hdrop⟩ := fragment_steps
  refine gathers_fragment_head ho hy hs hx hu
    (fun z hz => hw'.laid z (List.mem_append_left _ hz)) fun n t hs hhs => ?_
  exact gathers_inside rfl hks hdrop htail (by decide) (by decide) (by decide) hw'.of_append hhs

/-- A definition gathers the head of the fragment that it is, if it is one with a name. -/
theorem gathers_definition (hdefn : k.isDefinition = true) (hv : Derives [.rule k] v)
    (hw : LaidOut (v ++ rest)) (hs : List FragmentHead) :
    Gathers rest .start hs v .start (gather hs (fragmentOf? v)) := by
  by_cases hk : k = .fragmentDefinition
  · subst hk
    exact gathers_fragment hv hw hs
  · -- Another definition does not begin with the keyword of a fragment.
    have hnone : fragmentOf? v = none := by
      unfold fragmentOf?
      split
      · next x n o t w =>
        refine if_neg fun h => hk ?_
        have hmem := (RuleKind.of_isDefinition hdefn).1
        have hok := isOrderly_of_mem_answers (k := .definition) rfl hmem
        have hhead := hv.head_mem_openings hok
        rw [seqOpenings_singleton] at hhead
        have hkey := definitionOf?_eq hmem hhead
        rw [h.1] at hkey
        exact (Option.some.inj hkey).symm
      · rfl
    rw [hnone]
    exact gathers_operation hdefn hk hv hw hs

/-- Definitions gather the heads of the fragments among them, one after another, whatever comes
after them. -/
theorem gathers_definitions_before {vs : List (List SpacedToken)}
    (hv : ∀ v ∈ vs, ∃ k : RuleKind, k.isDefinition = true ∧ Derives [.rule k] v)
    (hw : LaidOut (vs.flatten ++ rest)) (hs : List FragmentHead) :
    Gathers rest .start hs vs.flatten .start
      (vs.foldl (fun hs v => gather hs (fragmentOf? v)) hs) := by
  induction vs generalizing hs with
  | nil => exact .nil
  | cons v vs ih =>
    obtain ⟨⟨k, hdefn, hk⟩, hvs⟩ := List.forall_mem_cons.1 hv
    rw [List.flatten_cons] at hw ⊢
    rw [List.append_assoc] at hw
    exact (gathers_definition hdefn hk hw hs).append (ih hvs hw.of_append _)

/-- So do all the definitions of a document. -/
theorem gathers_definitions {vs : List (List SpacedToken)}
    (hv : ∀ v ∈ vs, ∃ k : RuleKind, k.isDefinition = true ∧ Derives [.rule k] v)
    (hw : LaidOut vs.flatten) (hs : List FragmentHead) :
    Gathers [] .start hs vs.flatten .start
      (vs.foldl (fun hs v => gather hs (fragmentOf? v)) hs) :=
  gathers_definitions_before hv (by rwa [List.append_nil]) hs

end Definitions

/-! ### Documents -/

/-- To add one fragment after another is to keep the first one of each name. -/
theorem foldl_addFragment (hs : List FragmentHead) :
    hs.foldl addFragment [] = hs.eraseDupsBy fun a b => a.name == b.name := by
  have hloop : ∀ (hs kept : List FragmentHead), hs.foldl addFragment kept.reverse =
      List.eraseDupsBy.loop (fun a b => a.name == b.name) hs kept := by
    intro hs
    induction hs with
    | nil => intro kept; rfl
    | cons h hs ih =>
      intro kept
      have hany : kept.reverse.any (·.name == h.name) = kept.any (h.name == ·.name) := by
        rw [List.any_reverse]
        exact congrArg kept.any (funext fun a => BEq.comm)
      rw [List.foldl_cons, addFragment, hany, List.eraseDupsBy.loop]
      cases kept.any (h.name == ·.name) with
      | true => exact ih kept
      | false => exact (congrArg (List.foldl addFragment · hs) (by simp)).trans (ih (h :: kept))
  exact hloop hs []

/-- The fragments of a laid out document are those that a run over it gathers. -/
theorem fragmentHeads_eq_of_gathers {lead : List Char} {w : List SpacedToken} {d : Chain}
    {hs : List FragmentHead} (hlead : ∀ c ∈ lead, isSeparator c = true) (hw : LaidOut w)
    (h : Gathers [] .start [] w d hs) : fragmentHeads (lead ++ render w) = hs := by
  have htraces := Scan.traces_tokens hlead hw h.takesAll
  rw [← htraces.foldl_gather h rfl]
  exact (foldl_gather (fun t : PlacedToken => FragmentHead.around? t.chain.links) _ _).symm

/-- To gather from definitions is to keep the first fragment of each name. -/
theorem foldl_gather_fragmentOf? (vs : List (List SpacedToken)) :
    vs.foldl (fun hs v => gather hs (fragmentOf? v)) [] =
      (vs.filterMap fragmentOf?).eraseDupsBy fun a b => a.name == b.name :=
  (foldl_gather fragmentOf? vs []).trans (foldl_addFragment _)

/-- **Every fragment is found**: of a laid out document of operations and fragments, the fragments
with a name are those that its definitions begin with, in order, of each name the first one with its
type, whatever their selections hold. -/
theorem fragmentHeads_render {lead : List Char} {vs : List (List SpacedToken)}
    (hlead : ∀ c ∈ lead, isSeparator c = true)
    (hv : ∀ v ∈ vs, ∃ k : RuleKind, k.isDefinition = true ∧ Derives [.rule k] v)
    (hw : LaidOut vs.flatten) :
    fragmentHeads (lead ++ render vs.flatten) =
      (vs.filterMap fragmentOf?).eraseDupsBy fun a b => a.name == b.name := by
  rw [fragmentHeads_eq_of_gathers hlead hw (gathers_definitions hv hw [])]
  exact foldl_gather_fragmentOf? vs

/-- A fragment, a query and another fragment of the same name are such definitions. -/
theorem fragmentHeads_render_twice :
    ∃ (lead : List Char) (vs : List (List SpacedToken)), lead ++ render vs.flatten =
        "fragment A on T \x7b a \x7d\n\x7b a \x7d\nfragment A on U \x7b a \x7d".toList ∧
      (∀ c ∈ lead, isSeparator c = true) ∧
      (∀ v ∈ vs, ∃ k : RuleKind, k.isDefinition = true ∧ Derives [.rule k] v) ∧
      LaidOut vs.flatten ∧
      fragmentHeads (lead ++ render vs.flatten) = [⟨"A", "T"⟩] := by
  let braces (gap : List Char) : List SpacedToken :=
    [⟨.mark "\x7b", [' ']⟩, ⟨.word "a", [' ']⟩, ⟨.mark "\x7d", gap⟩]
  let fragment (type : String) (gap : List Char) : List SpacedToken :=
    [⟨.word "fragment", [' ']⟩, ⟨.word "A", [' ']⟩, ⟨.word "on", [' ']⟩, ⟨.word type, [' ']⟩] ++
      braces gap
  let vs : List (List SpacedToken) := [fragment "T" ['\n'], braces ['\n'], fragment "U" []]
  have hbraces : ∀ gap, Derives [.rule .selectionSet] (braces gap) := fun gap => by
    have hfield : Derives [.rule .selection] [⟨.word "a", [' ']⟩] :=
      .answer (a := .field) rfl (by decide) trivial
        (.rule rfl (.terminal rfl (.skip (.stop (.skip .nil)))))
    exact .rule rfl (.terminal rfl (.again hfield (.stop (.terminal rfl .nil))))
  have hfragment : ∀ type gap, Derives [.rule .fragmentDefinition] (fragment type gap) :=
    fun type gap => by
      have hname : Derives [.terminal ((name "def").butNot [keyword "on"])]
          [⟨.word "A", [' ']⟩] := .terminal rfl .nil
      have htype : Derives [.terminal (keyword "on"), .rule .namedType]
          [⟨.word "on", [' ']⟩, ⟨.word type, [' ']⟩] :=
        .terminal rfl (.rule rfl (.terminal rfl .nil))
      have htail : Derives [.rule .typeCondition, .list (.rule .directive), .rule .selectionSet]
          ([⟨.word "on", [' ']⟩, ⟨.word type, [' ']⟩] ++ braces gap) :=
        .construct rfl htype (.stop (hbraces gap))
      have hnamed := Derives.keep hname htail
      exact .rule rfl (.terminal rfl hnamed)
  have hv : ∀ v ∈ vs, ∃ k : RuleKind, k.isDefinition = true ∧ Derives [.rule k] v := by
    simp only [vs, List.forall_mem_cons]
    exact ⟨⟨_, rfl, hfragment _ _⟩, ⟨.shortQuery, rfl, .rule rfl (hbraces _)⟩,
      ⟨_, rfl, hfragment _ _⟩, by simp⟩
  have hw : LaidOut vs.flatten := by decide
  have hlead : ∀ c ∈ [], isSeparator c = true := by simp
  refine ⟨[], vs, by decide, hlead, hv, hw, ?_⟩
  rw [fragmentHeads_render hlead hv hw]
  decide

end QueryAssist
