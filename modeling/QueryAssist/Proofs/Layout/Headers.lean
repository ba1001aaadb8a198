import QueryAssist.Proofs.Grammar.Avoiding
import QueryAssist.Proofs.Layout.Passing
import QueryAssist.Proofs.Open.Spreading

/-! # Fragments among unfinished headers

The header of an operation or a fragment awaits directives and selections. What is typed after it
before they are there fits nowhere, up to the next brace, which begins the selections of the header.
So a header covers what comes right after it: another header is passed over, and a definition
completes the header and is not seen as one itself. Main definitions:

* **`Draft`** — a definition that is complete, or its header alone.
* **`standing`** — the drafts that no header covers.

Main statement: `fragmentHeads_drafts`, of a laid out document of drafts the named fragments are
found that stand. -/

namespace QueryAssist

open Grammar Chain Step Terminal

/-! ### Drafts -/

/-- A **draft** of a definition is complete, or its header without directives and selections. -/
inductive Draft where
  /-- A complete definition. -/
  | complete (v : List SpacedToken)
  /-- A header. -/
  | header (h : Head) (v : List SpacedToken)

namespace Draft

/-- The tokens of a draft. -/
def tokens : Draft → List SpacedToken
  | complete v | header _ v => v

/-- The header that is **left open** after a draft, where one may be open before it. -/
def leaves (o : Option Head) : Draft → Option Head
  | complete _ => none
  | header h _ => some (o.getD h)

end Draft

/-- The drafts that **stand**: no header is open before them. -/
def standing (o : Option Head) : List Draft → List Draft
  | [] => []
  | p :: ps => if o.isNone then p :: standing (p.leaves o) ps else standing (p.leaves o) ps

/-- Whether no variable among some tokens has a default with a brace. -/
def HasPlainVariables (v : List SpacedToken) : Prop :=
  ∀ w, w <:+: v → Derives [rule .variableDefinitions] w → ∀ x ∈ w, x.token ≠ .mark "\x7b"

/-- A draft is **written** where a header may be open: a complete definition, or the words of the
head of one. Where a fragment is open there is no place for variables, so that a brace in their
defaults would be read as that of its selections. -/
inductive Draft.IsWritten (o : Option Head) : Draft → Prop
  /-- A complete definition. -/
  | complete {k : RuleKind} {v : List SpacedToken} (hd : k.isDefinition = true)
      (hv : Derives [rule k] v) (hp : ∀ type, o = some (.fragment type) → HasPlainVariables v) :
      IsWritten o (.complete v)
  /-- A header. -/
  | header {h : Head} {v : List SpacedToken} (hd : h.isDefinition = true) (hv : h.Writes v)
      (hn : ∀ x ∈ v, x.token.kind = .name) : IsWritten o (.header h v)

/-- Drafts that are written one after another. -/
def areWritten (o : Option Head) : List Draft → Prop
  | [] => True
  | p :: ps => p.IsWritten o ∧ areWritten (p.leaves o) ps

/-! ### What fits nowhere after a header -/

section Misfits

variable {k : RuleKind} {ks : List Step} {n t : Option String} {x : Token} {ahead : List Char}

/-- What begins neither directives nor selections. -/
def IsMisfit (x : Token) : Prop :=
  x.IsOutside [.exactly .punctuation "@"] ∧ x.IsOutside [.exactly .punctuation "\x7b"]

/-- A name begins none of the marked parts of a definition. -/
theorem isOutside_of_name (hx : x.kind = .name) (text : String) :
    x.IsOutside [.exactly .punctuation text] := by
  intro m hm
  rw [List.mem_singleton.1 hm]
  simp [Matcher.accepts, hx]

/-- A name begins neither directives nor selections. -/
theorem isMisfit_of_name (hx : x.kind = .name) : IsMisfit x :=
  ⟨isOutside_of_name hx _, isOutside_of_name hx _⟩

/-- A definition is not left for its document: where its selections are awaited, **what fits
nowhere** in it fits nowhere at all. -/
theorem falls_root_of_directives (hks : standard k = some (.steps ks))
    (hd : ks.drop 3 = [list (rule .directive), rule .selectionSet]) (hx : IsMisfit x) :
    Falls x ahead (definitionChain.inside k 3 n t) root := by
  have hlist : Reads (definitionChain.inside k 3 n t) [] [] [.exactly .punctuation "@"]
      (definitionChain.inside k 4 n t) :=
    reads_flexible_nil (s := list (rule .directive)) hks hd rfl rfl rfl (by decide)
      plain_definitionChain
  have hd' : ks.drop 4 = [rule .selectionSet] := by
    rw [← List.drop_drop (i := 1) (j := 3), hd]
    rfl
  have hlast : Falls x ahead (definitionChain.inside k 4 n t)
      (definitionChain.inside k 4 n t).giveUp := by
    obtain ⟨hr, hw⟩ :=
      (standsBefore_inside (n := n) (t := t) hks hd' plain_definitionChain).wanted? x ahead
    exact falls_giveUp rfl hr hw (by decide) rfl hx.2
  have hroot : (definitionChain.inside k 4 n t).giveUp = root := by
    refine (giveUp_inside plain_definitionChain (by rw [hks]; rfl) ?_).trans rfl
    have hl : (Link.opened k 4 n t).rule = some (.steps ks) := hks
    have hstep := currentStep?_place hl hd' false
    exact (congrArg (Option.any Step.isFlexible) hstep).trans rfl
  rw [← hroot]
  exact (hlist.lags _ _ hx.1).trans hlast

/-- So it is before the variables of an operation, for what begins none. -/
theorem falls_root_of_variables {word : String} (hks : standard k = some (.steps (operation word)))
    (hx : IsMisfit x) (ho : x.IsOutside [.exactly .punctuation "("]) :
    Falls x ahead (definitionChain.inside k 2 n t) root := by
  have hdrop : (operation word).drop 2 = optional (rule .variableDefinitions) ::
      list (rule .directive) :: [rule .selectionSet] := rfl
  have hskip : Reads (definitionChain.inside k 2 n t) [] [] [.exactly .punctuation "("]
      (definitionChain.inside k 3 n t) :=
    reads_optional_nil hks hdrop rfl (by decide) plain_definitionChain
  exact (hskip.lags _ _ ho).trans (falls_root_of_directives hks rfl hx)

end Misfits

/-! ### Open headers -/

/-- A chain that some drafts **leave**, with the fragments that were gathered: at the start of a
document, or inside an open header. -/
inductive Chain.Leaves (hs : List FragmentHead) : Option Head → Chain → Prop
  /-- Nothing is open. -/
  | start : Leaves hs none .start
  /-- The keyword of an operation. -/
  | keyword {h : Head} {word : String} {k : RuleKind} (hkey : h.keyword? = some word)
      (hword : definitionOf? word = some k) :
      Leaves hs (some h) (definitionChain.inside k 1 none none)
  /-- The keyword and the name of an operation. -/
  | operation {h : Head} {word : String} {k : RuleKind} (n : Option String)
      (hkey : h.keyword? = some word) (hword : definitionOf? word = some k) :
      Leaves hs (some h) (definitionChain.inside k 2 n none)
  /-- A fragment up to its type. Its head is gathered, if it has a name. -/
  | fragment {type : String} {n t : Option String}
      (hhs : gather hs (Link.opened .fragmentDefinition 3 n t).fragmentHead? = hs) :
      Leaves hs (some (.fragment type)) (fragmentChain 3 n t)

/-- The rule of an operation, from its keyword. -/
theorem Head.steps_of_keyword {h : Head} {word : String} {k : RuleKind}
    (hkey : h.keyword? = some word) (hword : definitionOf? word = some k) :
    standard k = some (.steps (operation word)) ∧ k.isDefinition = true ∧
      k ≠ .fragmentDefinition := by
  obtain ⟨k', hword', h⟩ := exists_operation hkey
  rwa [Option.some.inj (hword.symm.trans hword')]

namespace Chain.Leaves

variable {hs : List FragmentHead} {o : Option Head} {h : Head} {c : Chain} {x : SpacedToken}
  {d u v w rest : List SpacedToken}

/-- A **name** after a header names an operation without one, or else is passed over. -/
theorem exists_collects_name (hc : Leaves hs (some h) c) (hx : x.token.kind = .name)
    (rest : List SpacedToken) : ∃ d, Leaves hs (some h) d ∧ Collects rest c hs [x] d hs := by
  cases hc with
  | @keyword _ word k hkey hword =>
    obtain ⟨hks, hdefn, hne⟩ := Head.steps_of_keyword hkey hword
    have hreads : Reads (definitionChain.inside k 1 none none) [x] ([] ++ rest) []
        (definitionChain.inside k 2 (some x.token.text) none) :=
      reads_body_inside (e := name "def") hks rfl rfl rfl rfl (beq_iff_eq.2 hx)
    have hgathers : Gathers rest (definitionChain.inside k 1 none none) hs [x]
        (definitionChain.inside k 2 (some x.token.text) none) hs :=
      .of_reads_operation hdefn hne hreads .nil
    exact ⟨_, .operation _ hkey hword, hgathers.collects⟩
  | operation n hkey hword =>
    obtain ⟨hks, -, -⟩ := Head.steps_of_keyword hkey hword
    exact ⟨_, .operation n hkey hword, .pass
      (falls_root_of_variables hks (isMisfit_of_name hx) (isOutside_of_name hx _)) .nil⟩
  | fragment hhs =>
    obtain ⟨ks, hks, -, -, hdrop⟩ := fragment_steps
    exact ⟨_, .fragment hhs, .pass (falls_root_of_directives hks hdrop (isMisfit_of_name hx)) .nil⟩

/-- So it is with any number of names. -/
theorem exists_collects_names (hc : Leaves hs (some h) c) (hu : ∀ x ∈ u, x.token.kind = .name)
    (rest : List SpacedToken) : ∃ d, Leaves hs (some h) d ∧ Collects rest c hs u d hs := by
  induction u generalizing c with
  | nil => exact ⟨c, hc, .nil⟩
  | cons x u ih =>
    obtain ⟨hx, hu⟩ := List.forall_mem_cons.1 hu
    obtain ⟨d, hd, hcol⟩ := hc.exists_collects_name hx (u ++ rest)
    obtain ⟨e, he, hcol'⟩ := ih hd hu
    exact ⟨e, he, hcol.append hcol'⟩

/-- What is left of a definition after its names **completes a header**, and gathers nothing. The
variables are those of the operation that is open, or are passed over in a fragment. -/
theorem collects_rest (hc : Leaves hs (some h) c)
    (hd : Derives [optional (rule .variableDefinitions)] d)
    (hv : Derives [list (rule .directive), rule .selectionSet] v)
    (hp : ∀ type, h = .fragment type → ∀ x ∈ d, x.token ≠ .mark "\x7b")
    (hw : LaidOut ((d ++ v) ++ rest)) : Collects rest c hs (d ++ v) .start hs := by
  cases hc with
  | @keyword _ word k hkey hword =>
    obtain ⟨hks, hdefn, hne⟩ := Head.steps_of_keyword hkey hword
    have hnone : (Link.opened k 1 none none).fragmentHead? = none :=
      Link.fragmentHead?_eq_none fun h => hne (Option.some.inj h)
    exact (gathers_inside hdefn hks rfl (.skip (hd.append hv)) (absurd · hne) (by decide)
      (by decide) hw (by rw [hnone]; rfl)).collects
  | @operation _ word k n hkey hword =>
    obtain ⟨hks, hdefn, hne⟩ := Head.steps_of_keyword hkey hword
    have hnone : (Link.opened k 2 n none).fragmentHead? = none :=
      Link.fragmentHead?_eq_none fun h => hne (Option.some.inj h)
    exact (gathers_inside hdefn hks rfl (hd.append hv) (absurd · hne) (by decide) (by decide) hw
      (by rw [hnone]; rfl)).collects
  | @fragment type n t hhs =>
    obtain ⟨ks, hks, -, -, hdrop⟩ := fragment_steps
    -- A fragment has no variables, so what is written for them fits nowhere.
    have hmisfit : ∀ x ∈ d, IsMisfit x.token := fun x hx => by
      refine ⟨hd.isOutside_at x hx, fun m hm => ?_⟩
      rw [List.mem_singleton.1 hm]
      refine Bool.eq_false_iff.2 fun ha => hp type rfl x hx ?_
      simp only [Matcher.accepts, Bool.and_eq_true, beq_iff_eq] at ha
      rw [Token.mark, ← ha.1, ← ha.2]
    rw [List.append_assoc] at hw
    exact (collects_of_falls_root fun x hx _ =>
      falls_root_of_directives hks hdrop (hmisfit x hx)).append
        (gathers_inside rfl hks hdrop hv (by decide) (by decide) (by decide) hw.of_append
          hhs).collects

end Chain.Leaves

/-! ### One draft -/

/-- A definition begins with **names**, which may be missing. Variables may come after them, and
then the directives and selections. -/
theorem Derives.exists_names {k : RuleKind} {w : List SpacedToken} (hd : k.isDefinition = true)
    (h : Derives [.rule k] w) : ∃ u d v, w = u ++ (d ++ v) ∧ (∀ x ∈ u, x.token.kind = .name) ∧
      (d = [] ∨ Derives [.rule .variableDefinitions] d) ∧
      Derives [.list (.rule .directive), .rule .selectionSet] v := by
  -- The operations differ in their keyword only.
  have hoperation : ∀ word, standard k = some (.steps (operation word)) →
      ∃ u d v, w = u ++ (d ++ v) ∧ (∀ x ∈ u, x.token.kind = .name) ∧
        (d = [] ∨ Derives [.rule .variableDefinitions] d) ∧
        Derives [.list (.rule .directive), .rule .selectionSet] v := by
    intro word hks
    obtain ⟨x, w₁, rfl, hx, h₁⟩ := (h.of_rule hks).exists_cons
    obtain ⟨u, w₂, rfl, hu, h₂⟩ := h₁.exists_append_optional
    obtain ⟨d, v, rfl, hd, hv⟩ := h₂.exists_append_optional
    have hname : ∀ y ∈ u, y.token.kind = .name := by
      obtain rfl | hu := hu
      · simp
      · obtain ⟨y, e, rfl, hy, he⟩ := hu.exists_cons
        obtain rfl := he.eq_nil
        simpa using eq_of_beq hy
    have hkind : x.token.kind = .name := by
      rw [word_of_accepts_keyword hx]
      rfl
    exact ⟨x :: u, d, v, rfl, List.forall_mem_cons.2 ⟨hkind, hname⟩, hd, hv⟩
  cases k with
  | query | mutation | subscription => exact hoperation _ rfl
  | shortQuery => exact ⟨[], [], w, rfl, by simp, .inl rfl, .stop (h.of_rule rfl)⟩
  | fragmentDefinition =>
    obtain ⟨x, u, o, y, v, rfl, hx, ho, hy, hu, hv⟩ := h.exists_fragment
    refine ⟨x :: (u ++ [o, y]), [], v, by simp, ?_, .inl rfl, hv⟩
    have hname : ∀ z ∈ u, z.token.kind = .name := by
      obtain rfl | ⟨m, rfl, hm, -⟩ := hu
      · simp
      · simpa using hm
    simpa [hx, ho, hy, or_imp, forall_and, Token.word] using hname
  | _ => cases hd

namespace Chain.Leaves

variable {hs : List FragmentHead} {o : Option Head} {c : Chain} {p : Draft} {ps : List Draft}
  {rest : List SpacedToken}

/-- A draft that **stands** gathers the head of the fragment that it is, if it is one with a
name. -/
theorem exists_collects_standing (hp : p.IsWritten none) (hw : LaidOut (p.tokens ++ rest))
    (hs : List FragmentHead) : ∃ d, Leaves (gather hs (fragmentOf? p.tokens)) (p.leaves none) d ∧
      Collects rest .start hs p.tokens d (gather hs (fragmentOf? p.tokens)) := by
  cases hp with
  | complete hd hv => exact ⟨_, .start, (gathers_definition hd hv hw hs).collects⟩
  | @header h v hd hv hn =>
    -- Only an operation and a fragment have a header, so the other heads drop out.
    cases hv with
    | @operation _ word x u hkey hx hu =>
      obtain ⟨k, hword, hks, hdefn, hne⟩ := Head.exists_operation hkey
      have hreads : Reads .start [x] ([] ++ (u ++ rest)) []
          (definitionChain.inside k 1 none none) := reads_keyword hx hword hks
      have hkeyword : Gathers (u ++ rest) .start hs [x] (definitionChain.inside k 1 none none)
          hs := .of_reads_operation hdefn hne hreads .nil
      have hopen : Leaves hs (some h) (definitionChain.inside k 1 none none) :=
        .keyword hkey hword
      obtain ⟨d, hd, hnames⟩ := hopen.exists_collects_names (List.forall_mem_cons.1 hn).2 rest
      refine ⟨d, ?_⟩
      rw [Draft.tokens, fragmentOf?_operation hkey hx]
      exact ⟨hd, hkeyword.collects.append hnames⟩
    | fragment hx hu ho hy =>
      obtain ⟨n, hhead, hg⟩ := exists_gathers_head ho hy hs hx hu.fragmentName fun z hz =>
        hw.laid z (List.mem_append_left _ hz)
      refine ⟨_, .fragment (n := n) ?_, (hg rest).collects⟩
      rw [hhead]
      exact gather_idem hs _
    | _ => cases hd

/-- A draft that a header **covers** gathers nothing. -/
theorem exists_collects_covered {h : Head} (hc : Leaves hs (some h) c) (hp : p.IsWritten (some h))
    (hw : LaidOut (p.tokens ++ rest)) :
    ∃ d, Leaves hs (p.leaves (some h)) d ∧ Collects rest c hs p.tokens d hs := by
  cases hp with
  | @complete k v hd hv hplain =>
    obtain ⟨u, d, v, rfl, hu, hvars, hv⟩ := hv.exists_names hd
    obtain ⟨b, hb, hnames⟩ := hc.exists_collects_names hu ((d ++ v) ++ rest)
    have hderives : Derives [optional (rule .variableDefinitions)] d := by
      obtain rfl | hvars := hvars
      · exact .skip .nil
      · simpa using Derives.keep hvars .nil
    have hbraces : ∀ type, h = .fragment type → ∀ x ∈ d, x.token ≠ .mark "\x7b" := by
      intro type htype x hx
      obtain rfl | hvars := hvars
      · cases hx
      · exact hplain type (congrArg some htype) d ⟨u, v, by simp⟩ hvars x hx
    rw [Draft.tokens, List.append_assoc] at hw
    exact ⟨_, .start, hnames.append (hb.collects_rest hderives hv hbraces hw.of_append)⟩
  | header _ _ hn => exact hc.exists_collects_names hn rest

/-! ### Some drafts -/

/-- A run over some drafts **collects the fragments that stand**, one after another. -/
theorem exists_collects (hc : Leaves hs o c) (hps : areWritten o ps)
    (hw : LaidOut (ps.flatMap Draft.tokens ++ rest)) :
    ∃ d, Collects rest c hs (ps.flatMap Draft.tokens) d
      ((standing o ps).foldl (fun hs p => gather hs (fragmentOf? p.tokens)) hs) := by
  induction ps generalizing hs o c with
  | nil => exact ⟨c, .nil⟩
  | cons p ps ih =>
    obtain ⟨hp, hps⟩ := hps
    rw [List.flatMap_cons, List.append_assoc] at hw
    rw [List.flatMap_cons, standing]
    cases o with
    | none =>
      cases hc
      obtain ⟨d, hd, hcol⟩ := exists_collects_standing hp hw hs
      obtain ⟨e, hcol'⟩ := ih hd hps hw.of_append
      exact ⟨e, hcol.append hcol'⟩
    | some h =>
      obtain ⟨d, hd, hcol⟩ := hc.exists_collects_covered hp hw
      obtain ⟨e, hcol'⟩ := ih hd hps hw.of_append
      exact ⟨e, hcol.append hcol'⟩

end Chain.Leaves

/-! ### Documents -/

/-- **An unfinished header covers what comes right after it.** Of a laid out document of definitions
and unfinished headers the named fragments are found that stand, complete or not, in order, of each
name the first one: those at the beginning and right after a complete definition. One right after an
unfinished header is not found. -/
theorem fragmentHeads_drafts {lead : List Char} {ps : List Draft}
    (hlead : ∀ c ∈ lead, isSeparator c = true) (hps : areWritten none ps)
    (hw : LaidOut (ps.flatMap Draft.tokens)) :
    fragmentHeads (lead ++ render (ps.flatMap Draft.tokens)) =
      ((standing none ps).filterMap fun p => fragmentOf? p.tokens).eraseDupsBy
        fun a b => a.name == b.name := by
  have hw' : LaidOut (ps.flatMap Draft.tokens ++ []) := by rwa [List.append_nil]
  obtain ⟨d, hcol⟩ := Chain.Leaves.start.exists_collects hps hw'
  rw [fragmentHeads_eq_of_collects hlead hw hcol, foldl_gather]
  exact foldl_addFragment _

/-- A fragment may select one field. -/
theorem derives_fragment_of_field {x m o y b f e : SpacedToken} (hx : x.token = .word "fragment")
    (hm : m.token.kind = .name) (hon : m.token ≠ .word "on") (ho : o.token = .word "on")
    (hy : y.token.kind = .name) (hb : b.token = .mark "\x7b") (hf : f.token.kind = .name)
    (he : e.token = .mark "\x7d") : Derives [rule .fragmentDefinition] [x, m, o, y, b, f, e] := by
  have hfield : Derives [rule .selection] [f] :=
    .answer (a := .field) rfl (by decide) trivial
      (.rule rfl (.terminal (beq_iff_eq.2 hf) (.skip (.stop (.skip .nil)))))
  have hset : Derives [rule .selectionSet] [b, f, e] := by
    refine .rule rfl (.terminal (by rw [hb]; rfl) (.again hfield (.stop (.terminal ?_ .nil))))
    rw [he]
    rfl
  have hname : Derives [terminal ((name "def").butNot [keyword "on"])] [m] :=
    .terminal (accepts_fragmentName hm hon) .nil
  have htype : Derives [terminal (keyword "on"), rule .namedType] [o, y] :=
    .terminal (by rw [ho]; rfl) (.rule rfl (.terminal (beq_iff_eq.2 hy) .nil))
  have htail : Derives [rule .typeCondition, list (rule .directive), rule .selectionSet]
      ([o, y] ++ [b, f, e]) := .construct rfl htype (.stop hset)
  have hnamed := Derives.keep hname htail
  exact .rule rfl (.terminal (by rw [hx]; rfl) hnamed)

/-- Of two fragments after the header of a query the second one is found, and so is one that is not
complete. -/
theorem fragmentHeads_drafts_three :
    ∃ (lead : List Char) (ps : List Draft), lead ++ render (ps.flatMap Draft.tokens) =
        ("query Q\nfragment F on T \x7b a \x7d\n" ++
          "fragment G on T \x7b a \x7d\nfragment H on U").toList ∧
      (∀ c ∈ lead, isSeparator c = true) ∧ areWritten none ps ∧
      LaidOut (ps.flatMap Draft.tokens) ∧
      fragmentHeads (lead ++ render (ps.flatMap Draft.tokens)) = [⟨"G", "T"⟩, ⟨"H", "U"⟩] := by
  let word (text : String) (gap : Char) : SpacedToken := ⟨.word text, [gap]⟩
  let fragment (name : String) : List SpacedToken :=
    [word "fragment" ' ', word name ' ', word "on" ' ', word "T" ' ', ⟨.mark "\x7b", [' ']⟩,
      word "a" ' ', ⟨.mark "\x7d", ['\n']⟩]
  let ps : List Draft := [
    .header .query [word "query" ' ', word "Q" '\n'],
    .complete (fragment "F"),
    .complete (fragment "G"),
    .header (.fragment "U")
      [word "fragment" ' ', word "H" ' ', word "on" ' ', ⟨.word "U", []⟩]]
  have hname : ∀ e : Terminal, ∀ text gap, e.accepts (.word text) = true →
      Derives [terminal e] [word text gap] := fun e text gap h => .terminal h .nil
  have hquery : Head.query.Writes [word "query" ' ', word "Q" '\n'] :=
    .operation rfl rfl (.keep (hname (name "def") "Q" '\n' rfl) (.skip .nil))
  have hfragment := Head.Writes.fragment (x := word "fragment" ' ') (u := [word "H" ' '])
    (o := word "on" ' ') (t := ⟨.word "U", []⟩) rfl
    (.keep (hname ((name "def").butNot [keyword "on"]) "H" ' ' rfl) .nil) rfl rfl
  have hps : areWritten none ps :=
    ⟨.header rfl hquery (by decide),
      .complete rfl (derives_fragment_of_field rfl rfl (by decide) rfl rfl rfl rfl rfl) nofun,
      .complete rfl (derives_fragment_of_field rfl rfl (by decide) rfl rfl rfl rfl rfl) nofun,
      .header rfl hfragment (by decide), trivial⟩
  have hw : LaidOut (ps.flatMap Draft.tokens) := by decide
  have hlead : ∀ c ∈ [], isSeparator c = true := by simp
  refine ⟨[], ps, by decide, hlead, hps, hw, ?_⟩
  rw [fragmentHeads_drafts hlead hps hw]
  decide

/-- After the header of a query **a complete fragment is not found**. -/
theorem fragmentHeads_after_header :
    ∃ ps : List Draft, render (ps.flatMap Draft.tokens) =
        "query Q\nfragment F on T \x7b a \x7d".toList ∧
      areWritten none ps ∧ LaidOut (ps.flatMap Draft.tokens) ∧
      (∃ v, Draft.complete v ∈ ps ∧ fragmentOf? v = some ⟨"F", "T"⟩) ∧
      fragmentHeads (render (ps.flatMap Draft.tokens)) = [] := by
  let query : List SpacedToken := [⟨.word "query", [' ']⟩, ⟨.word "Q", ['\n']⟩]
  let fragment : List SpacedToken :=
    [⟨.word "fragment", [' ']⟩, ⟨.word "F", [' ']⟩, ⟨.word "on", [' ']⟩, ⟨.word "T", [' ']⟩,
      ⟨.mark "\x7b", [' ']⟩, ⟨.word "a", [' ']⟩, ⟨.mark "\x7d", []⟩]
  have hname : Derives [terminal (name "def")] [⟨.word "Q", ['\n']⟩] := .terminal rfl .nil
  have hquery : Head.query.Writes query := .operation rfl rfl (.keep hname (.skip .nil))
  have hfragment : Derives [rule .fragmentDefinition] fragment :=
    derives_fragment_of_field rfl rfl (by decide) rfl rfl rfl rfl rfl
  have hps : areWritten none [.header .query query, .complete fragment] :=
    ⟨.header rfl hquery (by decide), .complete rfl hfragment nofun, trivial⟩
  exact ⟨_, by decide, hps, by decide, ⟨fragment, by simp, by decide⟩, by decide +kernel⟩

end QueryAssist
