import QueryAssist.Proofs.Cursor.Placing
import QueryAssist.Proofs.Open.Selection

/-! # After complete selections

The innermost construct after a complete selection depends on how the selection ended. After a name
or arguments it is the field itself, which may still go on; after braces it is the selection set;
and after a spread it is the spread, which awaits directives. Main definitions:

* **`EndsInDirectiveName`** — tokens that end in a directive without arguments.
* **`Chain.RestsIn`** — the chains after a complete selection.

Main statement: `complete_next_selection`, after complete selections and a blank the fields of the
type that is selected from are suggested, unless the last selection is a spread. -/

namespace QueryAssist

open Grammar Chain Step Terminal

/-! ### Complete constructs -/

/-- The one token of punctuation that a terminal accepts is its mark. -/
theorem mark_of_accepts {e : Terminal} {text : String} {t : Token}
    (he : e.matcher = .exactly .punctuation text) (h : e.accepts t = true) : t = .mark text := by
  rw [Terminal.accepts, he] at h
  simp only [Matcher.accepts, Bool.and_eq_true, beq_iff_eq] at h
  obtain ⟨k, text'⟩ := t
  obtain ⟨rfl, rfl⟩ : k = .punctuation ∧ text' = text := h
  rfl

namespace Derives

/-- The turns of a list stand before what the steps after it derive. -/
theorem exists_append_list {s : Step} {ss : List Step} {w : List SpacedToken}
    (h : Derives (.list s :: ss) w) : ∃ u v, w = u ++ v ∧ Derives [.list s] u ∧ Derives ss v := by
  generalize he : Step.list s :: ss = ts at h
  induction h with
  | stop h =>
    obtain ⟨-, rfl⟩ := List.cons.inj he
    exact ⟨[], _, rfl, .stop .nil, h⟩
  | again hv _ _ ih =>
    obtain ⟨hs, rfl⟩ := List.cons.inj he
    obtain rfl := Step.list.inj hs
    obtain ⟨u, v, rfl, hu, hw⟩ := ih rfl
    exact ⟨_, v, (List.append_assoc _ _ _).symm, .again hv hu, hw⟩
  | _ => cases he

/-- What begins some steps does not go on with what begins with none of their tokens. -/
theorem follows_of_areApart {ss : List Step} {w : List SpacedToken} {ms : List Matcher}
    (h : Derives ss w) (ho : isOrderly ss = true)
    (ha : Matcher.areApart (seqOpenings ss) ms = true) : Follows ms w := by
  intro x hx
  obtain ⟨v, rfl⟩ := List.head?_eq_some_iff.1 hx
  obtain ⟨m, hm, hacc⟩ := h.head_mem_openings ho
  exact Token.isOutside_of_areApart ha hm hacc

end Derives

namespace Chain

variable {c : Chain} {k k' : RuleKind} {ks ts : List Step} {s : Step} {i : Nat}
  {n t : Option String} {v rest : List SpacedToken}

/-- A list that one turn completes awaits the next. -/
theorem StandsBefore.unwind_resume (hc : c.StandsBefore (.list s :: ts)) :
    unwind c.top.resume c.outer = c := by
  obtain ⟨rs, i, hr, hp, hd⟩ := hc.place
  rw [← hp, resume_place_list hr hd, unwind_place hr hd, hp]

/-- A complete construct is left for the list that it is in. -/
theorem StandsBefore.unwind_complete (hc : c.StandsBefore (.list s :: ts)) {l : Link}
    (hl : l.isComplete = true) (ha : l.needsAdvance = false) : unwind l c.links = c :=
  (unwind_cons hl ha hc.plain).trans hc.unwind_resume

/-- A complete selection is left for the set that it is in. -/
theorem AwaitsSelections.unwind_complete (hc : c.AwaitsSelections) {l : Link}
    (hl : l.isComplete = true) (ha : l.needsAdvance = false) :
    unwind l c.inSelection.links = c := by
  obtain ⟨ts, hstands⟩ := hc
  exact (unwind_cons hl ha (plain_inSelection hstands.plain)).trans
    (hstands.unwind_complete rfl rfl)

/-- A construct is complete after its last step. -/
theorem isComplete_resume_opened (hk : standard k = some (.steps ks)) (hd : ks.drop i = [s])
    (hs : s.isList = false) : (Link.opened k i n t).resume.isComplete = true := by
  have hl : (Link.opened k i n t).rule = some (.steps ks) := hk
  have hres : (Link.opened k i n t).resume = (Link.opened k i n t).place (i + 1) false :=
    resume_place hl hd hs false
  have hlen := congrArg List.length hd
  rw [List.length_drop, List.length_singleton] at hlen
  have hle : ks.length ≤ i + 1 := by omega
  rw [hres, Link.isComplete]
  change (standard k).any _ = true
  rw [hk]
  exact decide_eq_true hle

/-- A construct that cannot go on and labels nothing is read inside the one that wants it. -/
theorem reads_construct_inside (hk : standard k = some (.steps ks)) (hd : ks.drop i = s :: ts)
    (hs : s.body = .rule k') (hk' : isOrderly [.rule k'] = true)
    (he : (Step.rule k').extensions = []) (hr : k'.reach = 0) (hc : Plain c.links)
    (h : Derives [.rule k'] v) (hw : LaidOut (v ++ rest)) :
    Reads (c.inside k i n t) v rest [] (unwind (Link.opened k i n t).resume c.links) := by
  have hl : (Link.opened k i n t).rule = some (.steps ks) := hk
  have hwant : ∀ t' ahead, ((Link.opened k i n t).place i false).wanted? t' ahead =
      some (.rule k') := fun t' ahead => hs ▸ wanted?_place hl hd t' ahead
  obtain ⟨l', ps', ha, -, -, hrd⟩ := (h.turns hk' (isOrderly_cons.1 hk').1).at_place
    (plain_inside hc) hl hwant hw (he ▸ follows_nil rest)
  have hreach : (Step.rule k').reach = 0 := hr
  rw [hreach] at ha
  obtain ⟨rfl, rfl⟩ := List.cons.inj ha.eq_of_zero
  rw [he] at hrd
  exact hrd

end Chain

/-! ### Directives -/

/-- Tokens **end in the name of a directive** if the last but one of them is its mark, so that the
directive has no arguments. -/
def EndsInDirectiveName (w : List SpacedToken) : Prop :=
  ∃ x ∈ w.dropLast.getLast?, x.token = .mark "@"

instance (w : List SpacedToken) : Decidable (EndsInDirectiveName w) :=
  inferInstanceAs (Decidable (∃ x ∈ w.dropLast.getLast?, x.token = .mark "@"))

/-- Tokens end in the name of a directive, whatever stands before them. -/
theorem EndsInDirectiveName.append {v : List SpacedToken} (h : EndsInDirectiveName v)
    (w : List SpacedToken) : EndsInDirectiveName (w ++ v) := by
  obtain ⟨x, hx, hmark⟩ := h
  have hne : v ≠ [] := by
    rintro rfl
    cases hx
  refine ⟨x, ?_, hmark⟩
  rw [List.dropLast_append_of_ne_nil hne, List.getLast?_append, Option.mem_def.1 hx]
  rfl

section Directives

variable {c : Chain} {ts : List Step} {u v rest : List SpacedToken}

/-- A directive with arguments leaves the chain as it is. -/
theorem reads_directive (hc : c.StandsBefore (list (rule .directive) :: ts))
    (h : Derives [rule .directive] v) (hname : ¬EndsInDirectiveName v)
    (hw : LaidOut (v ++ rest)) : Reads c v rest [] c := by
  obtain ⟨ks, hks, hdrop₁, hdrop₂⟩ : ∃ ks, standard .directive = some (.steps ks) ∧
      ks.drop 1 = terminal (name "meta") :: [optional (rule .arguments)] ∧
      ks.drop 2 = [optional (rule .arguments)] := ⟨_, rfl, rfl, rfl⟩
  obtain ⟨d, v, rfl, hd, h⟩ := (h.of_rule rfl).exists_cons
  obtain ⟨x, v, rfl, hx, h⟩ := h.exists_cons
  obtain ⟨a, v, rfl, ha, h⟩ := h.exists_append_optional
  obtain rfl := h.eq_nil
  rw [List.append_nil] at hw hname ⊢
  obtain rfl | ha := ha
  · have hmark : d.token = .mark "@" := mark_of_accepts rfl hd
    exact absurd ⟨d, rfl, hmark⟩ hname
  have hbegin : Reads c [d] ([x] ++ (a ++ rest)) [] (c.inside .directive 1 none none) :=
    reads_begin hc rfl rfl rfl hd
  have hlabel : Reads (c.inside .directive 1 none none) [x] (a ++ rest) []
      (c.inside .directive 2 (some x.token.text) none) :=
    reads_terminal_inside hks hdrop₁ rfl hx
  have hargs := reads_construct_inside (n := some x.token.text) (t := none) hks hdrop₂ rfl
    (by decide) (by decide) rfl hc.plain ha hw.of_cons.of_cons
  rw [hc.unwind_complete (isComplete_resume_opened hks hdrop₂ rfl) rfl] at hargs
  exact hbegin.append (w := x :: a) (hlabel.append hargs)

/-- So do directives the last of which has arguments. -/
theorem reads_directives (hc : c.StandsBefore (list (rule .directive) :: ts))
    (h : Derives [list (rule .directive)] v) (hname : ¬EndsInDirectiveName v)
    (hw : LaidOut (v ++ rest)) : Reads c v rest [] c := by
  obtain rfl | ⟨u, d, rfl, hu, hd⟩ := h.exists_last_turn
  · exact reads_nil c rest
  rw [List.append_assoc] at hw
  have hlast : Reads c d rest [] c :=
    reads_directive hc hd (fun h => hname (h.append u)) hw.of_append
  have hok : isOrderly [rule .directive] = true := by decide
  -- A directive does not go on with the one before it.
  have hfollows : Follows (rule .directive).extensions d :=
    hd.follows_of_areApart hok (by decide)
  obtain ⟨y, d, rfl⟩ := List.exists_cons_of_ne_nil (hd.ne_nil_of_isBare rfl hok)
  have hy := hfollows y rfl
  exact (reads_turns hc hu (by decide) rfl hw (follows_cons hy _)).append_cons hlast hy

end Directives

/-! ### The last selection -/

/-- A chain **rests in** a selection set after a selection if it is that of the set, or that of a
field which may go on. After a spread it is that of the spread. -/
inductive Chain.RestsIn (c : Chain) : Bool → Chain → Prop
  /-- The selection is complete. -/
  | set : RestsIn c false c
  /-- A field may go on. -/
  | field {k : RuleKind} {i j : Nat} (hk : NamedAt k i) (n : String) :
      RestsIn c false (c.inSelection.inside k j (some n) none)
  /-- A spread may go on. -/
  | spread (n : String) :
      RestsIn c true (c.inSelection.inside .fragmentSpread 2 (some n) none)

section Selections

variable {c : Chain} {h : Head} {k : RuleKind} {i : Nat} {n t : Option String} {name : String}
  {u v w rest : List SpacedToken}

/-- A field is a name with its alias, if it has one, before what may follow a name. -/
theorem Derives.exists_namesField (hk : k = .field ∨ k = .aliasedField) (hs : k.Suits v)
    (hv : Derives [.rule k] v) :
    ∃ name u w, v = u ++ w ∧ NamesField name u ∧ Derives fieldTail w := by
  obtain rfl | rfl := hk
  · obtain ⟨x, w, rfl, hx, hw⟩ := (hv.of_rule rfl).exists_cons
    exact ⟨_, [x], w, rfl, .plain (eq_of_beq hx), hw⟩
  · obtain ⟨a, v, rfl, ha, hv⟩ := (hv.of_rule rfl).exists_cons
    obtain ⟨o, v, rfl, ho, hv⟩ := hv.exists_cons
    obtain ⟨x, w, rfl, hx, hw⟩ := hv.exists_cons
    exact ⟨_, [a, o, x], w, rfl,
      .aliased (eq_of_beq ha) hs (mark_of_accepts rfl ho) (eq_of_beq hx), hw⟩

/-- The construct of a head is complete with its selections, and so is the selection. -/
theorem Head.Builds.unwind_selections (hb : h.Builds k i n t) (hh : h.hasSelections = true)
    (hc : c.AwaitsSelections) :
    unwind (Link.opened k (i + 1) n t).resume c.inSelection.links = c := by
  obtain ⟨ks, ts, hks, hdrop, hsel⟩ := hb.exists_steps
  obtain ⟨s, rfl, -, hlist⟩ := hsel hh
  have hdrop' : ks.drop (i + 1) = [s] := by
    rw [← List.drop_drop, hdrop]
    rfl
  exact hc.unwind_complete (isComplete_resume_opened hks hdrop' hlist)
    (Link.needsAdvance_resume _)

/-- The directives and the selections of a head complete its selection. -/
theorem Head.Builds.reads_selections (hb : h.Builds k i n t) (hh : h.hasSelections = true)
    (hc : c.AwaitsSelections) (hu : Derives [list (Step.rule .directive)] u)
    (hv : Derives [Step.rule .selectionSet] v) (hw : LaidOut ((u ++ v) ++ rest)) :
    Reads (c.inSelection.inside k i n t) (u ++ v) rest [] c := by
  obtain ⟨ks, ts, hks, hdrop, hsel⟩ := hb.exists_steps
  obtain ⟨s, rfl, hbody, -⟩ := hsel hh
  have hplain := plain_inSelection hc.plain
  have hdrop₂ : ks.drop (i + 1) = [s] := by
    rw [← List.drop_drop, hdrop]
    rfl
  have hok : isOrderly [Step.rule .selectionSet] = true := by decide
  rw [List.append_assoc] at hw
  have hset := reads_construct_inside (n := n) (t := t) hks hdrop₂ hbody hok (by decide)
    rfl hplain hv hw.of_append
  rw [hb.unwind_selections hh hc] at hset
  -- A brace does not go on with the directives.
  have hfollows : Follows (allExtensions [list (Step.rule .directive)]) v :=
    hv.follows_of_areApart hok (by decide)
  obtain ⟨y, v, rfl⟩ := List.exists_cons_of_ne_nil (hv.ne_nil_of_isBare rfl hok)
  have hy := hfollows y rfl
  have hdrop₁ : ks.drop i = [list (Step.rule .directive)] ++ s :: [] := hdrop
  have hdirectives : Reads (c.inSelection.inside k i n t) u ((y :: v) ++ rest) _
      (c.inSelection.inside k (i + 1) n t) :=
    reads_steps hks hdrop₁ hplain hu (by decide) (by decide) hw (follows_cons hy _)
  exact hdirectives.append_cons hset hy

/-- The arguments of a field are complete with their bracket. -/
theorem NamedAt.reads_given_arguments (hk : NamedAt k i) (hc : Plain c.links)
    (hv : Derives [Step.rule .arguments] v) (hw : LaidOut (v ++ rest)) :
    Reads (c.inside k i n t) v rest [] (c.inside k (i + 1) n t) := by
  obtain ⟨ks, hks, hdrop⟩ := hk.exists_steps
  have hargs := reads_construct_inside (n := n) (t := t) hks hdrop rfl (by decide)
    (by decide) rfl hc hv hw
  rwa [unwind_opened hks hdrop rfl] at hargs

/-- Directives are read after a field, whether it has arguments or not. -/
theorem NamedAt.reads_directives (hk : NamedAt k i) (hc : Plain c.links)
    (hv : Derives [list (Step.rule .directive)] v) (hne : v ≠ []) (hdir : ¬EndsInDirectiveName v)
    (hw : LaidOut (v ++ rest)) {l : Option String} :
    Reads (c.inside k (i + 1) l none) v rest [] (c.inside k (i + 1) l none) ∧
      Reads (c.inside k i l none) v rest [] (c.inside k (i + 1) l none) := by
  obtain ⟨ks, hks, hdrop⟩ := hk.exists_steps
  have hdrop₁ : ks.drop (i + 1) =
      [list (Step.rule .directive), optional (Step.rule .selectionSet)] := by
    rw [← List.drop_drop, hdrop]
    rfl
  have hread : Reads (c.inside k (i + 1) l none) v rest [] _ :=
    QueryAssist.reads_directives (standsBefore_inside hks hdrop₁ hc) hv hdir hw
  refine ⟨hread, ?_⟩
  -- Without arguments the step for them is passed over at the mark of the first directive.
  have hfollows : Follows Head.bars v :=
    hv.follows_of_areApart (by decide) (by decide)
  obtain ⟨y, v, rfl⟩ := List.exists_cons_of_ne_nil hne
  have hy := hfollows y rfl
  exact (hk.reads_arguments hc (.skip .nil) hw (follows_cons hy _)).append_cons hread hy

/-- What may follow the name of a field is read up to a chain that rests in the set. -/
theorem NamedAt.exists_reads_tail (hk : NamedAt k i) (hc : c.AwaitsSelections)
    (hname : name ≠ "") (hv : Derives fieldTail v) (hdir : ¬EndsInDirectiveName v)
    (hw : LaidOut (v ++ rest)) :
    ∃ d, c.RestsIn false d ∧ Reads (c.inSelection.inside k i (some name) none) v rest [] d := by
  have hplain := plain_inSelection hc.plain
  obtain ⟨a, v, rfl, ha, hv⟩ := hv.exists_append_optional
  obtain ⟨u, w, rfl, hu, hset⟩ := hv.exists_append_list
  obtain ⟨z, e, rfl, hz, he⟩ := hset.exists_append_optional
  obtain rfl := he.eq_nil
  rw [List.append_nil] at hdir hw ⊢
  obtain rfl | hz := hz
  · rw [List.append_nil] at hdir hw ⊢
    have hdir' : ¬EndsInDirectiveName u := fun h => hdir (h.append a)
    rw [List.append_assoc] at hw
    by_cases hne : u = []
    · subst hne
      rw [List.append_nil]
      obtain rfl | ha := ha
      · exact ⟨_, .field hk name, reads_nil _ _⟩
      · exact ⟨_, .field hk name, hk.reads_given_arguments hplain ha hw⟩
    · obtain ⟨hafter, hskip⟩ := hk.reads_directives hplain hu hne hdir' hw.of_append
      refine ⟨_, .field (j := i + 1) hk name, ?_⟩
      obtain rfl | ha := ha
      · exact hskip
      · exact (hk.reads_given_arguments hplain ha hw).append hafter
  · -- The selections complete the field.
    have hbuild : (Head.field name).Builds k (i + 1) (some name) none := .field hk hname none
    rw [List.append_assoc] at hw
    have hsel := hbuild.reads_selections rfl hc hu hz hw.of_append
    obtain ⟨b, z, rfl, hb, -⟩ := (hz.of_rule rfl).exists_cons
    have hend : ∀ rest, EndsHead (u ++ ((b :: z) ++ rest)) := fun rest =>
      EndsHead.append ⟨b, _, rfl, .inr (mark_of_accepts rfl hb)⟩ hu
    have hargs : Derives [optional (Step.rule .arguments)] a := by
      obtain rfl | ha := ha
      · exact .skip .nil
      · simpa using Derives.keep ha .nil
    have hopen : Reads (c.inSelection.inside k i (some name) none) a ((u ++ (b :: z)) ++ rest)
        Head.bars (c.inSelection.inside k (i + 1) (some name) none) :=
      hk.reads_arguments hplain hargs hw (by simpa using (hend rest).follows)
    refine ⟨c, .set, hopen.trans hsel ?_ (by simp)⟩
    simpa using (hend []).follows

/-- The last selection is read up to a chain that **rests** in the set that it is in. -/
theorem exists_reads_last (hc : c.AwaitsSelections) (hk : k ∈ Fork.answers .selection)
    (hs : k.Suits v) (hv : Derives [.rule k] v) (hdir : ¬EndsInDirectiveName v)
    (hw : LaidOut v) :
    ∃ d, c.RestsIn (decide (k = .fragmentSpread)) d ∧ Reads c v [] [] d := by
  have hw' : LaidOut (v ++ []) := by rwa [List.append_nil]
  by_cases hfield : k = .field ∨ k = .aliasedField
  · obtain ⟨name, u, w, rfl, hu, htail⟩ := hv.exists_namesField hfield hs
    rw [List.append_assoc] at hw'
    have hcolon : Follows [.exactly .punctuation ":"] (w ++ []) := by
      rw [List.append_nil]
      exact htail.follows_of_areApart (by decide) (by decide)
    obtain ⟨hne, k', i, hk', hrd⟩ := hu.reads hc hw' hcolon
    obtain ⟨d, hd, hrest⟩ := hk'.exists_reads_tail hc hne htail (fun h => hdir (h.append u))
      hw'.of_append
    have hkind : k ≠ .fragmentSpread := by
      rintro rfl
      simp at hfield
    rw [decide_eq_false hkind]
    exact ⟨d, hd, hrd.append hrest⟩
  · obtain ⟨hne, hne'⟩ := not_or.1 hfield
    obtain rfl | rfl : k = .inlineFragment ∨ k = .fragmentSpread := by
      simpa [Fork.answers, hne, hne'] using hk
    · -- The braces of an inline fragment complete it.
      have hok : isOrderly [Step.rule .inlineFragment] = true := by decide
      obtain ⟨ts, hstands⟩ := id hc
      have hwant : Wants c.top (.rule .selection) v [] := fun x _ _ =>
        (hstands.wanted? x.token _).2
      obtain ⟨l, ps, ha, hrd⟩ := Turns.reads_choice rfl hk hs hv (hv.turns hok rfl) hc.plain
        (hstands.wanted? default []).1 hwant hw' (by simp [Follows])
      obtain ⟨rfl, rfl⟩ := List.cons.inj ha.eq_of_zero
      have hext : RuleKind.inlineFragment.extensions = [] := by decide
      rw [hstands.unwind_resume, hext] at hrd
      exact ⟨c, .set, hrd⟩
    · obtain ⟨x, v, rfl, hx, hv⟩ := (hv.of_rule rfl).exists_cons
      obtain ⟨y, v, rfl, hy, hv⟩ := hv.exists_cons
      have hrd := reads_spread hc (mark_of_accepts rfl hx) hs.1 (eq_of_beq hy) hs.2 hw'
      have hstands : (c.inSelection.inside .fragmentSpread 2 (some y.token.text)
          none).StandsBefore [list (Step.rule .directive)] :=
        standsBefore_inside (k := .fragmentSpread) rfl rfl (plain_inSelection hc.plain)
      have hrest := reads_directives hstands hv (fun h => hdir (h.append [x, y]))
        hw'.of_cons.of_cons
      exact ⟨_, .spread _, hrd.append hrest⟩

end Selections

/-! ### Documents -/

/-- At the end of a document in a selection set or at a field the **fields** of the type around it
are suggested. -/
theorem EndsAt.complete_field {document : List Char} {d : Chain} {s : Schema}
    {parent : Option TypeDef} (h : EndsAt document d) (hk : d.top.kind ≠ some .invalid)
    (hp : Position.ofChain? d = some .field) (ht : (TypeContext.ofLinks s d.links).parent = parent)
    (hf : (TypeContext.ofLinks s d.links).fault = none) :
    complete s document (Cursor.atEnd document) = .ok (Candidates.fields s parent) := by
  rw [h.complete_eq hk hp hf, candidates, ht]

/-- At the end of a document without a position **nothing** is suggested. -/
theorem EndsAt.complete_nil {document : List Char} {d : Chain} {s : Schema}
    (h : EndsAt document d) (hk : d.top.kind ≠ some .invalid) (hp : Position.ofChain? d = none) :
    complete s document (Cursor.atEnd document) = .ok [] := by
  have hvalid : d.valid = d := if_neg hk
  rw [complete_eq_offers_of_not_isFilterable h.text, h.chain,
    offers_of_position_none (hvalid.symm ▸ hp)]

/-- Where a chain **rests in the set of some heads**, the fields of their type are suggested, and
after a spread nothing is. -/
theorem EndsAt.complete_restsIn {document : List Char} {c d : Chain} {hs : List Head} {b : Bool}
    (h : EndsAt document d) (hd : c.RestsIn b d) (hc : c.SelectsIn hs) (s : Schema) :
    complete s document (Cursor.atEnd document) =
      .ok (if b then [] else Candidates.fields s (s.baseType? (s.selected hs))) := by
  have hctx := hc.context s
  cases hd with
  | set => exact h.complete_field (by simp [hc.kind_top]) hc.position hctx.parent hctx.fault
  | @field k i j hk n =>
    have hfield : (Link.opened k j (some n) none).isField = true := by
      cases hk <;> rfl
    obtain ⟨hparent, hfault⟩ := context_of_isField s hfield c.inSelection.links
    rw [TypeContext.ofLinks_inSelection] at hparent hfault
    exact h.complete_field (kind_ne_invalid hfield) (position_of_isField hfield)
      (hparent.trans hctx.parent) (hfault.trans hctx.fault)
  | spread n => exact h.complete_nil nofun rfl

/-- An open document may end right after its brace. -/
theorem Opens.ending {hs : List Head} {u : List SpacedToken} {b : SpacedToken}
    (h : Opens hs (u ++ [b])) : Opens hs (u ++ [{ b with gap := [] }]) := by
  generalize hw : u ++ [b] = w at h
  cases h with
  | @shorthand v b' hv hb =>
    obtain ⟨rfl, he⟩ := List.append_inj' hw rfl
    obtain rfl := List.singleton_inj.1 he
    exact .shorthand hv hb
  | @definition h w u' v b' hv hd hu hdir hb =>
    have hw' : u ++ [b] = (w ++ (u' ++ v)) ++ [b'] := by simpa using hw
    obtain ⟨rfl, he⟩ := List.append_inj' hw' rfl
    obtain rfl := List.singleton_inj.1 he
    simpa using Opens.definition (b := { b with gap := [] }) hv hd hu hdir hb
  | @selection hs h w z u' v b' ho hz hd hh hu hv hb =>
    have hw' : u ++ [b] = (w ++ (z ++ (u' ++ v))) ++ [b'] := by simpa using hw
    obtain ⟨rfl, he⟩ := List.append_inj' hw' rfl
    obtain rfl := List.singleton_inj.1 he
    simpa using Opens.selection (b := { b with gap := [] }) ho hz hd hh hu hv hb

/-- A part of a laid out document is laid out without the gap at its end. -/
theorem LaidOut.ending {u w : List SpacedToken} {b : SpacedToken}
    (h : LaidOut ((u ++ [b]) ++ w)) : LaidOut (u ++ [{ b with gap := [] }]) := by
  have hlaid : ∀ x ∈ u ++ [b], x.IsLaid := fun x hx => h.laid x (List.mem_append_left w hx)
  refine ⟨?_, fun x hx => ?_⟩
  · rw [List.forall_mem_append, List.forall_mem_singleton]
    have hb := hlaid b (by simp)
    exact ⟨fun x hx => hlaid x (List.mem_append_left _ hx), ⟨hb.whole, nofun, .inr nofun⟩⟩
  · rw [List.dropLast_concat] at hx
    refine h.apart x ?_
    rw [List.append_assoc, List.dropLast_append_of_ne_nil (by simp)]
    exact List.mem_append_left _ hx

/-- Right after the brace of an open document the fields of its type are suggested. -/
theorem Opens.complete_ending {lead : List Char} {hs : List Head} {u w : List SpacedToken}
    {b : SpacedToken} (ho : Opens hs (u ++ [b])) (hlead : ∀ c ∈ lead, isSeparator c = true)
    (hw : LaidOut ((u ++ [b]) ++ w)) (s : Schema) :
    let document := lead ++ render (u ++ [{ b with gap := [] }])
    complete s document (Cursor.atEnd document) =
      .ok (Candidates.fields s (s.baseType? (s.selected hs))) := by
  have hb : b.token = .mark "\x7b" := by
    obtain ⟨u', b', he, hb⟩ := ho.exists_last
    obtain ⟨-, he⟩ := List.append_inj' he rfl
    exact List.singleton_inj.1 he ▸ hb
  have hlaid := hw.ending
  have hlay : LaidOut ((u ++ [{ b with gap := [] }]) ++ []) := by rwa [List.append_nil]
  obtain ⟨c, hc, e, hrun, -, he⟩ := ho.ending.reads hlay
  obtain rfl := he rfl
  have hat := endsAt_of_run hlead hlaid hrun (by simp [hb, Token.mark]) (by simp [hb]; decide) rfl
  exact hat.complete_restsIn .set hc s

/-- **Fields are offered after every complete selection** that is no spread and does not end in the
name of a directive: after it and a blank they are those of the type that is selected from, the same
as right after the brace. After a spread nothing is offered. -/
theorem complete_next_selection (s : Schema) {lead : List Char} {hs : List Head}
    {u z v : List SpacedToken} {b : SpacedToken} {k : RuleKind}
    (hlead : ∀ c ∈ lead, isSeparator c = true) (ho : Opens hs (u ++ [b]))
    (hz : Derives [list (rule .selection)] z) (hk : k ∈ Fork.answers .selection)
    (hv : k.Suits v ∧ Derives [rule k] v) (hw : LaidOut ((u ++ [b]) ++ (z ++ v)))
    (hname : ¬EndsInDirectiveName v)
    (hend : ∃ x ∈ v.getLast?, ∃ a ∈ x.gap.getLast?, a ≠ '\n') :
    let document := lead ++ render ((u ++ [b]) ++ (z ++ v))
    let opening := lead ++ render (u ++ [{ b with gap := [] }])
    let fields := Candidates.fields s (s.baseType? (s.selected hs))
    complete s document (Cursor.atEnd document) =
        .ok (if k = .fragmentSpread then [] else fields) ∧
      complete s opening (Cursor.atEnd opening) = .ok fields := by
  obtain ⟨hsuits, hder⟩ := hv
  obtain ⟨x, hx, hblank⟩ := hend
  obtain ⟨v', rfl⟩ := List.getLast?_eq_some_iff.1 hx
  obtain ⟨c, hc, hopen⟩ := ho.reads hw
  obtain ⟨ts, hstands⟩ := hc.awaitsSelections
  have hlaid : LaidOut (z ++ (v' ++ [x])) := hw.of_append
  obtain ⟨d, hd, hlast⟩ :=
    exists_reads_last hc.awaitsSelections hk hsuits hder hname hlaid.of_append
  -- A selection does not go on with the one before it.
  have hfollows : Follows (Step.rule .selection).extensions (v' ++ [x]) :=
    (Derives.answer (k := .selection) rfl hk hsuits hder).follows_of_areApart (by decide)
      (by decide)
  have hturns : Reads c z ((v' ++ [x]) ++ []) (Step.rule .selection).extensions c := by
    rw [List.append_nil]
    exact reads_turns hstands hz (by decide) rfl hlaid hfollows
  have hsel : Reads c (z ++ (v' ++ [x])) [] [] d := hturns.trans hlast hfollows (by simp)
  rw [← List.append_nil (z ++ (v' ++ [x]))] at hopen
  obtain ⟨e, hrun, -, he⟩ := hopen.append hsel
  obtain rfl := he rfl
  have hdoc : (u ++ [b]) ++ (z ++ (v' ++ [x])) = ((u ++ [b]) ++ (z ++ v')) ++ [x] := by simp
  rw [hdoc] at hrun hw ⊢
  have hat := endsAt_of_blank hlead hw hrun hblank
  refine ⟨?_, ho.complete_ending hlead (w := (z ++ v') ++ [x]) (by simpa using hw) s⟩
  rw [hat.complete_restsIn hd hc s]
  simp only [decide_eq_true_eq]

/-- After a field with braces, a line break and a space, the fields of the type around it are
suggested. -/
theorem complete_next_selection_nested :
    ∃ s lead u z v b, lead ++ render ((u ++ [b]) ++ (z ++ v)) =
        "\x7b id user \x7b name friend \x7b name \x7d\n ".toList ∧
      (∀ c ∈ lead, isSeparator c = true) ∧ Opens [.query, .field "user"] (u ++ [b]) ∧
      Derives [list (Step.rule .selection)] z ∧ RuleKind.field ∈ Fork.answers .selection ∧
      (RuleKind.field.Suits v ∧ Derives [Step.rule .field] v) ∧
      LaidOut ((u ++ [b]) ++ (z ++ v)) ∧ ¬EndsInDirectiveName v ∧
      (∃ x ∈ v.getLast?, ∃ a ∈ x.gap.getLast?, a ≠ '\n') ∧
      let document := lead ++ render ((u ++ [b]) ++ (z ++ v))
      complete s document (Cursor.atEnd document) =
        .ok [{ text := "name", type := some (.named "String") },
          { text := "friend", type := some (.named "User") }] := by
  let s : Schema := {
    query := some "Query",
    types := [
      { name := "Query", body := .object [] [{ name := "user", type := .named "User" }] },
      { name := "User",
        body := .object [] [{ name := "name", type := .named "String" },
          { name := "friend", type := .named "User" }] }] }
  let spaced (t : Token) : SpacedToken := ⟨t, [' ']⟩
  let brace : SpacedToken := spaced (.mark "\x7b")
  let field (name : String) : SpacedToken := spaced (.word name)
  let v : List SpacedToken := [field "friend", brace, field "name", ⟨.mark "\x7d", ['\n', ' ']⟩]
  have hfield : ∀ name, Derives [Step.rule .selection] [field name] := fun name =>
    .answer (a := .field) rfl (by decide) trivial
      (.rule rfl (.terminal rfl (.skip (.stop (.skip .nil)))))
  have hlist : ∀ name, Derives [list (Step.rule .selection)] [field name] := fun name =>
    .again (hfield name) (.stop .nil)
  have hquery : Opens [.query] [brace] := .shorthand (.stop .nil) rfl
  have ho : Opens [.query, .field "user"] ([brace, field "id", field "user"] ++ [brace]) :=
    .selection (v := []) hquery (hlist "id") rfl rfl
      (.field (.plain (x := field "user") rfl) (.skip .nil)) (.stop .nil) rfl
  have hset : Derives [Step.rule .selectionSet] (v.drop 1) :=
    .rule rfl (.terminal rfl (.again (hfield "name") (.stop (.terminal rfl .nil))))
  have hv : RuleKind.field.Suits v ∧ Derives [Step.rule .field] v :=
    ⟨trivial, .rule rfl (.terminal rfl (.skip (.stop (.keep hset .nil))))⟩
  have hlead : ∀ c ∈ [], isSeparator c = true := by simp
  have hw : LaidOut (([brace, field "id", field "user"] ++ [brace]) ++ ([field "name"] ++ v)) := by
    decide
  have hname : ¬EndsInDirectiveName v := by decide
  have hend : ∃ x ∈ v.getLast?, ∃ a ∈ x.gap.getLast?, a ≠ '\n' := ⟨_, rfl, _, rfl, by decide⟩
  obtain ⟨hcomplete, -⟩ :=
    complete_next_selection s hlead ho (hlist "name") (by decide) hv hw hname hend
  exact ⟨s, [], _, _, v, _, by decide, hlead, ho, hlist "name", by decide, hv, hw, hname, hend,
    hcomplete.trans (by decide)⟩

/-- After a **spread** nothing is suggested, although the type that is selected from has a field. -/
theorem complete_after_spread :
    ∃ s u b v, render ((u ++ [b]) ++ v) = "\x7b ... F ".toList ∧
      Opens [.query] (u ++ [b]) ∧ Derives [Step.rule .selection] v ∧ LaidOut ((u ++ [b]) ++ v) ∧
      (∃ x ∈ v.getLast?, ∃ a ∈ x.gap.getLast?, a ≠ '\n') ∧
      (s.baseType? (s.selected [.query])).any TypeDef.hasFields = true ∧
      let document := render ((u ++ [b]) ++ v)
      complete s document (Cursor.atEnd document) ≠
        .ok (Candidates.fields s (s.baseType? (s.selected [.query]))) := by
  let s : Schema := {
    query := some "Query",
    types := [{ name := "Query", body := .object [] [{ name := "id", type := .named "ID" }] }] }
  let brace : SpacedToken := ⟨.mark "\x7b", [' ']⟩
  let v : List SpacedToken := [⟨.mark "...", [' ']⟩, ⟨.word "F", [' ']⟩]
  have ho : Opens [.query] ([] ++ [brace]) := .shorthand (.stop .nil) rfl
  have hv : Derives [Step.rule .selection] v :=
    .answer (a := .fragmentSpread) rfl (by decide) ⟨by decide, by decide⟩
      (.rule rfl (.terminal rfl (.terminal rfl (.stop .nil))))
  have hend : ∃ x ∈ v.getLast?, ∃ a ∈ x.gap.getLast?, a ≠ '\n' := ⟨_, rfl, _, rfl, by decide⟩
  exact ⟨s, [], brace, v, by decide, ho, hv, by decide, hend, by decide, by decide +kernel⟩

end QueryAssist
