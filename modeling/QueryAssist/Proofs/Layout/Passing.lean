import QueryAssist.Proofs.Cursor.Placing
import QueryAssist.Proofs.Layout.Fragments

/-! # Gathering past what does not fit

A token that no open construct has a place for is passed over, and the parse goes on from where it
stood. So the fragments of a document can be gathered along a run that takes some of its tokens and
passes over the others. Main definition: **`Chain.Collects`**, such a run. Main statement:
`fragmentHeads_eq_of_collects`. -/

namespace QueryAssist

open Grammar

/-! ### Tokens that fit nowhere -/

namespace Chain

variable {c : Chain} {x : SpacedToken}

/-- A token that falls to the root has no place, if the budget lasts. -/
theorem match?_eq_misfit_of_falls {t : Token} {ahead : List Char} (hf : Falls t ahead c root)
    {n : Nat} (hn : match? standard t ahead n c ≠ .exhausted) :
    match? standard t ahead n c = .misfit := by
  induction hf using Relation.ReflTransGen.head_induction_on generalizing n with
  | refl =>
    cases n with
    | zero => exact absurd rfl hn
    | succ n => exact match?_root n
  | head hm _ ih =>
    cases n with
    | zero => exact absurd rfl hn
    | succ n =>
      rw [match?_of_move hm] at hn ⊢
      exact ih hn

/-- Such a token is read, and leaves what is settled. -/
theorem read_misfit {s : Stream} {r : List Char} (hx : x.token.IsWhole)
    (hs : s.rest = x.token.text.toList ++ r) (hlex : Lexer.lex? s.rest = some x.token)
    (hc : c.IsRegular) (hf : Falls x.token r c.settle root) :
    Chain.read standard s c =
      ⟨.ok "invalidchar", s.take x.token.text.length, c.settle.enterInvalid⟩ := by
  have hne : s.rest ≠ [] := by
    rw [hs]
    exact List.append_ne_nil_of_left_ne_nil hx.toList_ne_nil _
  have hgap : s.rest.takeWhile isIgnored = [] := by
    obtain ⟨ch, cs, hch, hstart⟩ := hx.exists_start
    rw [hs, hch, List.cons_append, List.takeWhile_cons, (Lexer.not_isIgnored_of_isStart hstart).1]
    rfl
  have hdrop : s.rest.drop x.token.text.length = r := by
    rw [hs, ← String.length_toList, List.drop_left]
  have hm := match?_eq_misfit_of_falls hf
    (hc.settle.toIsOpen.match?_budget_ne_exhausted x.token r)
  rw [read_eq standard c hne, Lexer.piece_of_lex? hgap hlex]
  simp only [react, hx.notComment, if_false, hdrop, hm]

end Chain

/-- Text that fits nowhere is no definition. -/
theorem FragmentHead.around?_enterInvalid (c : Chain) :
    around? c.enterInvalid.links = around? c.links := by
  rfl

/-! ### Collecting -/

namespace Chain

/-- A run **collects** the fragments that it stands at after each token that it takes. Other tokens
fit nowhere and are passed over. -/
inductive Collects (rest : List SpacedToken) :
    Chain → List FragmentHead → List SpacedToken → Chain → List FragmentHead → Prop
  /-- Nothing is left. -/
  | nil {c : Chain} {hs : List FragmentHead} : Collects rest c hs [] c hs
  /-- A token that is taken. -/
  | take {c d e : Chain} {x : SpacedToken} {w : List SpacedToken} {hs hs' : List FragmentHead}
      (hx : Takes x (x.ahead (w ++ rest)) c d)
      (hd : (definitionLink? d.links).isSome ∨ x.token.kind = .punctuation)
      (h : Collects rest d (gather hs (FragmentHead.around? d.links)) w e hs') :
      Collects rest c hs (x :: w) e hs'
  /-- A token that is passed over. -/
  | pass {c d : Chain} {x : SpacedToken} {w : List SpacedToken} {hs hs' : List FragmentHead}
      (hx : Falls x.token (x.ahead (w ++ rest)) c root) (h : Collects rest c hs w d hs') :
      Collects rest c hs (x :: w) d hs'

variable {c d e : Chain} {v w rest : List SpacedToken} {hs hs₁ hs₂ : List FragmentHead}

/-- To gather is to collect with no token passed over. -/
theorem Gathers.collects (h : Gathers rest c hs w d hs₁) : Collects rest c hs w d hs₁ := by
  induction h with
  | nil => exact .nil
  | cons hx hd _ ih => exact .take hx hd ih

/-- Two runs that collect fragments, one after the other, collect those of both. -/
theorem Collects.append (h : Collects (w ++ rest) c hs v d hs₁)
    (h' : Collects rest d hs₁ w e hs₂) : Collects rest c hs (v ++ w) e hs₂ := by
  induction h with
  | nil => exact h'
  | take hx hd _ ih =>
    rw [← List.append_assoc] at hx
    exact .take hx hd (ih h')
  | pass hx _ ih =>
    rw [← List.append_assoc] at hx
    exact .pass hx (ih h')

/-- Tokens that all fit nowhere are passed over. -/
theorem collects_of_falls_root (h : ∀ x ∈ w, ∀ ahead, Falls x.token ahead c root) :
    Collects rest c hs w c hs := by
  induction w with
  | nil => exact .nil
  | cons x w ih =>
    obtain ⟨hx, hw⟩ := List.forall_mem_cons.1 h
    exact .pass (hx _) (ih hw)

end Chain

/-! ### Scanning -/

namespace Scan

open Chain

variable {row : Nat} {s : Stream} {c d : Chain} {ls : List (List Char)} {before g : List Char}
  {w : List SpacedToken} {x : SpacedToken} {hs hs' : List FragmentHead}

/-- Some fragments with those that the tokens of a scan stand at. -/
def gatherAlong (hs : List FragmentHead) (ts : List PlacedToken) : List FragmentHead :=
  ts.foldl (fun hs t => gather hs (FragmentHead.around? t.chain.links)) hs

/-- Along some tokens the fragment of the first is gathered, and then those of the others. -/
theorem gatherAlong_cons (hs : List FragmentHead) (t : PlacedToken) (ts : List PlacedToken) :
    gatherAlong hs (t :: ts) =
      gatherAlong (gather hs (FragmentHead.around? t.chain.links)) ts := rfl

/-- In a gap nothing is gathered that was not before. -/
theorem gatherAlong_gaps {ts : List PlacedToken} (h : RestsOver ts d)
    (hn : gather hs (FragmentHead.around? d.links) = hs) (us : List PlacedToken) :
    gatherAlong hs (ts ++ us) = gatherAlong hs us := by
  induction ts with
  | nil => rfl
  | cons t ts ih =>
    obtain ⟨⟨ht, -⟩, hts⟩ := List.forall_mem_cons.1 h
    rw [List.cons_append, gatherAlong_cons, ht, hn]
    exact ih hts

/-- A scan **goes on past a token** that fits nowhere. -/
theorem tokensOn_misfit (row : Nat) (hw : LaidOut (x :: w))
    (hs : s.rest :: ls = splitLines (render (x :: w))) (hc : c.IsRegular)
    (hf : Falls x.token (x.ahead w) c.settle root) :
    let s' := s.take x.token.text.length
    tokensOn row s c ls = place s' c.settle.enterInvalid "invalidchar" row ::
        tokensOn row s' c.settle.enterInvalid ls ∧
      s'.rest :: ls = splitLines (x.gap ++ render w) ∧ s'.token = x.token.text.toList := by
  have hwhole := hw.head.whole
  obtain ⟨hrest, hlines, htoken⟩ := rest_of_render hwhole hs
  have hlex := lex?_ahead hw
  rw [← hrest] at hlex
  have hne : s.rest ≠ [] := by
    rw [hrest]
    exact List.append_ne_nil_of_left_ne_nil hwhole.toList_ne_nil _
  rw [String.length_toList] at hlines htoken
  exact ⟨tokensOn_of_read hne (read_misfit hwhole hrest hlex hc hf), hlines, htoken⟩

/-- A scan of a laid out text gathers **what a run over it collects**. -/
theorem gatherAlong_tokensOn (hw : LaidOut w) (hg : ∀ c ∈ g, isSeparator c = true)
    (hs : Stands before row s ls (g ++ render w)) (hc : c.IsRegular)
    {heads heads' : List FragmentHead}
    (h : Collects [] c.settle heads w d heads')
    (hn : gather heads (FragmentHead.around? c.settle.links) = heads) :
    gatherAlong heads (tokensOn row s c ls) = heads' := by
  generalize hset : c.settle = b at h hn
  -- The induction is on the run. What is settled after each token is where the run goes on.
  induction h generalizing before row s ls c g with
  | nil =>
    obtain ⟨ts, row', s', ls', c', ht, hstands, -, -, hover, -⟩ :=
      exists_tokensOn_gaps (r := render []) nofun (fun c hm => isIgnored_of_isSeparator (hg c hm))
        hs hc
    rw [ht, gatherAlong_gaps hover (hset.symm ▸ hn), tokensOn_eq_nil hstands.lines]
    rfl
  | @take b d e x w heads heads' hx hd h ih =>
    obtain ⟨ts, row', s', ls', c', ht, hstands, hc', hset', hover, -⟩ :=
      exists_tokensOn_gaps (isIgnored_head_render hw.whole)
        (fun c hm => isIgnored_of_isSeparator (hg c hm)) hs hc
    obtain rfl := hset'.trans hset
    rw [List.append_nil] at hx
    obtain ⟨style, c'', -, hc'', rfl, hpun, ht', hlines, htoken⟩ :=
      exists_tokensOn_token row' hw hstands.lines hc' hx
    rw [← String.length_toList] at ht' hlines htoken
    have hseen : FragmentHead.around? c''.links = FragmentHead.around? c''.settle.links := by
      rcases hd with hd | hd
      · exact hc''.around?_settle hd
      · rw [← hpun hd]
    rw [ht, gatherAlong_gaps hover (hset.symm ▸ hn), ht', gatherAlong_cons]
    change gatherAlong (gather heads (FragmentHead.around? c''.links)) _ = _
    rw [hseen]
    exact ih hw.of_cons hw.head.separators
      (hstands.take hw.head.whole.oneLine htoken hlines) hc'' rfl (gather_idem _ _)
  | @pass b d x w heads heads' hx h ih =>
    obtain ⟨ts, row', s', ls', c', ht, hstands, hc', hset', hover, -⟩ :=
      exists_tokensOn_gaps (isIgnored_head_render hw.whole)
        (fun c hm => isIgnored_of_isSeparator (hg c hm)) hs hc
    obtain rfl := hset'.trans hset
    rw [List.append_nil] at hx
    obtain ⟨ht', hlines, htoken⟩ := tokensOn_misfit row' hw hstands.lines hc' hx
    rw [← String.length_toList] at ht' hlines htoken
    have hregular : c'.settle.enterInvalid.IsRegular :=
      .outside hc'.settle.isPlaced hc'.settle.idle_top (.inl rfl)
    have hleft : c'.settle.enterInvalid.settle = c'.settle := hc'.settle.settle_enter _
    rw [ht, gatherAlong_gaps hover (hset.symm ▸ hn), ht', gatherAlong_cons]
    change gatherAlong (gather heads (FragmentHead.around? c'.settle.enterInvalid.links)) _ = _
    rw [FragmentHead.around?_enterInvalid, hn]
    exact ih hw.of_cons hw.head.separators
      (hstands.take hw.head.whole.oneLine htoken hlines) hregular hleft hn

end Scan

/-- The fragments of a laid out document are those that **a run over it collects**. -/
theorem fragmentHeads_eq_of_collects {lead : List Char} {w : List SpacedToken} {d : Chain}
    {hs : List FragmentHead} (hlead : ∀ c ∈ lead, isSeparator c = true) (hw : LaidOut w)
    (h : Chain.Collects [] .start [] w d hs) : fragmentHeads (lead ++ render w) = hs := by
  obtain ⟨l, ls, hstands, htokens⟩ := Scan.Stands.start (lead ++ render w)
  rw [fragmentHeads, ← foldl_gather, htokens]
  exact Scan.gatherAlong_tokensOn hw hlead hstands Chain.isRegular_start h rfl

end QueryAssist
