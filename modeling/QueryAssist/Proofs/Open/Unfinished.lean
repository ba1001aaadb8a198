import QueryAssist.Proofs.Open.Selected

/-! # Unfinished spreads

Three dots right before a closing brace begin a spread that never gets its name. The brace gives up
the spread together with the selection that it is in, and closes the set, as it would without the
dots; the braces after it close the sets further out. Main definitions:

* **`OpensIn`** — the selection sets that are opened one in another inside an open one.
* **`ClosesSet`** — tokens that lead out of an open selection set, whatever is around it.

Main statements: `OpensIn.reads`, the sets are opened, and `OpensIn.closesSet`, as many braces close
them, also after an unfinished spread. -/

namespace QueryAssist

open Grammar Chain Step Terminal

/-- Tokens **open sets in** an open selection set: those of some heads, one in another, each after
complete selections. -/
inductive OpensIn : List Head → List SpacedToken → Prop
  /-- No further set. -/
  | nil : OpensIn [] []
  /-- The set of a field or an inline fragment, and those in it. -/
  | cons {h : Head} {hs : List Head} {z u v w : List SpacedToken} {b : SpacedToken}
      (hz : Derives [list (rule .selection)] z) (hd : h.isDefinition = false)
      (hh : h.hasSelections = true) (hu : h.Writes u) (hv : Derives [list (rule .directive)] v)
      (hb : b.token = .mark "\x7b") (ho : OpensIn hs w) :
      OpensIn (h :: hs) ((z ++ (u ++ (v ++ [b]))) ++ w)

variable {c P : Chain} {h : Head} {hs : List Head} {b d x : SpacedToken}
  {v w z rest : List SpacedToken}

/-! ### Opening -/

/-- The sets that are opened in one are **read** up to the innermost, around which all links
stay. -/
theorem OpensIn.reads (ho : OpensIn hs w) (hc : c.AwaitsSelections) (hw : LaidOut (w ++ rest)) :
    ∃ e, e.AwaitsSelections ∧ c.links <:+ e.links ∧
      (∀ hs₀, c.SelectsIn hs₀ → e.SelectsIn (hs₀ ++ hs)) ∧ Reads c w rest [] e := by
  induction ho generalizing c with
  | nil => exact ⟨c, hc, List.suffix_rfl, fun hs₀ h => by simpa using h, reads_nil c rest⟩
  | @cons h hs z u v w b hz hd hh hu hv hb _ ih =>
    rw [List.append_assoc] at hw
    obtain ⟨k, i, n, t, hbuild, hset⟩ := reads_selection_opening hc hz hd hh hu hv hb hw
    have hplain : Plain (c.inSelection.inside k (i + 1) n t).links :=
      plain_inside (plain_inSelection hc.plain)
    obtain ⟨e, he, hsuffix, hin, hrd⟩ := ih (awaitsSelections_inside hplain) hw.of_append
    refine ⟨e, he, .trans ⟨[_, _, _], rfl⟩ hsuffix, fun hs₀ h₀ => ?_, hset.append hrd⟩
    simpa using hin _ (.selection h₀ hd hbuild)

/-! ### Closing -/

/-- Tokens **close a set** if they lead out of any open selection set, past the construct that it
completes. -/
def ClosesSet (w rest : List SpacedToken) : Prop :=
  ∀ P : Chain, Plain P.links →
    Reads (P.inside .selectionSet 1 none none) w rest [] (unwind P.top.resume P.outer)

/-- The steps of a selection set, from its selections and from its brace on. -/
theorem selectionSet_steps : ∃ ks, standard .selectionSet = some (.steps ks) ∧
    ks.drop 1 = [list (rule .selection), terminal (punctuation "\x7d")] ∧
    ks.drop 2 = [terminal (punctuation "\x7d")] := ⟨_, rfl, rfl, rfl⟩

/-- A closing brace completes a selection set that awaits it. -/
theorem reads_brace_inside (hP : Plain P.links) (hx : x.token = .mark "\x7d") :
    Reads (P.inside .selectionSet 2 none none) [x] rest [] (unwind P.top.resume P.outer) := by
  obtain ⟨ks, hks, -, hdrop⟩ := selectionSet_steps
  have hl : (Link.opened .selectionSet 2 none none).rule = some (.steps ks) := hks
  have hend : (Chain.record (P.inside .selectionSet 2 none none) .none x.token.text).advance true =
      unwind P.top.resume P.outer :=
    (advance_true_eq (l := .opened .selectionSet 2 none none) rfl).trans
      (unwind_cons (isComplete_resume_opened hks hdrop rfl) rfl hP)
  rw [← hend]
  refine reads_terminal rfl (wanted?_place hl hdrop x.token (x.ahead rest)) ?_
  rw [hx]
  rfl

/-- A closing brace closes a set. -/
theorem closesSet_brace (hx : x.token = .mark "\x7d") (rest : List SpacedToken) :
    ClosesSet [x] rest := by
  intro P hP
  obtain ⟨ks, hks, hdrop, hdrop'⟩ := selectionSet_steps
  have hl : (Link.opened .selectionSet 1 none none).rule = some (.steps ks) := hks
  -- The list of selections is passed over, for the brace begins none.
  have hskip : Reads (P.inside .selectionSet 1 none none) [] ([x] ++ rest)
      (Step.rule .selection).openings (P.inside .selectionSet 2 none none) := by
    have hend : unwind (Link.opened .selectionSet 1 none none).next P.links =
        P.inside .selectionSet 2 none none := unwind_place hl hdrop' false
    rw [← hend]
    refine reads_nil_of_isFlexible (plain_inside hP) (isFlexible_place hl hdrop rfl false)
      (wanted?_place hl hdrop) (by decide) rfl fun a sep he => ?_
    cases Option.some.inj ((currentStep?_place hl hdrop false).symm.trans he)
  refine hskip.append_cons (reads_brace_inside hP hx) fun m hm => ?_
  rw [hx]
  revert m
  decide

/-- Three dots before a closing brace begin a spread. -/
theorem selectionOf_before_brace (hw : LaidOut (d :: x :: w)) (hd : d.token = .mark "...")
    (hx : x.token = .mark "\x7d") :
    selectionOf d.token (d.ahead (x :: w)) = .fragmentSpread := by
  have hnone : Lexer.inlineAhead (d.ahead (x :: w)) = none := by
    by_cases hline : d.StaysOnLine
    · rw [hw.ahead_eq hline]
      refine Option.not_isSome_iff_eq_none.1 fun hs => ?_
      have ht := (hw.of_cons.head.whole.isSome_inlineAhead_iff hw.isGap_of_mem_gap
        hw.of_cons.endsToken_ahead).1 hs
      rw [hx] at ht
      exact absurd ht (by decide)
    · rw [Lexer.inlineAhead, hw.dropWhile_ahead_eq_nil (.inr hline)]
  rw [selectionOf, hnone, hd]
  rfl

/-- Where selections are awaited three dots before a closing brace open a spread. -/
theorem reads_dots (hc : c.AwaitsSelections) (hz : Derives [list (rule .selection)] z)
    (hw : LaidOut ((z ++ [d]) ++ x :: rest)) (hd : d.token = .mark "...")
    (hx : x.token = .mark "\x7d") :
    Reads c (z ++ [d]) (x :: rest) [] (c.inSelection.inside .fragmentSpread 1 none none) := by
  rw [List.append_assoc] at hw
  have hbegin : Reads c [d] (x :: rest) [] (c.inSelection.inside .fragmentSpread 1 none none) := by
    refine hc.reads_begin (selectionOf_before_brace hw.of_append hd hx) rfl rfl ?_
    rw [hd]
    rfl
  have hout : d.token.IsOutside (Step.rule .selection).extensions := by
    intro m hm
    rw [hd]
    revert m
    decide
  obtain ⟨ts, hstands⟩ := hc
  exact (reads_turns hstands hz (by decide) rfl hw (follows_cons hout _)).append_cons
    hbegin hout

/-- After complete selections and **an unfinished spread** a closing brace closes the set. -/
theorem closesSet_dots (hz : Derives [list (rule .selection)] z)
    (hw : LaidOut ((z ++ [d]) ++ x :: rest)) (hd : d.token = .mark "...")
    (hx : x.token = .mark "\x7d") : ClosesSet ((z ++ [d]) ++ [x]) rest := by
  intro P hP
  let set : Chain := P.inside .selectionSet 1 none none
  have hset : set.AwaitsSelections := awaitsSelections_inside hP
  -- The brace is no name, and the nearest step that can be given up is the list of selections.
  have hmove : Move x.token (x.ahead ([] ++ rest)) (set.inSelection.inside .fragmentSpread 1 none
      none) (P.inside .selectionSet 2 none none) := by
    refine Move.giveUp (c := set.inSelection.inside .fragmentSpread 1 none none) rfl
      (fun k => nofun) fun e he => ?_
    obtain rfl := Step.terminal.inj (Option.some.inj he)
    rw [hx]
    rfl
  exact (reads_dots hset hz hw hd hx).append ((reads_brace_inside hP hx).of_falls (.single hmove))

/-- The sets that are opened in one are **closed** by as many braces, once the innermost is. -/
theorem OpensIn.closesSet {cs : List SpacedToken} (ho : OpensIn hs w)
    (hv : ClosesSet v (cs ++ rest)) (hlen : cs.length = hs.length)
    (hcs : ∀ x ∈ cs, x.token = .mark "\x7d") (hw : LaidOut ((w ++ (v ++ cs)) ++ rest)) :
    ClosesSet (w ++ (v ++ cs)) rest := by
  -- The outermost set is opened first and closed by the last brace.
  induction ho generalizing cs rest with
  | nil =>
    obtain rfl := List.length_eq_zero_iff.1 hlen
    simpa using hv
  | @cons h hs z u v' w b hz hd hh hu hdir hb _ ih =>
    obtain rfl | ⟨cs, x, rfl⟩ := cs.eq_nil_or_concat'
    · cases hlen
    intro P hP
    let set : Chain := P.inside .selectionSet 1 none none
    have hset : set.AwaitsSelections := awaitsSelections_inside hP
    have hopening : LaidOut ((z ++ (u ++ (v' ++ [b]))) ++ ((w ++ (v ++ (cs ++ [x]))) ++ rest)) := by
      simpa using hw
    obtain ⟨k, i, n, t, hbuild, hopen⟩ :=
      reads_selection_opening hset hz hd hh hu hdir hb hopening
    -- What is opened inside is closed by the braces before the last one.
    have hinner : ClosesSet (w ++ (v ++ cs)) ([x] ++ rest) := by
      refine ih (by simpa using hv) (by simpa using hlen)
        (fun y hy => hcs y (List.mem_append_left _ hy)) ?_
      simpa using hopening.of_append
    have hplain : Plain (set.inSelection.inside k (i + 1) n t).links :=
      plain_inside (plain_inSelection hset.plain)
    have hback : unwind (set.inSelection.inside k (i + 1) n t).top.resume
        (set.inSelection.inside k (i + 1) n t).outer = set := hbuild.unwind_selections hh hset
    have hclose : Reads _ (w ++ (v ++ cs)) ([x] ++ rest) [] set := hback ▸ hinner _ hplain
    have hlast : Reads set [x] rest [] _ := closesSet_brace (hcs x (by simp)) rest P hP
    have hassoc : w ++ (v ++ (cs ++ [x])) = (w ++ (v ++ cs)) ++ [x] := by simp
    rw [hassoc] at hopen
    rw [List.append_assoc, hassoc]
    exact hopen.append (hclose.append hlast)

end QueryAssist
