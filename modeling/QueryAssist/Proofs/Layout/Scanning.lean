import QueryAssist.Completion.Cursor
import QueryAssist.Proofs.Chain.Misfit
import QueryAssist.Proofs.Chain.Run

/-! # Scanning a laid out document

A scan of a laid out document reads its tokens one after another, with the gaps between them, and so
follows a run of the chain. Main statements:

* **`Scan.traces_tokens`** — if a run takes the tokens of a document, the scan follows it.
* **`Scan.ends_tokens`** — so each token fits, and the scan ends as the run does.
* **`Cursor.locate_atEnd`** — at the end of a document whose last line is not empty the cursor is at
  the last token. -/

namespace QueryAssist

open Grammar

/-! ### Lines -/

/-- A text without line breaks goes to the front of the first line after it. -/
theorem splitLines_append {u cs l : List Char} {ls : List (List Char)} (hu : '\n' ∉ u)
    (h : splitLines cs = l :: ls) : splitLines (u ++ cs) = (u ++ l) :: ls := by
  induction u with
  | nil => exact h
  | cons c u ih =>
    obtain ⟨hc, hu⟩ := not_or.1 (mt List.mem_cons.2 hu)
    simp [splitLines, Ne.symm hc, ih hu]

/-- The first line is the first of all lines. -/
theorem firstLine_of_splitLines {cs l : List Char} {ls : List (List Char)}
    (h : splitLines cs = l :: ls) : firstLine cs = l := by
  induction cs generalizing l ls with
  | nil => exact (List.cons.inj h).1
  | cons c cs ih =>
    obtain ⟨m, ms, hm⟩ := List.exists_cons_of_ne_nil (splitLines_ne_nil cs)
    by_cases hc : c = '\n'
    · subst hc
      rw [splitLines_feed] at h
      exact (List.cons.inj h).1
    · rw [splitLines, if_neg hc, hm] at h
      rw [← (List.cons.inj h).1, ← ih hm]
      simp [firstLine, hc]

/-- A text that does not end with a line break has characters on its last line. -/
theorem getLast?_splitLines_ne_nil {cs : List Char} {c : Char} (hc : c ≠ '\n') :
    (splitLines (cs ++ [c])).getLast? ≠ some [] := by
  induction cs with
  | nil => simp [splitLines, hc]
  | cons d cs ih =>
    obtain ⟨m, ms, hm⟩ := List.exists_cons_of_ne_nil (splitLines_ne_nil (cs ++ [c]))
    rw [hm] at ih
    by_cases hd : d = '\n'
    · simp only [List.cons_append, splitLines, hd, if_true, hm]
      simpa [List.getLast?_cons_cons] using ih
    · simp only [List.cons_append, splitLines, hd, if_false, hm]
      cases ms with
      | nil => simp
      | cons m' ms => simpa [List.getLast?_cons_cons] using ih

/-! ### Open chains -/

namespace Chain

variable {b c d : Chain} {t : Token} {ahead : List Char}

/-- An admitted token fits. -/
theorem IsOpen.style_ne {e : Terminal} (h : c.IsOpen) (ha : Admits t ahead c e) :
    e.style ≠ "invalidchar" := fun he => h.style_notMem ha (he ▸ by decide)

/-! ### Reading gaps and tokens -/

/-- Characters of a class are skipped up to one that is in it no more. -/
theorem skipWhile_append {s : Stream} {g r : List Char} {p : Char → Bool} (hs : s.rest = g ++ r)
    (hg : ∀ c ∈ g, p c = true) (hne : g ≠ []) (hr : ∀ c ∈ r.head?, p c = false) :
    s.skipWhile p = some (s.take g.length) := by
  have ht : s.rest.takeWhile p = g := by
    rw [hs, List.takeWhile_append_of_pos hg]
    cases r with
    | nil => simp
    | cons c r => simp [hr c rfl]
  unfold Stream.skipWhile
  rw [ht]
  cases g with
  | nil => exact absurd rfl hne
  | cons c g => rfl

/-- A **gap** is read as one token, after which nothing is due. -/
theorem read_gap {s : Stream} {g r : List Char} (hs : s.rest = g ++ r)
    (hg : ∀ c ∈ g, isIgnored c = true) (hne : g ≠ []) (hr : ∀ c ∈ r.head?, isIgnored c = false)
    (c : Chain) : Chain.read standard s c = ⟨.ok "ws", s.take g.length, c.settle⟩ := by
  have := skipWhile_append hs hg hne hr
  unfold Chain.read
  rw [this]

/-- A **token** that is taken is read, and what is due after it is made up for at the next one, or
at once after punctuation. -/
theorem read_token {s : Stream} {x : SpacedToken} {r : List Char} (hx : x.token.IsWhole)
    (hs : s.rest = x.token.text.toList ++ r) (hlex : Lexer.lex? s.rest = some x.token)
    (hc : c.IsRegular) (ht : Takes x r c.settle d) :
    ∃ style c', Chain.read standard s c = ⟨.ok style, s.take x.token.text.length, c'⟩ ∧
      style ≠ "invalidchar" ∧ c'.IsRegular ∧ c'.settle = d ∧
      (x.token.kind = .punctuation → c' = d) := by
  obtain ⟨b, e, hf, ha, rfl⟩ := ht
  have ho := hc.settle.toIsOpen
  have hb := (ho.of_falls hf).resolve_left ha.ne_root
  obtain ⟨ch, cs, hch, hstart⟩ := hx.exists_start
  -- A token does not begin with an ignored character, so it is what is read.
  have hskip : s.skipWhile isIgnored = none := by
    have : s.rest.takeWhile isIgnored = [] := by
      rw [hs, hch, List.cons_append, List.takeWhile_cons, (Lexer.not_isIgnored_of_isStart hstart).1]
      rfl
    unfold Stream.skipWhile
    rw [this]
  have hnext : s.next? = some (x.token, s.take x.token.text.length) := by
    simp [Stream.next?, hlex]
  have hrest : (s.take x.token.text.length).rest = r := by
    rw [Stream.rest_take, hs, ← String.length_toList, List.drop_left]
  have hm := match?_eq_accepted_of_falls hf ha
    (ho.match?_budget_ne_exhausted x.token r)
  refine ⟨e.style, b.accept e x.token, ?_, hb.style_ne ha, .inside (hb.accept ha),
    hb.settle_accept ha, fun hp => ?_⟩
  · unfold Chain.read
    rw [hskip, hnext]
    simp only [hx.notComment, if_false, hrest, hm]
  · unfold Chain.accept
    dsimp only
    rw [if_pos hp]

/-- A token is taken in **one way** only. -/
theorem IsOpen.takes_unique {x : SpacedToken} (h : c.IsOpen) (hd : Takes x ahead c d)
    (hd' : Takes x ahead c b) : d = b := by
  obtain ⟨m, e, hf, ha, rfl⟩ := hd
  obtain ⟨m', e', hf', ha', rfl⟩ := hd'
  have hm := (h.of_falls hf).resolve_left ha.ne_root
  have hm' := (h.of_falls hf').resolve_left ha'.ne_root
  have hn := h.match?_budget_ne_exhausted x.token ahead
  have haccept : m.accept e x.token = m'.accept e' x.token :=
    (Match.accepted.inj ((match?_eq_accepted_of_falls hf ha hn).symm.trans
      (match?_eq_accepted_of_falls hf' ha' hn))).2
  calc (m.record e.trace x.token.text).advance true
    _ = (m.accept e x.token).settle := (hm.settle_accept ha).symm
    _ = (m'.accept e' x.token).settle := by rw [haccept]
    _ = (m'.record e'.trace x.token.text).advance true := hm'.settle_accept ha'

end Chain

/-! ### Scanning -/

namespace Scan

open Chain

/-- The tokens from a place of a line on, and of the lines after it. -/
def tokensOn (row : Nat) (s : Stream) (c : Chain) (ls : List (List Char)) : List PlacedToken :=
  lineTokens row s c ++ tokensFrom (row + 1) (renew (chainAfter c (lineTokens row s c))) ls

variable {row : Nat} {s : Stream} {c d : Chain} {ls : List (List Char)} {g : List Char}
  {w : List SpacedToken}

/-- The chain after some tokens is that after the later ones, read on from the first. -/
theorem chainAfter_cons (c : Chain) (t : PlacedToken) (ts : List PlacedToken) :
    chainAfter c (t :: ts) = chainAfter t.chain ts := by
  simp only [chainAfter, List.getLast?_cons]
  cases ts.getLast? <;> rfl

/-- At the end of a line the scan goes on with the next one. -/
theorem tokensOn_of_rest_eq_nil (hs : s.rest = []) (hc : c.IsRegular) (l : List Char) :
    tokensOn row s c (l :: ls) = tokensOn (row + 1) (.ofLine l) c ls := by
  rw [tokensOn, lineTokens, dif_pos hs]
  simp only [List.nil_append, chainAfter, List.getLast?_nil, Option.map_none, Option.getD_none,
    hc.renew_eq]
  rfl

/-- At the end of the last line the scan ends. -/
theorem tokensOn_nil (hs : s.rest = []) : tokensOn row s c [] = [] := by
  rw [tokensOn, lineTokens, dif_pos hs]
  rfl

/-- One reading gives one token. -/
theorem tokensOn_of_read {style : String} {s' : Stream} {c' : Chain} (hs : s.rest ≠ [])
    (hr : Chain.read .standard s c = ⟨.ok style, s', c'⟩) :
    tokensOn row s c ls = place s' c' style row :: tokensOn row s' c' ls := by
  rw [tokensOn, lineTokens, dif_neg hs, hr]
  dsimp only
  rw [chainAfter_cons]
  rfl

/-- What a scan **ends** with: everything fits, and what is due made up for the last chain is a
given one, which it is at once after punctuation. Without a gap at the end the last token is read
last. -/
structure Ends (ts : List PlacedToken) (c : Chain) (w : List SpacedToken) (d : Chain) : Prop where
  fits : ∀ t ∈ ts, t.style ≠ "invalidchar"
  settles : (chainAfter c ts).settle = d
  exact : (w = [] → c = d) → (∀ x ∈ w.getLast?, x.token.kind = .punctuation) → chainAfter c ts = d
  last : ∀ x ∈ w.getLast?, x.gap = [] → ∃ t ∈ ts.getLast?, t.text = x.token.text

namespace Ends

variable {t : PlacedToken} {ts : List PlacedToken} {x : SpacedToken}

/-- A scan without tokens. -/
theorem nil (c : Chain) : Ends [] c [] c.settle where
  fits := by simp
  settles := rfl
  exact h _ := h rfl
  last := by simp

/-- A gap before the rest of a scan. -/
theorem gap (h : Ends ts c.settle w d) (ht : t.chain = c.settle) (hs : t.style ≠ "invalidchar")
    (hw : w = [] → c.settle = d) : Ends (t :: ts) c w d where
  fits := List.forall_mem_cons.2 ⟨hs, h.fits⟩
  settles := by
    rw [chainAfter_cons, ht]
    exact h.settles
  exact _ hp := by
    rw [chainAfter_cons, ht]
    exact h.exact hw hp
  last x hx hg := by
    obtain ⟨u, hu, he⟩ := h.last x hx hg
    exact ⟨u, by simp [List.getLast?_cons, Option.mem_def.1 hu], he⟩

/-- A token of the document before the rest of a scan. -/
theorem token (h : Ends ts t.chain w d) (hs : t.style ≠ "invalidchar") (hx : t.text = x.token.text)
    (hp : w = [] → x.token.kind = .punctuation → t.chain = d) (hn : w = [] → x.gap = [] → ts = []) :
    Ends (t :: ts) c (x :: w) d where
  fits := List.forall_mem_cons.2 ⟨hs, h.fits⟩
  settles := by
    rw [chainAfter_cons]
    exact h.settles
  exact _ hl := by
    rw [chainAfter_cons]
    cases w with
    | nil => exact h.exact (fun _ => hp rfl (hl x rfl)) (by simp)
    | cons y w => exact h.exact nofun fun z hz => hl z (by simpa [List.getLast?_cons] using hz)
  last z hz hg := by
    cases w with
    | nil =>
      obtain rfl : x = z := Option.some.inj hz
      rw [hn rfl hg]
      exact ⟨t, rfl, hx⟩
    | cons y w =>
      obtain ⟨u, hu, he⟩ := h.last z (by simpa [List.getLast?_cons] using hz) hg
      exact ⟨u, by simp [List.getLast?_cons, Option.mem_def.1 hu], he⟩

end Ends

/-- A text of tokens begins with a character that is not ignored. -/
theorem isIgnored_head_render {w : List SpacedToken} (hw : ∀ x ∈ w, x.token.IsWhole) :
    ∀ c ∈ (render w).head?, isIgnored c = false := by
  intro c hc
  cases w with
  | nil => cases hc
  | cons x w =>
    obtain ⟨d, cs, hd, hs⟩ := (hw x List.mem_cons_self).exists_start
    rw [render_cons, hd] at hc
    obtain rfl : d = c := Option.some.inj hc
    exact (Lexer.not_isIgnored_of_isStart hs).1

/-- What is ahead of a token does not change how it is read. -/
theorem lex?_ahead {x : SpacedToken} (h : LaidOut (x :: w)) :
    Lexer.lex? (x.token.text.toList ++ x.ahead w) = some x.token := by
  refine h.head.whole.lex?_append h.endsToken_ahead (h.head.closed.imp id fun hg => ?_)
  cases hgap : x.gap with
  | nil =>
    have hw : w = [] := by_contra fun hw => h.gap_ne_nil hw hgap
    simp [SpacedToken.ahead, hgap, hw, firstLine]
  | cons c g =>
    have hc : c = '\n' := hg c (by simp [hgap])
    simp [SpacedToken.ahead, hgap, hc, firstLine]

/-- A gap is a part on one line and a rest that begins with a line break, if there is one. -/
theorem exists_eq_append_line (g : List Char) :
    ∃ u v, g = u ++ v ∧ '\n' ∉ u ∧ ∀ c ∈ v.head?, c = '\n' := by
  let p : Char → Bool := (· != '\n')
  refine ⟨g.takeWhile p, g.dropWhile p, List.takeWhile_append_dropWhile.symm, ?_, ?_⟩
  · intro hm
    simpa [p] using List.mem_takeWhile_imp hm
  · intro c hc
    have hd := List.head?_dropWhile_not p g
    rw [Option.mem_def.1 hc] at hd
    simpa [p] using hd

/-- After the part of a gap that is on one line nothing ignored is next on that line. -/
theorem not_isIgnored_of_line {v r l : List Char} {ls : List (List Char)}
    (hv : ∀ c ∈ v.head?, c = '\n') (hr : ∀ c ∈ r.head?, isIgnored c = false)
    (hl : splitLines (v ++ r) = l :: ls) : ∀ c ∈ l.head?, isIgnored c = false := by
  intro c hc
  rw [← firstLine_of_splitLines hl] at hc
  obtain ⟨hc, hne⟩ := head?_firstLine hc
  cases v with
  | nil => exact hr c hc
  | cons b v =>
    obtain rfl : b = c := Option.some.inj hc
    exact absurd (hv b rfl) hne

/-- A gap on one line is one token, which settles the chain. -/
theorem tokensOn_gap (row : Nat) (c : Chain) {u v r : List Char} (hu : u ≠ []) (hline : '\n' ∉ u)
    (hg : ∀ c ∈ u, isIgnored c = true) (hv : ∀ c ∈ v.head?, c = '\n')
    (hr : ∀ c ∈ r.head?, isIgnored c = false) (hs : s.rest :: ls = splitLines (u ++ (v ++ r))) :
    tokensOn row s c ls = place (s.take u.length) c.settle "ws" row ::
        tokensOn row (s.take u.length) c.settle ls ∧
      (s.take u.length).rest :: ls = splitLines (v ++ r) ∧ (s.take u.length).token = u := by
  obtain ⟨l, ls', hl⟩ := List.exists_cons_of_ne_nil (splitLines_ne_nil (v ++ r))
  rw [splitLines_append hline hl] at hs
  obtain ⟨hrest, rfl⟩ := List.cons.inj hs
  have hread := read_gap hrest hg hu (not_isIgnored_of_line hv hr hl) c
  have hne : s.rest ≠ [] := by
    rw [hrest]
    exact List.append_ne_nil_of_left_ne_nil hu l
  refine ⟨tokensOn_of_read hne hread, ?_, ?_⟩
  · rw [hl, Stream.rest_take, hrest, List.drop_left]
  · rw [Stream.token_take, hrest, List.take_left]

/-- Where the text of a token is next, the rest of the line is that text and what is ahead of it, and
the text after the token is left when it is taken. -/
theorem rest_of_render {x : SpacedToken} (hx : x.token.IsWhole)
    (hs : s.rest :: ls = splitLines (render (x :: w))) :
    s.rest = x.token.text.toList ++ x.ahead w ∧
      let s' := s.take x.token.text.toList.length
      s'.rest :: ls = splitLines (x.gap ++ render w) ∧ s'.token = x.token.text.toList := by
  obtain ⟨l, ls', hl⟩ := List.exists_cons_of_ne_nil (splitLines_ne_nil (x.gap ++ render w))
  rw [render_cons, splitLines_append hx.oneLine hl] at hs
  obtain ⟨hrest, rfl⟩ := List.cons.inj hs
  -- What is left of the line is what is ahead of the token.
  obtain rfl : x.ahead w = l := firstLine_of_splitLines hl
  refine ⟨hrest, ?_, ?_⟩
  · rw [Stream.rest_take, hrest, List.drop_left, hl]
  · rw [Stream.token_take, hrest, List.take_left]

/-- A token is read as it is in the text, and what is due after it leads to what it takes the chain
to. -/
theorem exists_tokensOn_token (row : Nat) {x : SpacedToken} (hw : LaidOut (x :: w))
    (hs : s.rest :: ls = splitLines (render (x :: w))) (hc : c.IsRegular)
    (hx : Chain.Takes x (x.ahead w) c.settle d) :
    ∃ style c', style ≠ "invalidchar" ∧ c'.IsRegular ∧ c'.settle = d ∧
      (x.token.kind = .punctuation → c' = d) ∧
      let s' := s.take x.token.text.length
      tokensOn row s c ls = place s' c' style row :: tokensOn row s' c' ls ∧
        s'.rest :: ls = splitLines (x.gap ++ render w) ∧ s'.token = x.token.text.toList := by
  have hwhole := hw.head.whole
  obtain ⟨hrest, hlines, htoken⟩ := rest_of_render hwhole hs
  have hlex := lex?_ahead hw
  rw [← hrest] at hlex
  obtain ⟨style, c', hread, hstyle, hc', hset, hpun⟩ := read_token hwhole hrest hlex hc hx
  have hne : s.rest ≠ [] := by
    rw [hrest]
    exact List.append_ne_nil_of_left_ne_nil hwhole.toList_ne_nil _
  rw [String.length_toList] at hlines htoken
  exact ⟨style, c', hstyle, hc', hset, hpun, tokensOn_of_read hne hread, hlines, htoken⟩

/-- At the end of the text no token is left. -/
theorem tokensOn_eq_nil (hs : s.rest :: ls = splitLines []) : tokensOn row s c ls = [] := by
  have hnil : s.rest :: ls = [[]] := hs
  obtain ⟨hrest, rfl⟩ := List.cons.inj hnil
  exact tokensOn_nil hrest

/-- The tokens of a scan **trace** a run from what a chain settles to: each is a gap, or the next
one that the run takes. -/
inductive Traces : List PlacedToken → Chain → List SpacedToken → Chain → Prop
  /-- The text is at its end. -/
  | nil {c : Chain} (hc : c.IsRegular) : Traces [] c [] c.settle
  /-- A gap, which settles the chain. -/
  | gap {c d : Chain} {t : PlacedToken} {ts : List PlacedToken} {w : List SpacedToken}
      (hc : c.IsRegular) (ht : t.chain = c.settle) (hs : t.style ≠ "invalidchar")
      (h : Traces ts t.chain w d) : Traces (t :: ts) c w d
  /-- A token. What is due after it is made up for at once after punctuation. -/
  | token {c d : Chain} {t : PlacedToken} {ts : List PlacedToken} {x : SpacedToken}
      {w : List SpacedToken} (hc : c.IsRegular)
      (hx : Chain.Takes x (x.ahead w) c.settle t.chain.settle) (htext : t.text = x.token.text)
      (hs : t.style ≠ "invalidchar")
      (hp : x.token.kind = .punctuation → t.chain = t.chain.settle)
      (hn : w = [] → x.gap = [] → ts = []) (h : Traces ts t.chain w d) :
      Traces (t :: ts) c (x :: w) d

/-- A scan **follows a run** of the chain over the tokens of the text. -/
theorem traces_tokensOn (hw : LaidOut w) (hg : ∀ c ∈ g, isSeparator c = true)
    (hs : s.rest :: ls = splitLines (g ++ render w)) (hc : c.IsRegular)
    (hr : TakesAll [] c.settle w d) : Traces (tokensOn row s c ls) c w d := by
  -- The induction is on the text that is left, through its lines.
  induction hn : (g ++ render w).length using Nat.strongRecOn generalizing row s c ls g w with
  | ind n ih =>
    subst hn
    obtain ⟨u, v, rfl, hline, hv⟩ := exists_eq_append_line g
    have hsep : ∀ c ∈ u, isSeparator c = true := fun c hm => hg c (List.mem_append_left _ hm)
    have hrest : ∀ c ∈ v, isSeparator c = true := fun c hm => hg c (List.mem_append_right _ hm)
    by_cases hu : u = []
    · subst hu
      cases v with
      | cons a v =>
        -- The line ends here.
        obtain rfl : a = '\n' := hv a rfl
        obtain ⟨l, ls', hl⟩ := List.exists_cons_of_ne_nil (splitLines_ne_nil (v ++ render w))
        rw [List.nil_append, List.cons_append, splitLines_feed, hl] at hs
        obtain ⟨hend, rfl⟩ := List.cons.inj hs
        rw [tokensOn_of_rest_eq_nil hend hc]
        exact ih _ (by simp) hw (fun c hm => hrest c (List.mem_cons_of_mem _ hm)) (by simp [hl])
          hc hr rfl
      | nil =>
        cases w with
        | nil =>
          rw [tokensOn_eq_nil hs, hr.eq_of_nil]
          exact .nil hc
        | cons x w =>
          obtain ⟨d₁, hx, hr⟩ := hr.exists_of_cons
          rw [List.append_nil] at hx
          obtain ⟨style, c', hstyle, htc, rfl, hpun, ht, hs', htoken⟩ :=
            exists_tokensOn_token row hw hs hc hx
          rw [ht]
          have htext : String.ofList (s.take x.token.text.length).token = x.token.text := by
            rw [htoken, String.ofList_toList]
          have hlen : (x.gap ++ render w).length < ([] ++ [] ++ render (x :: w)).length := by
            have := List.length_pos_iff.2 hw.head.whole.toList_ne_nil
            simp only [List.nil_append, render_cons, List.length_append]
            omega
          refine .token hc hx htext hstyle hpun ?_
            (ih _ hlen hw.of_cons hw.head.separators hs' htc hr rfl)
          rintro rfl hgap
          rw [hgap] at hs'
          exact tokensOn_eq_nil hs'
    · -- The gap is read up to the next token or the end of the line.
      rw [List.append_assoc] at hs
      obtain ⟨ht, hs', -⟩ := tokensOn_gap row c hu hline
        (fun c hm => isIgnored_of_isSeparator (hsep c hm)) hv (isIgnored_head_render hw.whole) hs
      rw [ht]
      have hset := hc.settle
      have hlen : (v ++ render w).length < ((u ++ v) ++ render w).length := by
        have := List.length_pos_iff.2 hu
        simp only [List.length_append]
        omega
      have hrun : TakesAll [] c.settle.settle w d := by
        rwa [hset.settle_eq]
      exact .gap hc rfl (by simp [place])
        (ih _ hlen hw hrest hs' (.inside hset.isPlaced) hrun rfl)

namespace Traces

variable {ts : List PlacedToken}

/-- Tokens that trace a run begin with a regular chain. -/
theorem isRegular (h : Traces ts c w d) : c.IsRegular := by
  cases h with
  | nil hc | gap hc | token hc => exact hc

/-- Gaps alone only settle the chain. -/
theorem eq_of_nil (h : Traces ts c [] d) : d = c.settle := by
  generalize hw : ([] : List SpacedToken) = w at h
  induction h with
  | nil => rfl
  | gap hc ht _ _ ih => rw [ih hw, ht, hc.settle.settle_eq]
  | token => cases hw

/-- A scan that traces a run **ends** as the run does. -/
theorem ends (h : Traces ts c w d) : Ends ts c w d := by
  induction h with
  | nil => exact .nil _
  | gap hc ht hs h ih =>
    refine .gap (ht ▸ ih) ht hs ?_
    rintro rfl
    rw [h.eq_of_nil, ht, hc.settle.settle_eq]
  | token hc hx htext hs hp hn h ih =>
    refine ih.token hs htext ?_ hn
    rintro rfl hk
    rw [h.eq_of_nil]
    exact hp hk

end Traces

end Scan

/-! ### The cursor at the end -/

namespace Scan

open Chain

variable {α : Type} {visit : α → PlacedToken → α × Bool}

/-- A visitor that stops at no token of a line sees all of them. -/
theorem visitLine_eq {p : Progress α} {f : α → PlacedToken → α}
    (h : ∀ a, ∀ t ∈ lineTokens p.row p.stream p.chain, visit a t = (f a t, false))
    (hp : p.stopped = false) :
    (visitLine visit p).gathered = (lineTokens p.row p.stream p.chain).foldl f p.gathered ∧
      (visitLine visit p).stopped = false ∧
      (visitLine visit p).chain = chainAfter p.chain (lineTokens p.row p.stream p.chain) := by
  fun_induction visitLine visit p with
  | case1 p hs =>
    rw [lineTokens, dif_pos hs]
    exact ⟨rfl, hp, rfl⟩
  | case2 p hs r gathered hv =>
    rw [lineTokens, dif_neg hs] at h
    have := (h p.gathered _ List.mem_cons_self).symm.trans hv
    cases congrArg Prod.snd this
  | case3 p hs r gathered stop hv hstop ih =>
    rw [lineTokens, dif_neg hs] at h ⊢
    have := (h p.gathered _ List.mem_cons_self).symm.trans hv
    rw [chainAfter_cons, List.foldl_cons, (Prod.mk.inj this).1]
    exact ih (fun a t ht => h a t (List.mem_cons_of_mem _ ht)) rfl

/-- A visitor that stops at no token sees all of them. -/
theorem visitFrom_eq {f : α → PlacedToken → α} {ls : List (List Char)} {row : Nat} {p : Progress α}
    (h : ∀ a, ∀ t ∈ tokensFrom row p.chain ls, visit a t = (f a t, false))
    (hp : p.stopped = false) :
    (visitFrom visit row p ls).gathered = (tokensFrom row p.chain ls).foldl f p.gathered := by
  induction ls generalizing row p with
  | nil => rfl
  | cons l ls ih =>
    obtain ⟨hg, hs, hc⟩ := visitLine_eq (p := { p with stream := .ofLine l, row := row })
      (fun a t ht => h a t (List.mem_append_left _ ht)) hp
    rw [visitFrom, tokensFrom, List.foldl_append]
    -- Only what was shown of the visit of the first line matters for the others.
    generalize visitLine visit { p with stream := .ofLine l, row := row } = q at hg hs hc ⊢
    dsimp only at hg hc ⊢
    rw [if_neg (by simp [hs]), ← hg, ← hc]
    refine ih (p := { q with chain := renew q.chain }) (fun a t ht => h a t ?_) hs
    dsimp only at ht
    rw [hc] at ht
    exact List.mem_append_right _ ht

/-- A reading takes some characters of the line. -/
theorem stream_read (s : Stream) (c : Chain) :
    (Chain.read standard s c).stream = s ∨ ∃ n, (Chain.read standard s c).stream = s.take n := by
  unfold Chain.read
  dsimp only
  -- A reading takes ignored characters, or a token, or else what cannot be read.
  cases hw : s.skipWhile isIgnored with
  | some s' =>
    unfold Stream.skipWhile at hw
    split at hw
    · cases hw
    · exact .inr ⟨_, (Option.some.inj hw).symm⟩
  | none =>
    cases hn : s.next? with
    | none =>
      change skipUnknown s = s ∨ ∃ n, skipUnknown s = s.take n
      unfold skipUnknown Stream.read?
      cases Lexer.nonBlankRun s.rest with
      | some u => exact .inr ⟨_, rfl⟩
      | none =>
        cases Lexer.oneBlank s.rest with
        | some u => exact .inr ⟨_, rfl⟩
        | none => exact .inl rfl
    | some p =>
      obtain ⟨t, s'⟩ := p
      obtain ⟨u, -, he⟩ := Option.map_eq_some_iff.1 hn
      obtain ⟨-, rfl⟩ := Prod.mk.inj he
      refine .inr ⟨u.text.length, ?_⟩
      dsimp only
      split
      · rfl
      · split <;> rfl

/-- A reading goes on along the same line. -/
theorem position_read (s : Stream) (c : Chain) :
    (Chain.read standard s c).stream.position + (Chain.read standard s c).stream.rest.length =
      s.position + s.rest.length := by
  obtain h | ⟨n, h⟩ := stream_read s c
  · rw [h]
  · rw [h, Stream.position_take, Stream.rest_take, List.length_drop]
    omega

/-- A token ends on its line. -/
theorem row_of_mem_lineTokens {row : Nat} {s : Stream} {c : Chain} {t : PlacedToken}
    (ht : t ∈ lineTokens row s c) : t.row = row ∧ t.stop ≤ s.position + s.rest.length := by
  fun_induction lineTokens row s c with
  | case1 => cases ht
  | case2 s c hs r ih =>
    have hr : r.stream.position + r.stream.rest.length = _ := position_read s c
    rcases List.mem_cons.1 ht with rfl | ht
    · refine ⟨rfl, ?_⟩
      change r.stream.position ≤ _
      omega
    · obtain ⟨hrow, hstop⟩ := ih ht
      exact ⟨hrow, by omega⟩

/-- The lines of the tokens. -/
theorem row_of_mem_tokensFrom {ls : List (List Char)} {row : Nat} {c : Chain} {t : PlacedToken}
    (ht : t ∈ tokensFrom row c ls) :
    ∃ l, ls[t.row - row]? = some l ∧ row ≤ t.row ∧ t.stop ≤ l.length := by
  induction ls generalizing row c with
  | nil => cases ht
  | cons l ls ih =>
    rcases List.mem_append.1 ht with ht | ht
    · obtain ⟨rfl, hstop⟩ := row_of_mem_lineTokens ht
      exact ⟨l, by simp, Nat.le_refl _, by simpa using hstop⟩
    -- The other lines are counted from the row after this one.
    · obtain ⟨m, hm, hle, hstop⟩ := ih ht
      refine ⟨m, ?_, by omega, hstop⟩
      obtain ⟨i, hi⟩ : ∃ i, t.row = row + 1 + i := ⟨t.row - (row + 1), by omega⟩
      rw [hi, show row + 1 + i - row = i + 1 by omega]
      rwa [hi, show row + 1 + i - (row + 1) = i by omega] at hm

/-- A document whose last line is not empty has a token there, and it is the last one. -/
theorem getLast?_tokensFrom {ls : List (List Char)} {l : List Char} (hl : l ≠ []) {row : Nat}
    {c : Chain} :
    ∃ t, (tokensFrom row c (ls ++ [l])).getLast? = some t ∧ t.row = row + ls.length := by
  induction ls generalizing row c with
  | nil =>
    have hne : lineTokens row (.ofLine l) c ≠ [] := by
      rw [lineTokens, dif_neg (by simpa using hl)]
      exact List.cons_ne_nil _ _
    refine ⟨_, by simpa [tokensFrom] using List.getLast?_eq_some_getLast hne, ?_⟩
    exact (row_of_mem_lineTokens (List.getLast_mem hne)).1
  | cons m ls ih =>
    obtain ⟨t, ht, hrow⟩ := @ih (row + 1) (renew (chainAfter c (lineTokens row (.ofLine m) c)))
    refine ⟨t, ?_, by simp only [List.length_cons]; omega⟩
    simp only [List.cons_append, tokensFrom, List.getLast?_append, ht, Option.some_or]

/-- **The scan of a laid out document follows a run** of the chain from the start. -/
theorem traces_tokens {lead : List Char} {w : List SpacedToken} {d : Chain}
    (hlead : ∀ c ∈ lead, isSeparator c = true) (hw : LaidOut w) (hr : TakesAll [] .start w d) :
    Traces (tokens (lead ++ render w)) .start w d := by
  obtain ⟨l, ls, hl⟩ := List.exists_cons_of_ne_nil (splitLines_ne_nil (lead ++ render w))
  have : Traces (tokensOn 0 (.ofLine l) .start ls) .start w d :=
    traces_tokensOn hw hlead (by simp [hl]) isRegular_start hr
  rw [tokens, hl]
  exact this

/-- So it ends as the run does. -/
theorem ends_tokens {lead : List Char} {w : List SpacedToken} {d : Chain}
    (hlead : ∀ c ∈ lead, isSeparator c = true) (hw : LaidOut w) (hr : TakesAll [] .start w d) :
    Ends (tokens (lead ++ render w)) .start w d :=
  (traces_tokens hlead hw hr).ends

end Scan

namespace Cursor

open Scan

/-- At the end of a document whose last line is not empty the cursor is **at the last token**. -/
theorem locate_atEnd {document : List Char} (h : (splitLines document).getLast? ≠ some []) :
    (tokens document).getLast? = some ((atEnd document).locate document) := by
  obtain ⟨ls, l, hls⟩ : ∃ ls l, splitLines document = ls ++ [l] :=
    ⟨_, _, (List.dropLast_concat_getLast (splitLines_ne_nil document)).symm⟩
  have hl : l ≠ [] := by
    rintro rfl
    exact h (by simp [hls])
  let c := atEnd document
  have hrow : c.row = ls.length := by simp [c, atEnd, hls]
  have hcol : c.column = l.length := by simp [c, atEnd, hls]
  have hlines : c.linesUpTo document = splitLines document := by
    rw [linesUpTo, hrow, hls]
    exact List.take_of_length_le (by simp)
  obtain ⟨t, ht, htrow⟩ := @getLast?_tokensFrom ls l hl 0 .start
  let f : Option PlacedToken → PlacedToken → Option PlacedToken := fun kept t =>
    if (t.row : Int) ≠ c.row then kept else some t
  -- No token ends past the last line, so the scan never stops.
  have hobs : ∀ a, ∀ t ∈ tokensFrom 0 .start (splitLines document),
      c.observe a t = (f a t, false) := by
    intro a t ht
    obtain ⟨m, hm, -, hstop⟩ := row_of_mem_tokensFrom ht
    by_cases hr : (t.row : Int) ≠ c.row
    · simp [observe, f, hr]
    · have he : t.row = ls.length := by omega
      obtain rfl : l = m := by simpa [hls, he] using hm
      have hle : ¬(t.stop : Int) > c.column := by omega
      simp [observe, f, hr, hle]
  have hv : (Scan.visit c.observe none (c.linesUpTo document)).gathered =
      (tokensFrom 0 .start (splitLines document)).foldl f none := by
    rw [hlines]
    exact visitFrom_eq hobs rfl
  -- The last token that is kept is the last one of all, since it is on the row of the cursor.
  have hlast : (tokensFrom 0 .start (splitLines document)).foldl f none = some t := by
    rw [hls]
    obtain ⟨ts, hts⟩ := List.getLast?_eq_some_iff.1 ht
    rw [hts, List.foldl_append]
    simp [f, htrow, hrow]
  have hloc : c.locate document = t := by
    rw [locate, hv, hlast]
    rfl
  rw [tokens, hls, ht]
  exact congrArg some hloc.symm

end Cursor

end QueryAssist
