import QueryAssist.Proofs.Cursor.Cut
import QueryAssist.Proofs.Layout.Ending

/-! # Where the tokens of a laid out document are placed

A scan that has read a part of a document stands at the cursor at the end of that part. So each
token of a laid out document ends where its text does, and a cursor right after it is at that token,
whatever stands to the right. Main definition:

* **`Scan.Stands`** — a scan between two parts of a document.

Main statements:

* **`exists_tokens_of_run`** — the token that a run takes last ends where its text does.
* **`Cursor.locate_of_mem`** — the cursor right after a token is at that token.
* **`endsAt_of_blank`** — a document that ends in blanks ends at the chain that is left settled. -/

namespace QueryAssist

open Grammar Chain

/-! ### Parts of a document -/

/-- A line break begins a new line. -/
theorem splitLines_append_feed {q l : List Char} {ls : List (List Char)}
    (hl : splitLines q = ls ++ [l]) : splitLines (q ++ ['\n']) = (ls ++ [l]) ++ [[]] := by
  simpa using splitLines_append_lines hl (splitLines_feed [])

namespace Scan

/-- A scan **stands** between two parts of a document if the text before it ends on its row at its
position, and the rest of its line with the lines that are left are those of the text after it. -/
structure Stands (before : List Char) (row : Nat) (s : Stream) (ls : List (List Char))
    (after : List Char) : Prop where
  earlier : ∃ ks k, splitLines before = ks ++ [k] ∧ ks.length = row ∧ k.length = s.position
  lines : s.rest :: ls = splitLines after

namespace Stands

variable {before after u : List Char} {row : Nat} {s : Stream} {ls : List (List Char)}

/-- The cursor at the end of the text before a scan is where the scan stands. -/
theorem atEnd_eq (h : Stands before row s ls after) :
    Cursor.atEnd before = ⟨row, s.position⟩ := by
  obtain ⟨ks, k, hb, rfl, hk⟩ := h.earlier
  simp [Cursor.atEnd, hb, hk]

/-- A scan begins at the start of a document. -/
theorem start (document : List Char) : ∃ l ls, Stands [] 0 (.ofLine l) ls document ∧
    tokens document = tokensOn 0 (.ofLine l) .start ls := by
  obtain ⟨l, ls, hl⟩ := List.exists_cons_of_ne_nil (splitLines_ne_nil document)
  refine ⟨l, ls, ⟨⟨[], [], rfl, rfl, rfl⟩, hl.symm⟩, ?_⟩
  rw [tokens, hl]
  rfl

/-- A scan reads on in its line. -/
theorem take (h : Stands before row s ls after) {after' : List Char} (hu : '\n' ∉ u)
    (htoken : (s.take u.length).token = u)
    (hlines : (s.take u.length).rest :: ls = splitLines after') :
    Stands (before ++ u) row (s.take u.length) ls after' := by
  obtain ⟨ks, k, hb, hrow, hk⟩ := h.earlier
  refine ⟨⟨ks, k ++ u, splitLines_append_of_notMem hb hu, hrow, ?_⟩, hlines⟩
  rw [List.length_append, hk, Stream.position, Stream.position, htoken, Stream.start_take]
  rfl

/-- At a line break a scan goes on to the next line. -/
theorem feed (h : Stands before row s ls ('\n' :: after)) :
    ∃ l ls', ls = l :: ls' ∧ s.rest = [] ∧
      Stands (before ++ ['\n']) (row + 1) (.ofLine l) ls' after := by
  obtain ⟨ks, k, hb, hrow, -⟩ := h.earlier
  have hlines := h.lines
  rw [splitLines_feed] at hlines
  obtain ⟨hrest, hls⟩ := List.cons.inj hlines
  obtain ⟨l, ls', hl⟩ := List.exists_cons_of_ne_nil (splitLines_ne_nil after)
  refine ⟨l, ls', hls.trans hl, hrest, ⟨_, [], splitLines_append_feed hb, by simp [hrow], rfl⟩,
    hl.symm⟩

end Stands

/-! ### Gaps -/

variable {before after g r : List Char} {row : Nat} {s : Stream} {c d : Chain}
  {ls : List (List Char)} {v w : List SpacedToken} {x : SpacedToken}

/-- A text of ignored characters has no word character. -/
theorem isFilterable_of_isIgnored (hg : ∀ c ∈ g, isIgnored c = true) :
    isFilterable g = false := by
  rw [isFilterable, List.any_eq_false]
  intro c hc
  rw [not_of_isIgnored (p := isWord) (by decide +kernel) (hg c hc)]
  exact Bool.false_ne_true

/-- The tokens of a gap **rest** at a chain: each leaves the chain settled and has no word
character. -/
def RestsOver (ts : List PlacedToken) (d : Chain) : Prop :=
  ∀ t ∈ ts, t.chain = d ∧ isFilterable t.text.toList = false

/-- A scan **goes over a gap**, through its lines, and reads nothing else. There is a token on its
last line if the gap does not end in a line break. -/
theorem exists_tokensOn_gaps (hr : ∀ c ∈ r.head?, isIgnored c = false)
    (hg : ∀ c ∈ g, isIgnored c = true) (hs : Stands before row s ls (g ++ r)) (hc : c.IsRegular) :
    ∃ ts row' s' ls' c', tokensOn row s c ls = ts ++ tokensOn row' s' c' ls' ∧
      Stands (before ++ g) row' s' ls' r ∧ c'.IsRegular ∧ c'.settle = c.settle ∧
      RestsOver ts c.settle ∧ ((∃ a ∈ g.getLast?, a ≠ '\n') → ts ≠ []) ∧
      ∀ t ∈ ts, t.style = "ws" := by
  -- The induction is on the gap that is left.
  induction hn : g.length using Nat.strongRecOn generalizing before row s ls c g with
  | ind n ih =>
    subst hn
    obtain ⟨u, v, rfl, hline, hv⟩ := exists_eq_append_line g
    have hu' : ∀ c ∈ u, isIgnored c = true := fun c hm => hg c (List.mem_append_left _ hm)
    have hrest : ∀ c ∈ v, isIgnored c = true := fun c hm => hg c (List.mem_append_right _ hm)
    by_cases hu : u = []
    · subst hu
      cases v with
      | nil =>
        exact ⟨[], row, s, ls, c, (List.nil_append _).symm, by simpa using hs, hc, rfl,
          List.forall_mem_nil _, by simp, List.forall_mem_nil _⟩
      | cons a v =>
        obtain rfl : a = '\n' := hv a rfl
        obtain ⟨l, ls', rfl, hend, hs'⟩ := hs.feed
        obtain ⟨ts, row', s', ls'', c', ht, hstands, hc', hset, hover, hne, hws⟩ :=
          ih v.length (by simp) (fun c hm => hrest c (List.mem_cons_of_mem _ hm)) hs' hc rfl
        rw [tokensOn_of_rest_eq_nil hend hc]
        refine ⟨ts, row', s', ls'', c', ht, by simpa using hstands, hc', hset, hover, ?_, hws⟩
        rintro ⟨a, ha, hfeed⟩
        refine hne ⟨a, ?_, hfeed⟩
        cases v with
        | nil => exact absurd (Option.some.inj ha).symm hfeed
        | cons b v => simpa [List.getLast?_cons_cons] using ha
    · have hs₁ := hs
      rw [List.append_assoc] at hs₁
      obtain ⟨ht, hlines, htoken⟩ := tokensOn_gap row c hu hline hu' hv hr hs₁.lines
      have hset := hc.settle
      have hlen : v.length < (u ++ v).length := by
        have := List.length_pos_iff.2 hu
        simp only [List.length_append]
        omega
      obtain ⟨ts, row', s', ls', c', ht', hstands, hc', hset', hover, -, hws⟩ :=
        ih v.length hlen hrest (hs₁.take hline htoken hlines) (.inside hset.isPlaced) rfl
      rw [hset.settle_eq] at hset' hover
      refine ⟨_ :: ts, row', s', ls', c', by rw [ht, ht', List.cons_append],
        by simpa using hstands, hc', hset', List.forall_mem_cons.2 ⟨⟨rfl, ?_⟩, hover⟩,
        fun _ => List.cons_ne_nil _ _, List.forall_mem_cons.2 ⟨rfl, hws⟩⟩
      change isFilterable (String.ofList (s.take u.length).token).toList = false
      rw [htoken, String.toList_ofList]
      exact isFilterable_of_isIgnored hu'

/-! ### Runs -/

/-- A scan reads a gap and the token after it. -/
theorem exists_tokensOn_next (hw : LaidOut (x :: w)) (hg : ∀ c ∈ g, isSeparator c = true)
    (hs : Stands before row s ls (g ++ render (x :: w))) (hc : c.IsRegular)
    (hx : Chain.Takes x (x.ahead w) c.settle d) :
    ∃ ts t s' ls', tokensOn row s c ls = ts ++ t :: tokensOn t.row s' t.chain ls' ∧
      Stands (before ++ (g ++ x.token.text.toList)) t.row s' ls' (x.gap ++ render w) ∧
      t.stop = s'.position ∧ t.text = x.token.text ∧ t.chain.IsRegular ∧ t.chain.settle = d ∧
      (x.token.kind = .punctuation → t.chain = d) := by
  obtain ⟨ts, row', s', ls', c', ht, hstands, hc', hset, -⟩ :=
    exists_tokensOn_gaps (isIgnored_head_render hw.whole)
      (fun c hm => isIgnored_of_isSeparator (hg c hm)) hs hc
  rw [← hset] at hx
  obtain ⟨style, c'', -, hc'', hd, hpun, ht', hlines, htoken⟩ :=
    exists_tokensOn_token row' hw hstands.lines hc' hx
  rw [← String.length_toList] at ht' hlines htoken
  refine ⟨ts, place (s'.take x.token.text.toList.length) c'' style row', _, _, by rw [ht, ht']; rfl,
    ?_, rfl, ?_, hc'', hd, hpun⟩
  · rw [← List.append_assoc]
    exact hstands.take hw.head.whole.oneLine htoken hlines
  · change String.ofList (s'.take x.token.text.toList.length).token = x.token.text
    rw [htoken, String.ofList_toList]

/-- A scan **follows a run** up to its last token, which ends where its text does. -/
theorem exists_tokensOn_run (hw : LaidOut (v ++ x :: w)) (hg : ∀ c ∈ g, isSeparator c = true)
    (hs : Stands before row s ls (g ++ render (v ++ x :: w))) (hc : c.IsRegular)
    (hr : TakesAll w c.settle (v ++ [x]) d) :
    ∃ ts t s' ls', tokensOn row s c ls = ts ++ t :: tokensOn t.row s' t.chain ls' ∧
      Stands (before ++ (g ++ (render v ++ x.token.text.toList))) t.row s' ls'
        (x.gap ++ render w) ∧
      t.stop = s'.position ∧ t.text = x.token.text ∧ t.chain.IsRegular ∧ t.chain.settle = d ∧
      (x.token.kind = .punctuation → t.chain = d) := by
  induction v generalizing before row s ls c g with
  | nil =>
    obtain ⟨e, hx, hr⟩ := hr.exists_of_cons
    obtain rfl := hr.eq_of_nil
    exact exists_tokensOn_next hw hg hs hc hx
  | cons y v ih =>
    obtain ⟨e, hy, hr⟩ := TakesAll.exists_of_cons (w := v ++ [x]) hr
    rw [List.append_assoc] at hy
    obtain ⟨ts, t, s', ls', ht, hstands, -, -, hct, rfl, -⟩ := exists_tokensOn_next hw hg hs hc hy
    obtain ⟨ts', t', s'', ls'', ht', hstands', hrest⟩ :=
      ih hw.of_cons hw.head.separators hstands hct hr
    refine ⟨ts ++ t :: ts', t', s'', ls'', by rw [ht, ht']; simp, ?_, hrest⟩
    simpa using hstands'

/-- The token that a run over a part of a document takes last **ends where its text does**, and the
scan goes on after it. -/
theorem exists_tokens_of_run {lead : List Char} (hlead : ∀ c ∈ lead, isSeparator c = true)
    (hw : LaidOut (v ++ x :: w)) (hr : TakesAll w .start (v ++ [x]) d) :
    ∃ ts t s ls, tokens (lead ++ render (v ++ x :: w)) = ts ++ t :: tokensOn t.row s t.chain ls ∧
      Stands (lead ++ (render v ++ x.token.text.toList)) t.row s ls (x.gap ++ render w) ∧
      t.stop = s.position ∧ t.text = x.token.text ∧ t.chain.IsRegular ∧ t.chain.settle = d ∧
      (x.token.kind = .punctuation → t.chain = d) := by
  obtain ⟨l, ls, hs, htokens⟩ := Stands.start (lead ++ render (v ++ x :: w))
  rw [htokens]
  exact exists_tokensOn_run hw hlead hs isRegular_start hr

end Scan

/-! ### Cursors -/

namespace Cursor

open Scan

/-- The cursor **right after a token** is at that token. -/
theorem locate_of_mem {document : List Char} {t : PlacedToken} (ht : t ∈ tokens document) :
    locate ⟨t.row, t.stop⟩ document = t := by
  obtain ⟨l, hl, -, -⟩ := row_of_mem_tokensFrom ht
  obtain ⟨ls, ms, hlines, hrow⟩ := exists_append_of_getElem? hl
  rw [Nat.sub_zero] at hrow
  rw [← hrow, locate_row hlines, tokenAt, hrow]
  have honrow : ((tokens document).filter fun u => u.row == t.row).Pairwise
      fun t u => t.stop < u.stop := by
    rw [← hrow, filter_row_tokens hlines]
    exact pairwise_lineTokens _ _ _
  rw [getLast?_filter_stop honrow (List.mem_filter.2 ⟨ht, by simp⟩)]
  rfl

end Cursor

/-- The cursor right after a mark is at that mark, in the middle of a document as well. The chain
there is the one that the run up to the mark leads to. -/
theorem locate_of_run {lead : List Char} {v w : List SpacedToken} {x : SpacedToken} {d : Chain}
    (hlead : ∀ c ∈ lead, isSeparator c = true) (hw : LaidOut (v ++ x :: w))
    (hr : TakesAll w .start (v ++ [x]) d) (hp : x.token.kind = .punctuation) :
    let t := (Cursor.atEnd (lead ++ (render v ++ x.token.text.toList))).locate
      (lead ++ render (v ++ x :: w))
    t.chain = d ∧ t.text = x.token.text ∧ d.IsOpen := by
  obtain ⟨ts, t, s, ls, htokens, hstands, hstop, htext, hregular, hsettle, hexact⟩ :=
    Scan.exists_tokens_of_run hlead hw hr
  have hmem : t ∈ Scan.tokens (lead ++ render (v ++ x :: w)) := by simp [htokens]
  rw [hstands.atEnd_eq, ← hstop, Cursor.locate_of_mem hmem]
  exact ⟨hexact hp, htext, hsettle ▸ hregular.settle.toIsOpen⟩

/-- A document that ends in blanks **ends at** what the run over its tokens leads to. -/
theorem endsAt_of_blank {lead : List Char} {w : List SpacedToken} {x : SpacedToken} {d : Chain}
    (hlead : ∀ c ∈ lead, isSeparator c = true) (hw : LaidOut (w ++ [x]))
    (hr : TakesAll [] .start (w ++ [x]) d) (hg : ∃ a ∈ x.gap.getLast?, a ≠ '\n') :
    EndsAt (lead ++ render (w ++ [x])) d := by
  obtain ⟨ts, t, s, ls, htokens, hstands, -, -, hc, rfl, -⟩ :=
    Scan.exists_tokens_of_run hlead hw hr
  have hx : x.IsLaid := hw.laid x (by simp)
  obtain ⟨us, row, s', ls', c', hgap, hend, -, -, hover, hne, -⟩ :=
    Scan.exists_tokensOn_gaps (r := render []) nofun
      (fun c hm => isIgnored_of_isSeparator (hx.separators c hm)) hstands hc
  rw [hgap, Scan.tokensOn_eq_nil hend.lines, List.append_nil] at htokens
  -- The last line is not empty, so the last token of the document is in the gap at its end.
  obtain ⟨a, ha, hfeed⟩ := hg
  have hlast : (splitLines (lead ++ render (w ++ [x]))).getLast? ≠ some [] := by
    obtain ⟨g, hgx⟩ := List.getLast?_eq_some_iff.1 ha
    have hdoc : lead ++ render (w ++ [x]) =
        (lead ++ (render w ++ (x.token.text.toList ++ g))) ++ [a] := by
      rw [render_append, render_cons, hgx]
      simp
    rw [hdoc]
    exact getLast?_splitLines_ne_nil hfeed
  have hloc := Cursor.locate_atEnd hlast
  rw [htokens, List.getLast?_append, List.getLast?_cons] at hloc
  obtain ⟨u, hu⟩ := Option.isSome_iff_exists.1
    (List.getLast?_isSome.2 (hne ⟨a, ha, hfeed⟩))
  obtain ⟨hchain, htext⟩ := hover u (List.mem_of_getLast? hu)
  have hcursor : u = (Cursor.atEnd (lead ++ render (w ++ [x]))).locate
      (lead ++ render (w ++ [x])) := by simpa [hu] using hloc
  rw [hcursor] at hchain htext
  exact ⟨(Scan.ends_tokens hlead hw hr).fits, hchain, htext⟩

end QueryAssist
