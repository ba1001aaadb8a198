import Mathlib.Data.List.Basic
import QueryAssist.Proofs.Layout.Scanning

/-! # The token at a cursor

The scan for a cursor reads no line after that of the cursor and stops at the first token past it.
What it finds is what a look through all tokens of the document finds. Main definition:

* **`Scan.tokenAt`** — the token at a column of a row, from the tokens of the whole document.

Main statements: `Cursor.locate_row`, on the rows of the document, `Cursor.locate_of_row_ne`, on all
others, and `locate_eq_tokenAt`, which puts both together. -/

namespace QueryAssist

open Grammar

/-- What stands at a place of a list parts it there. -/
theorem exists_append_of_getElem? {α : Type} {as : List α} {i : Nat} {a : α}
    (h : as[i]? = some a) : ∃ bs cs, as = bs ++ a :: cs ∧ bs.length = i := by
  obtain ⟨hlt, rfl⟩ := List.getElem?_eq_some_iff.1 h
  exact ⟨_, _, (List.take_append_drop i _).symm.trans
    (congrArg _ (List.drop_eq_getElem_cons hlt)), List.length_take_of_le hlt.le⟩

namespace Scan

open Chain

/-! ### Tokens by rows -/

/-- The style that some tokens leave, if it was a given one before them. -/
def styleAfter (style : String) (ts : List PlacedToken) : String :=
  (ts.getLast?.map (·.style)).getD style

/-- The empty token at the start of a row, with what the rows before it leave. -/
def emptyAt (row : Nat) (earlier : List PlacedToken) : PlacedToken :=
  ⟨0, 0, "", chainAfter .start earlier, styleAfter "" earlier, row⟩

/-- The **token at a column of a row**, found among all tokens of a document: the last one of the
row that ends at the column or before it, or else the first one of the row. A row without tokens has
an empty one. -/
def tokenAt (document : List Char) (row : Nat) (column : Int) : PlacedToken :=
  let onRow := (tokens document).filter fun t => t.row == row
  let earlier := (tokens document).filter fun t => decide (t.row < row)
  ((onRow.filter fun t => decide ((t.stop : Int) ≤ column)).getLast?.or onRow.head?).getD
    (emptyAt row earlier)

variable {row : Nat} {c : Chain} {ls ms : List (List Char)} {l : List Char}

/-- The chain after two lists of tokens is that after the second, read on from the first. -/
theorem chainAfter_append (c : Chain) (ts us : List PlacedToken) :
    chainAfter c (ts ++ us) = chainAfter (chainAfter c ts) us := by
  simp only [chainAfter, List.getLast?_append]
  cases us.getLast? <;> rfl

/-- So it is with the style. -/
theorem styleAfter_append (style : String) (ts us : List PlacedToken) :
    styleAfter style (ts ++ us) = styleAfter (styleAfter style ts) us := by
  simp only [styleAfter, List.getLast?_append]
  cases us.getLast? <;> rfl

/-- The chain after some lines is regular. -/
theorem isRegular_chainAfter_tokensFrom (hc : c.IsRegular) :
    (chainAfter c (tokensFrom row c ls)).IsRegular :=
  isRegular_chainAfter hc fun _ ht => isRegular_of_mem_tokensFrom hc ht

/-- The tokens of a line leave a regular chain. -/
theorem isRegular_chainAfter_lineTokens {s : Stream} (hc : c.IsRegular) :
    (chainAfter c (lineTokens row s c)).IsRegular :=
  isRegular_chainAfter hc fun _ ht => isRegular_of_mem_lineTokens hc ht

/-- The tokens of some lines and of others after them. -/
theorem tokensFrom_append (hc : c.IsRegular) :
    tokensFrom row c (ls ++ ms) = tokensFrom row c ls ++
      tokensFrom (row + ls.length) (chainAfter c (tokensFrom row c ls)) ms := by
  induction ls generalizing row c with
  | nil => rfl
  | cons l ls ih =>
    have hl : (chainAfter c (lineTokens row (.ofLine l) c)).IsRegular :=
      isRegular_chainAfter_lineTokens hc
    simp only [List.cons_append, tokensFrom, hl.renew_eq]
    rw [ih hl, List.append_assoc, chainAfter_append, List.length_cons, Nat.add_assoc,
      Nat.add_comm 1]

/-- A reading moves the position. -/
theorem position_lt_read {s : Stream} (c : Chain) (hs : s.rest ≠ []) :
    s.position < (Chain.read standard s c).stream.position := by
  have hlt := length_rest_read_lt standard c hs
  have heq := position_read s c
  omega

/-- A token ends past the place where its line is read from. -/
theorem position_lt_of_mem_lineTokens {s : Stream} {t : PlacedToken}
    (ht : t ∈ lineTokens row s c) : s.position < t.stop := by
  fun_induction lineTokens row s c with
  | case1 => cases ht
  | case2 s c hs r ih =>
    have hlt : s.position < r.stream.position := position_lt_read c hs
    rcases List.mem_cons.1 ht with rfl | ht
    · exact hlt
    · exact hlt.trans (ih ht)

/-- Along a line the tokens end **further and further right**. -/
theorem pairwise_lineTokens (row : Nat) (s : Stream) (c : Chain) :
    (lineTokens row s c).Pairwise fun t u => t.stop < u.stop := by
  fun_induction lineTokens row s c with
  | case1 => exact .nil
  | case2 s c hs r ih => exact .cons (fun u hu => position_lt_of_mem_lineTokens hu) ih

/-- The tokens of a document: those of the lines before a line, those of the line itself, and those
of the lines after it. -/
theorem tokens_eq {document : List Char} (hl : splitLines document = ls ++ l :: ms) :
    tokens document = tokensFrom 0 .start ls ++
      (lineTokens ls.length (.ofLine l) (chainAfter .start (tokensFrom 0 .start ls)) ++
        tokensFrom (ls.length + 1)
          (renew (chainAfter (chainAfter .start (tokensFrom 0 .start ls))
            (lineTokens ls.length (.ofLine l) (chainAfter .start (tokensFrom 0 .start ls)))))
          ms) := by
  rw [tokens, hl, tokensFrom_append isRegular_start, Nat.zero_add, tokensFrom]

/-- Where a row stands among the tokens of a document. -/
theorem tokens_eq_append {document : List Char} (hl : splitLines document = ls ++ l :: ms) :
    ∃ us : List PlacedToken, (∀ t ∈ us, ls.length < t.row) ∧
      tokens document = tokensFrom 0 .start ls ++
        (lineTokens ls.length (.ofLine l) (chainAfter .start (tokensFrom 0 .start ls)) ++ us) := by
  refine ⟨_, fun t ht => ?_, tokens_eq hl⟩
  obtain ⟨-, -, hrow, -⟩ := row_of_mem_tokensFrom ht
  exact hrow

/-- A token of a row is among those of its line. -/
theorem mem_lineTokens_of_row {document : List Char} (hl : splitLines document = ls ++ l :: ms)
    {t : PlacedToken} (ht : t ∈ tokens document) (hrow : t.row = ls.length) :
    t ∈ lineTokens ls.length (.ofLine l) (chainAfter .start (tokensFrom 0 .start ls)) := by
  obtain ⟨us, hus, htokens⟩ := tokens_eq_append hl
  rw [htokens] at ht
  rcases List.mem_append.1 ht with ht | ht
  · obtain ⟨m, hm, -, -⟩ := row_of_mem_tokensFrom ht
    have hlt := (List.getElem?_eq_some_iff.1 hm).1
    omega
  · rcases List.mem_append.1 ht with ht | ht
    · exact ht
    · have := hus t ht
      omega

/-- The last token of a document is the last one **of its row**. -/
theorem getLast?_lineTokens_of_row {document : List Char} (hl : splitLines document = ls ++ [l])
    {t : PlacedToken} (ht : (tokens document).getLast? = some t) (hrow : t.row = ls.length) :
    (lineTokens ls.length (.ofLine l) (chainAfter .start (tokensFrom 0 .start ls))).getLast? =
      some t := by
  obtain ⟨us, hus, htokens⟩ := tokens_eq_append hl
  have hmem := mem_lineTokens_of_row hl (List.mem_of_getLast? ht) hrow
  rw [htokens] at ht
  have hnil : us = [] := by
    refine List.eq_nil_iff_forall_not_mem.2 fun u hu => ?_
    have hne : us ≠ [] := List.ne_nil_of_mem hu
    rw [List.getLast?_append_of_ne_nil _ (by simp [hne]),
      List.getLast?_append_of_ne_nil _ hne] at ht
    have := hus t (List.mem_of_getLast? ht)
    omega
  rwa [hnil, List.append_nil, List.getLast?_append_of_ne_nil _ (List.ne_nil_of_mem hmem)] at ht

/-- The tokens of a row are those of its **line**. -/
theorem filter_row_tokens {document : List Char} (hl : splitLines document = ls ++ l :: ms) :
    (tokens document).filter (fun t => t.row == ls.length) =
      lineTokens ls.length (.ofLine l) (chainAfter .start (tokensFrom 0 .start ls)) := by
  obtain ⟨us, hus, htokens⟩ := tokens_eq_append hl
  have hbefore : ∀ t ∈ tokensFrom 0 .start ls, t.row < ls.length := by
    intro t ht
    obtain ⟨m, hm, -, -⟩ := row_of_mem_tokensFrom ht
    exact (List.getElem?_eq_some_iff.1 hm).1
  -- The filter keeps one of the three parts whole and nothing of the others.
  rw [htokens, List.filter_append, List.filter_append,
    List.filter_eq_nil_iff.2 fun t ht => by simp [(hbefore t ht).ne],
    List.filter_eq_self.2 fun t ht => by simp [(row_of_mem_lineTokens ht).1],
    List.filter_eq_nil_iff.2 fun t ht => by simp [(hus t ht).ne'], List.nil_append,
    List.append_nil]

/-- The token at a column, from the tokens of its row and of the rows before. -/
theorem tokenAt_eq {document : List Char} (hl : splitLines document = ls ++ l :: ms)
    (column : Int) :
    tokenAt document ls.length column =
      let ts := lineTokens ls.length (.ofLine l) (chainAfter .start (tokensFrom 0 .start ls))
      ((ts.filter fun t => decide ((t.stop : Int) ≤ column)).getLast?.or ts.head?).getD
        (emptyAt ls.length (tokensFrom 0 .start ls)) := by
  obtain ⟨us, hus, htokens⟩ := tokens_eq_append hl
  have hbefore : ∀ t ∈ tokensFrom 0 .start ls, t.row < ls.length := by
    intro t ht
    obtain ⟨m, hm, -, -⟩ := row_of_mem_tokensFrom ht
    exact (List.getElem?_eq_some_iff.1 hm).1
  have hrow := filter_row_tokens hl
  -- The chain before the row plays no part from here on.
  generalize chainAfter .start (tokensFrom 0 .start ls) = c at *
  have hon : ∀ t ∈ lineTokens ls.length (.ofLine l) c, t.row = ls.length := fun t ht =>
    (row_of_mem_lineTokens ht).1
  have hearlier : (tokens document).filter (fun t => decide (t.row < ls.length)) =
      tokensFrom 0 .start ls := by
    rw [htokens, List.filter_append, List.filter_append,
      List.filter_eq_self.2 fun t ht => by simp [hbefore t ht],
      List.filter_eq_nil_iff.2 fun t ht => by simp [hon t ht],
      List.filter_eq_nil_iff.2 fun t ht => by simp [(hus t ht).le], List.append_nil,
      List.append_nil]
  unfold tokenAt
  rw [hrow, hearlier]

/-- A column at the end of a row or past it gives the last token of the row. -/
theorem tokenAt_of_le {document : List Char} (hl : splitLines document = ls ++ l :: ms)
    {column : Int} (hc : l.length ≤ column) :
    tokenAt document ls.length column =
      (lineTokens ls.length (.ofLine l)
        (chainAfter .start (tokensFrom 0 .start ls))).getLast?.getD
          (emptyAt ls.length (tokensFrom 0 .start ls)) := by
  rw [tokenAt_eq hl]
  dsimp only
  generalize chainAfter .start (tokensFrom 0 .start ls) = c
  have hall : ∀ t ∈ lineTokens ls.length (.ofLine l) c, decide ((t.stop : Int) ≤ column) := by
    intro t ht
    obtain ⟨-, hstop⟩ := row_of_mem_lineTokens ht
    simp only [Stream.position_ofLine, Stream.rest_ofLine] at hstop
    simp only [decide_eq_true_eq]
    omega
  rw [List.filter_eq_self.2 hall]
  cases hlast : lineTokens ls.length (.ofLine l) c with
  | nil => rfl
  | cons t ts => simp [List.getLast?_cons]

/-- The token at a column is **one of the line**, or else the empty one at its start. -/
theorem tokenAt_mem_or_eq {document : List Char} (hl : splitLines document = ls ++ l :: ms)
    (column : Int) :
    tokenAt document ls.length column ∈
        lineTokens ls.length (.ofLine l) (chainAfter .start (tokensFrom 0 .start ls)) ∨
      tokenAt document ls.length column = emptyAt ls.length (tokensFrom 0 .start ls) := by
  rw [tokenAt_eq hl]
  dsimp only
  generalize lineTokens ls.length _ _ = ts
  cases ht : Option.or _ ts.head? with
  | none => exact .inr rfl
  | some t =>
    obtain ht | ⟨-, ht⟩ := Option.or_eq_some_iff.1 ht
    · exact .inl (List.mem_filter.1 (List.mem_of_getLast? ht)).1
    · exact .inl (List.mem_of_head? ht)

/-- The chain at a column is regular. -/
theorem isRegular_tokenAt {document : List Char} (hl : splitLines document = ls ++ l :: ms)
    (column : Int) : (tokenAt document ls.length column).chain.IsRegular := by
  have hls : (chainAfter .start (tokensFrom 0 .start ls)).IsRegular :=
    isRegular_chainAfter_tokensFrom isRegular_start
  rcases tokenAt_mem_or_eq hl column with ht | ht
  · exact isRegular_of_mem_lineTokens hls ht
  · exact ht ▸ hls

/-! ### Visits -/

section Visits

variable {α : Type} {visit : α → PlacedToken → α × Bool} {f : α → PlacedToken → α}
  {p : Progress α}

/-- A visitor that stops at no token of a line ends at the last one. -/
theorem last_visitLine
    (h : ∀ a, ∀ t ∈ lineTokens p.row p.stream p.chain, visit a t = (f a t, false)) :
    (visitLine visit p).last = (lineTokens p.row p.stream p.chain).getLast?.getD p.last := by
  fun_induction visitLine visit p with
  | case1 p hs =>
    rw [lineTokens, dif_pos hs]
    rfl
  | case2 p hs r gathered hv =>
    rw [lineTokens, dif_neg hs] at h
    have := (h p.gathered _ List.mem_cons_self).symm.trans hv
    cases congrArg Prod.snd this
  | case3 p hs r gathered stop hv hstop ih =>
    rw [lineTokens, dif_neg hs] at h ⊢
    rw [ih fun a t ht => h a t (List.mem_cons_of_mem _ ht), List.getLast?_cons]
    rfl

/-- A visit of a line keeps the chain regular. -/
theorem isRegular_visitLine (hc : p.chain.IsRegular) : (visitLine visit p).chain.IsRegular := by
  fun_induction visitLine visit p with
  | case1 => exact hc
  | case2 p hs r gathered hv => exact (hc.read p.stream).1
  | case3 p hs r gathered stop hv hstop ih => exact ih (hc.read p.stream).1

/-- The visit of one line is that of its tokens. -/
theorem visitFrom_singleton (hc : p.chain.IsRegular) :
    visitFrom visit row p [l] = visitLine visit { p with stream := .ofLine l, row := row } := by
  have hr : (visitLine visit { p with stream := .ofLine l, row := row }).chain.IsRegular :=
    isRegular_visitLine hc
  rw [visitFrom]
  split
  · rfl
  · rw [visitFrom, hr.renew_eq]

/-- A visitor that stops at no token of some lines goes on with the lines after them. -/
theorem exists_visitFrom_append
    (h : ∀ a, ∀ t ∈ tokensFrom row p.chain ls, visit a t = (f a t, false))
    (hp : p.stopped = false) (hc : p.chain.IsRegular) :
    ∃ q : Progress α,
      visitFrom visit row p (ls ++ ms) = visitFrom visit (row + ls.length) q ms ∧
      q.gathered = (tokensFrom row p.chain ls).foldl f p.gathered ∧ q.stopped = false ∧
      q.chain = chainAfter p.chain (tokensFrom row p.chain ls) ∧
      q.style = styleAfter p.style (tokensFrom row p.chain ls) := by
  induction ls generalizing row p with
  | nil => exact ⟨p, rfl, rfl, hp, rfl, rfl⟩
  | cons l ls ih =>
    have hl : ∀ a, ∀ t ∈ lineTokens row (.ofLine l) p.chain, visit a t = (f a t, false) :=
      fun a t ht => h a t (List.mem_append_left _ ht)
    have hr : (chainAfter p.chain (lineTokens row (.ofLine l) p.chain)).IsRegular :=
      isRegular_chainAfter_lineTokens hc
    obtain ⟨hg, hs, hchain⟩ :=
      visitLine_eq (p := { p with stream := .ofLine l, row := row }) hl hp
    have hlast := last_visitLine (p := { p with stream := .ofLine l, row := row }) hl
    -- The style of a visit is that of its last token.
    have hstyle : (visitLine visit { p with stream := .ofLine l, row := row }).style =
        styleAfter p.style (lineTokens row (.ofLine l) p.chain) := by
      have := congrArg PlacedToken.style hlast
      dsimp only at this
      unfold styleAfter
      cases hts : (lineTokens row (.ofLine l) p.chain).getLast? <;> rw [hts] at this <;> exact this
    rw [List.cons_append, visitFrom]
    simp only [tokensFrom, List.foldl_append, chainAfter_append, styleAfter_append, hr.renew_eq]
      at h ⊢
    generalize visitLine visit { p with stream := .ofLine l, row := row } = q at *
    dsimp only at hg hchain hstyle
    rw [if_neg (by simp [hs]), hchain, hr.renew_eq]
    obtain ⟨q', hq, hg', hs', hc', hst'⟩ := @ih (row + 1)
      { q with chain := chainAfter p.chain (lineTokens row (.ofLine l) p.chain) }
      (fun a t ht => h a t (List.mem_append_right _ ht)) hs hr
    refine ⟨q', ?_, ?_, hs', hc', ?_⟩
    · rw [hq, List.length_cons, Nat.add_assoc, Nat.add_comm 1]
    · rw [hg', hg]
    · rw [hst', hstyle]

end Visits

/-- A visitor that **collects** the tokens of a document and never stops gathers all of them. -/
theorem gathered_collect (document : List Char) :
    (Scan.visit (fun ts t => (ts ++ [t], false)) [] (splitLines document)).gathered =
      tokens document := by
  refine (visitFrom_eq (f := fun ts t => ts ++ [t]) (fun _ _ _ => rfl) rfl).trans ?_
  change (tokens document).foldl (fun ts t => ts ++ [t]) [] = tokens document
  rw [List.foldl_append_eq_append, ← List.flatMap_def, List.flatMap_singleton', List.nil_append]

end Scan

namespace Cursor

open Scan Chain

variable {document : List Char} {ls ms : List (List Char)} {l : List Char}

/-! ### Observing a line -/

/-- Away from the row of a cursor nothing is kept and no scan stops. -/
theorem observe_of_row_ne {c : Cursor} {t : PlacedToken} (h : (t.row : Int) ≠ c.row)
    (kept : Option PlacedToken) : c.observe kept t = (kept, false) := by
  rw [observe, if_pos h]

/-- On the row of a cursor a token that ends past it **stops** the scan. -/
theorem observe_of_lt {c : Cursor} {t : PlacedToken} (h : (t.row : Int) = c.row)
    (hlt : c.column < t.stop) (kept : Option PlacedToken) : c.observe kept t = (kept, true) := by
  rw [observe, if_neg (not_not.2 h), if_pos hlt]

/-- On the row of a cursor a token that does not end past it is **kept**. -/
theorem observe_of_le {c : Cursor} {t : PlacedToken} (h : (t.row : Int) = c.row)
    (hle : (t.stop : Int) ≤ c.column) (kept : Option PlacedToken) :
    c.observe kept t = (some t, false) := by
  rw [observe, if_neg (not_not.2 h), if_neg (Int.not_lt.2 hle)]

/-- On the row of a cursor the **last token** before one that ends past the cursor is kept. -/
theorem gathered_visitLine {c : Cursor} {p : Progress (Option PlacedToken)}
    (hp : (p.row : Int) = c.row) :
    (visitLine c.observe p).gathered =
      ((lineTokens p.row p.stream p.chain).takeWhile
        fun t => decide ((t.stop : Int) ≤ c.column)).getLast?.or p.gathered := by
  fun_induction visitLine c.observe p with
  | case1 p hs =>
    rw [lineTokens, dif_pos hs]
    rfl
  | case2 p hs r gathered hv =>
    rw [lineTokens, dif_neg hs]
    by_cases hlt : c.column < (place r.stream r.chain (styleOf r) p.row).stop
    · obtain rfl : p.gathered = gathered :=
        congrArg Prod.fst ((observe_of_lt hp hlt p.gathered).symm.trans hv)
      rw [List.takeWhile_cons_of_neg (by simpa using hlt)]
      rfl
    · cases congrArg Prod.snd ((observe_of_le hp (Int.not_lt.1 hlt) p.gathered).symm.trans hv)
  | case3 p hs r gathered stop hv hstop ih =>
    rw [lineTokens, dif_neg hs]
    by_cases hlt : c.column < (place r.stream r.chain (styleOf r) p.row).stop
    · exact absurd (congrArg Prod.snd ((observe_of_lt hp hlt p.gathered).symm.trans hv)).symm hstop
    · obtain rfl : some (place r.stream r.chain (styleOf r) p.row) = gathered :=
        congrArg Prod.fst ((observe_of_le hp (Int.not_lt.1 hlt) p.gathered).symm.trans hv)
      rw [List.takeWhile_cons_of_pos (by simpa using Int.not_lt.1 hlt), List.getLast?_cons, ih hp]
      cases (List.takeWhile _ _).getLast? <;> rfl

/-- If already the first token of the row ends past the cursor, the scan ends with it. -/
theorem last_visitLine_of_lt {c : Cursor} {p : Progress (Option PlacedToken)} {t : PlacedToken}
    {ts : List PlacedToken} (hp : (p.row : Int) = c.row)
    (hts : lineTokens p.row p.stream p.chain = t :: ts) (ht : c.column < t.stop) :
    (visitLine c.observe p).last = t := by
  rw [lineTokens] at hts
  split at hts
  · cases hts
  · next hs =>
    obtain ⟨rfl, -⟩ := List.cons.inj hts
    have hv := observe_of_lt hp ht p.gathered
    rw [visitLine, dif_neg hs]
    dsimp only
    rw [hv]
    rfl

/-- Tokens that end further and further right end before a column up to some place. -/
theorem takeWhile_stop_eq_filter {ts : List PlacedToken} (column : Int)
    (h : ts.Pairwise fun t u => t.stop < u.stop) :
    (ts.takeWhile fun t => decide ((t.stop : Int) ≤ column)) =
      ts.filter fun t => decide ((t.stop : Int) ≤ column) := by
  induction h with
  | nil => rfl
  | @cons t ts ht _ ih =>
    by_cases hle : (t.stop : Int) ≤ column
    · rw [List.takeWhile_cons_of_pos (by simpa using hle),
        List.filter_cons_of_pos (by simpa using hle), ih]
    · rw [List.takeWhile_cons_of_neg (by simpa using hle),
        List.filter_cons_of_neg (by simpa using hle), List.filter_eq_nil_iff.2]
      intro u hu
      have := ht u hu
      simp only [decide_eq_true_eq]
      omega

/-! ### Locating -/

/-- What a visit of the row of a cursor finds. -/
theorem visitLine_observe {c : Cursor} {p : Progress (Option PlacedToken)}
    (hp : (p.row : Int) = c.row) (hg : p.gathered = none) :
    (visitLine c.observe p).gathered.getD (visitLine c.observe p).last =
      (((lineTokens p.row p.stream p.chain).filter
        fun t => decide ((t.stop : Int) ≤ c.column)).getLast?.or
          (lineTokens p.row p.stream p.chain).head?).getD p.last := by
  have hlast : lineTokens p.row p.stream p.chain = [] → (visitLine c.observe p).last = p.last := by
    intro hts
    refine (last_visitLine (f := fun a _ => a) fun a t ht => ?_).trans (by rw [hts]; rfl)
    rw [hts] at ht
    cases ht
  have hlt : ∀ t ts, lineTokens p.row p.stream p.chain = t :: ts → c.column < t.stop →
      (visitLine c.observe p).last = t := fun t ts => last_visitLine_of_lt hp
  rw [gathered_visitLine hp, takeWhile_stop_eq_filter c.column (pairwise_lineTokens ..), hg,
    Option.or_none]
  generalize lineTokens p.row p.stream p.chain = ts at hlast hlt ⊢
  cases ts with
  | nil => exact hlast rfl
  | cons t ts =>
    cases hu : ((t :: ts).filter fun t => decide ((t.stop : Int) ≤ c.column)).getLast? with
    | some u => rfl
    | none =>
      -- Then not even the first token of the line ends at the cursor or before it.
      have := List.filter_eq_nil_iff.1 (List.getLast?_eq_none_iff.1 hu) t List.mem_cons_self
      exact hlt t ts rfl (by simpa using this)

/-- What a visit of another row finds. -/
theorem visitLine_observe_of_row_ne {c : Cursor} {p : Progress (Option PlacedToken)}
    (hp : (p.row : Int) ≠ c.row) (hg : p.gathered = none) (hs : p.stopped = false) :
    (visitLine c.observe p).gathered.getD (visitLine c.observe p).last =
      (lineTokens p.row p.stream p.chain).getLast?.getD p.last := by
  have hskip : ∀ a, ∀ t ∈ lineTokens p.row p.stream p.chain, c.observe a t = (a, false) := by
    intro a t ht
    obtain ⟨hrow, -⟩ := row_of_mem_lineTokens ht
    exact observe_of_row_ne (hrow.symm ▸ hp) a
  rw [(visitLine_eq hskip hs).1, List.foldl_fixed, hg, last_visitLine hskip]
  rfl

/-- A scan for a cursor at the start of a row, after the tokens of the rows before. -/
def atRow (row : Nat) (l : List Char) (earlier : List PlacedToken) :
    Progress (Option PlacedToken) :=
  ⟨none, false, .ofLine l, chainAfter .start earlier, styleAfter "" earlier, row⟩

/-- What is located is found on the **last of the lines** that matter. -/
theorem locate_eq_visitLine {c : Cursor} (hlines : c.linesUpTo document = ls ++ [l])
    (hrow : ∀ i < ls.length, (i : Int) ≠ c.row) :
    locate c document =
      let p := visitLine c.observe (atRow ls.length l (tokensFrom 0 .start ls))
      p.gathered.getD p.last := by
  have hskip : ∀ a, ∀ t ∈ tokensFrom 0 .start ls, c.observe a t = (a, false) := by
    intro a t ht
    obtain ⟨m, hm, -, -⟩ := row_of_mem_tokensFrom ht
    exact observe_of_row_ne (hrow _ (List.getElem?_eq_some_iff.1 hm).1) a
  let p : Progress (Option PlacedToken) := ⟨none, false, .ofLine [], .start, "", 0⟩
  obtain ⟨q, hq, hg, hs, hc, hst⟩ : ∃ q : Progress _, visitFrom c.observe 0 p (ls ++ [l]) =
      visitFrom c.observe (0 + ls.length) q [l] ∧ _ :=
    exists_visitFrom_append hskip rfl isRegular_start
  have hr : q.chain.IsRegular := hc ▸ isRegular_chainAfter_tokensFrom isRegular_start
  have hrow : ({ q with stream := .ofLine l, row := ls.length } : Progress _) =
      atRow ls.length l (tokensFrom 0 .start ls) := by
    rw [atRow, hc, hst, hg, hs, List.foldl_fixed]
  rw [locate, hlines, Scan.visit, hq, Nat.zero_add, visitFrom_singleton hr, hrow]

/-- **On a row of the document** the token at a cursor is the one at its column. -/
theorem locate_row (hl : splitLines document = ls ++ l :: ms) (column : Int) :
    locate ⟨ls.length, column⟩ document = tokenAt document ls.length column := by
  have hlines : linesUpTo ⟨ls.length, column⟩ document = ls ++ [l] := by
    rw [linesUpTo, hl, Int.toNat_natCast, List.take_length_add_append]
    rfl
  rw [locate_eq_visitLine hlines fun i hi => by dsimp only; omega, tokenAt_eq hl]
  exact visitLine_observe (c := ⟨ls.length, column⟩)
    (p := atRow ls.length l (tokensFrom 0 .start ls)) rfl rfl

/-- **At the end of a document** the cursor is at the last token of the last line. -/
theorem locate_atEnd_eq (hl : splitLines document = ls ++ [l]) {t : PlacedToken}
    (ht : (lineTokens ls.length (.ofLine l) (chainAfter .start (tokensFrom 0 .start ls))).getLast? =
      some t) : locate (atEnd document) document = t := by
  have hend : atEnd document = ⟨ls.length, l.length⟩ := by simp [atEnd, hl]
  rw [hend, locate_row hl, tokenAt_of_le hl (Int.le_refl _), ht]
  rfl

/-- **Away from the rows of the document** the token at a cursor is the last one of the last line
that matters. -/
theorem locate_of_row_ne {c : Cursor} (hl : splitLines document = ls ++ l :: ms)
    (hlines : c.linesUpTo document = ls ++ [l]) (hrow : ∀ i ≤ ls.length, (i : Int) ≠ c.row)
    {column : Int} (hc : l.length ≤ column) :
    locate c document = tokenAt document ls.length column := by
  rw [locate_eq_visitLine hlines fun i hi => hrow i hi.le, tokenAt_of_le hl hc]
  exact visitLine_observe_of_row_ne (p := atRow ls.length l (tokensFrom 0 .start ls))
    (hrow _ le_rfl) rfl rfl

/-- What is located is the token at some column of some row of the document. -/
theorem exists_locate_eq (c : Cursor) (document : List Char) :
    ∃ ls l ms column, splitLines document = ls ++ l :: ms ∧
      c.locate document = Scan.tokenAt document ls.length column := by
  -- The last of the lines that matter is the row of the cursor, or the cursor is on no row at all.
  have hne : c.linesUpTo document ≠ [] := by
    simp [linesUpTo, splitLines_ne_nil]
  obtain ⟨ls, l, hlines⟩ : ∃ ls l, c.linesUpTo document = ls ++ [l] :=
    ⟨_, _, (List.dropLast_concat_getLast hne).symm⟩
  have hl : splitLines document = ls ++ l :: (splitLines document).drop (c.row.toNat + 1) := by
    rw [← List.singleton_append, ← List.append_assoc, ← hlines, linesUpTo,
      List.take_append_drop]
  have hlen : ls.length ≤ c.row.toNat := by
    have := List.length_take_le (c.row.toNat + 1) (splitLines document)
    rw [← linesUpTo, hlines, List.length_append, List.length_singleton] at this
    omega
  by_cases hrow : (ls.length : Int) = c.row
  · obtain ⟨row, column⟩ := c
    obtain rfl : (ls.length : Int) = row := hrow
    exact ⟨ls, l, _, column, hl, locate_row hl column⟩
  · exact ⟨ls, l, _, l.length, hl,
      locate_of_row_ne hl hlines (fun i hi => by omega) (Int.le_refl _)⟩

/-- The chain at a cursor is **regular**. -/
theorem isRegular_locate (c : Cursor) (document : List Char) :
    (c.locate document).chain.IsRegular := by
  obtain ⟨ls, l, ms, column, hl, hloc⟩ := c.exists_locate_eq document
  exact hloc ▸ Scan.isRegular_tokenAt hl column

end Cursor

/-- **The token at a cursor is the one that a scan of the whole document finds there.** On a row of
the document it is the last token of the row that ends at the column or before it, or else the first
one of the row, or else an empty one, with the chain that the tokens up to it leave; a row past the
last one stands for the end of the last line, and a row before the first one for the end of the
first line. -/
theorem locate_eq_tokenAt (document : List Char) :
    (Scan.visit (fun ts t => (ts ++ [t], false)) [] (splitLines document)).gathered =
      Scan.tokens document ∧
    (∀ row < (splitLines document).length, ∀ column : Int,
      Cursor.locate ⟨row, column⟩ document = Scan.tokenAt document row column) ∧
    (∀ (row : Nat) (l : List Char) (column : Int), (splitLines document)[row]? = some l →
      l.length ≤ column →
      Cursor.locate ⟨row, column⟩ document = Cursor.locate ⟨row, l.length⟩ document) ∧
    (∀ (c : Cursor) (column : Int), (splitLines document).length ≤ c.row →
      ((splitLines document).getLast?.getD []).length ≤ column →
      c.locate document =
        Cursor.locate ⟨(splitLines document).length - 1, column⟩ document) ∧
    ∀ (c : Cursor) (column : Int), c.row < 0 →
      ((splitLines document).head?.getD []).length ≤ column →
      c.locate document = Cursor.locate ⟨0, column⟩ document := by
  refine ⟨Scan.gathered_collect document, ?_, ?_, ?_, ?_⟩
  -- A row of the document.
  · intro row hrow column
    obtain ⟨ls, ms, hl, rfl⟩ := exists_append_of_getElem? (List.getElem?_eq_getElem hrow)
    exact Cursor.locate_row hl column
  -- A column past the end of the line.
  · intro row l column h hc
    obtain ⟨ls, ms, hl, rfl⟩ := exists_append_of_getElem? h
    rw [Cursor.locate_row hl, Cursor.locate_row hl, Scan.tokenAt_of_le hl hc,
      Scan.tokenAt_of_le hl (Int.le_refl _)]
  -- A row below the last one.
  · intro c column hrow hc
    obtain ⟨ls, l, hl⟩ : ∃ ls l, splitLines document = ls ++ [l] :=
      ⟨_, _, (List.dropLast_concat_getLast (splitLines_ne_nil document)).symm⟩
    simp only [hl, List.length_append, List.length_singleton, List.getLast?_concat,
      Option.getD_some] at hrow hc ⊢
    have hlines : c.linesUpTo document = ls ++ [l] := by
      rw [Cursor.linesUpTo, hl]
      exact List.take_of_length_le (by simp; omega)
    rw [Cursor.locate_of_row_ne hl hlines (fun i hi => by omega) hc, ← Cursor.locate_row hl]
    congr 2
    omega
  -- A row above the first one.
  · intro c column hrow hc
    obtain ⟨l, ms, hl⟩ := List.exists_cons_of_ne_nil (splitLines_ne_nil document)
    rw [hl] at hc
    have hlines : c.linesUpTo document = [] ++ [l] := by
      rw [Cursor.linesUpTo, hl, Int.toNat_of_nonpos (Int.le_of_lt hrow)]
      rfl
    have hl' : splitLines document = [] ++ l :: ms := hl
    rw [Cursor.locate_of_row_ne hl' hlines (fun i hi => by omega) hc, ← Cursor.locate_row hl']
    rfl

end QueryAssist
