import QueryAssist.Proofs.Typing.EmptyLine

/-! # Silent lines

A line of ignored characters, perhaps with a comment after them, says nothing: it only settles what
the line before left. Main definitions:

* **`IsSilent l`** — the line has at most ignored characters and a comment.
* **`insertLine`** — a document with one more line.

Main statement: `complete_insertLine`, a silent line changes no suggestions, wherever it stands. -/

namespace QueryAssist

open Grammar

/-- A line is **silent** if past its ignored characters nothing stands or a comment. -/
def IsSilent (l : List Char) : Prop :=
  '\n' ∉ l ∧ ∀ c ∈ (l.dropWhile isIgnored).head?, c = '#'

instance (l : List Char) : Decidable (IsSilent l) :=
  decidable_of_iff ('\n' ∉ l ∧ (l.dropWhile isIgnored).head?.all (· == '#') = true) <| by
    simp [IsSilent, Option.all_eq_true]

/-- The document with a line **inserted** before the line of a given number. -/
def insertLine (document : List Char) (i : Nat) (l : List Char) : List Char :=
  joinLines ((splitLines document).take i ++ l :: (splitLines document).drop i)

/-- A line that is put into a document is one of its lines, and the others stay in order around it.
-/
theorem splitLines_insertLine {document l : List Char} (hl : '\n' ∉ l) (i : Nat) :
    splitLines (insertLine document i l) =
      (splitLines document).take i ++ l :: (splitLines document).drop i := by
  refine splitLines_joinLines (by simp) fun m hm => ?_
  rw [List.mem_append, List.mem_cons] at hm
  obtain hm | rfl | hm := hm
  · exact notMem_of_mem_splitLines (List.mem_of_mem_take hm)
  · exact hl
  · exact notMem_of_mem_splitLines (List.mem_of_mem_drop hm)

/-! ### What is read of a silent line -/

namespace Lexer

/-- A hash sign begins a comment, which takes the rest of the line. -/
theorem lex?_hash {cs : List Char} (h : '\n' ∉ cs) :
    lex? ('#' :: cs) = some ⟨.comment, String.ofList ('#' :: cs)⟩ := by
  have hall : cs.takeWhile (· != '\n') = cs :=
    List.takeWhile_eq_self_iff.2 fun c hc => bne_iff_ne.2 fun he => h (he ▸ hc)
  change some (Token.mk .comment (String.ofList ('#' :: cs.takeWhile (· != '\n')))) = _
  rw [hall]

/-- A silent line begins with ignored characters, after which it is silent too, or is all one
comment. -/
theorem piece_of_isSilent {l : List Char} (h : IsSilent l) (hl : l ≠ []) :
    ((piece l).1 = .gap ∧ IsSilent (l.drop (piece l).2)) ∨
    (∃ t, (piece l).1 = .token t ∧ t.kind = .comment) ∧ l.drop (piece l).2 = [] := by
  obtain ⟨hfeed, hhash⟩ := h
  cases hg : l.takeWhile isIgnored with
  | cons c cs =>
    rw [piece_of_takeWhile hg]
    refine .inl ⟨rfl, fun hn => hfeed (List.mem_of_mem_drop hn), ?_⟩
    rwa [dropWhile_drop (by rw [hg])]
  | nil =>
    obtain ⟨c, cs, rfl⟩ := List.exists_cons_of_ne_nil hl
    have hc : isIgnored c = false := by
      by_contra hc
      simp [List.takeWhile_cons, hc] at hg
    obtain rfl : c = '#' := hhash c (by rw [List.dropWhile_cons_of_neg (by simp [hc])]; rfl)
    have hlex := lex?_hash fun hn => hfeed (List.mem_cons_of_mem _ hn)
    rw [piece_of_lex? hg hlex]
    refine .inr ⟨⟨_, rfl, rfl⟩, List.drop_eq_nil_of_le ?_⟩
    rw [String.length_ofList]

end Lexer

namespace Scan

open Chain

variable {row : Nat} {c d : Chain} {l : List Char} {as bs : List (List Char)}

/-- The tokens of a silent line leave the **settled chain**, with a comment in it perhaps. -/
theorem chain_of_mem_silent {s : Stream} (hs : IsSilent s.rest) (hc : c.IsRegular)
    {t : PlacedToken} (ht : t ∈ lineTokens row s c) :
    t.chain = c.settle ∨ t.chain = c.settle.enterComment := by
  fun_induction lineTokens row s c with
  | case1 => cases ht
  | case2 s c hne r ih =>
    have hr : r = _ := read_eq standard c hne
    -- A silent line is gaps and then a comment to its end, after which no token comes.
    obtain ⟨hgap, hrest⟩ | ⟨⟨u, hu, hk⟩, hrest⟩ := Lexer.piece_of_isSilent hs hne
    · have hchain : r.chain = c.settle := by
        rw [hr, hgap]
        rfl
      rcases List.mem_cons.1 ht with rfl | ht
      · exact .inl hchain
      · have hin := ih (by rw [hr]; exact hrest) (hchain ▸ .inside hc.settle.isPlaced) ht
        rwa [hchain, hc.settle.settle_eq] at hin
    · have hchain : r.chain = c.settle.enterComment := by
        rw [hr, hu]
        exact congrArg Prod.snd (if_pos hk)
      rcases List.mem_cons.1 ht with rfl | ht
      · exact .inr hchain
      · rw [lineTokens, dif_pos (by rw [hr]; exact hrest)] at ht
        cases ht

/-- What a silent line leaves is settled as what was before it. -/
theorem settle_chainAfter_silent (hl : IsSilent l) (hc : c.IsRegular) :
    (chainAfter c (lineTokens row (.ofLine l) c)).settle = c.settle := by
  obtain he | ⟨t, ht, he⟩ := chainAfter_cases c (lineTokens row (.ofLine l) c)
  · rw [he]
  · rw [he]
    obtain h | h := chain_of_mem_silent hl hc ht <;> rw [h]
    · exact hc.settle.settle_eq
    · exact hc.settle.settle_enter .comment

/-! ### Rows -/

/-- On another row a line is read in the same way. -/
theorem lineTokens_row (row row' : Nat) (s : Stream) (c : Chain) :
    lineTokens row' s c = (lineTokens row s c).map fun t => { t with row := row' } := by
  fun_induction lineTokens row s c with
  | case1 s c hs => rw [lineTokens, dif_pos hs, List.map_nil]
  | case2 s c hs r ih =>
    rw [lineTokens, dif_neg hs, List.map_cons, ← ih]
    rfl

/-- From other rows on lines leave the same chains, also if what is before them is only settled in
the same way. -/
theorem chains_tokensFrom (row row' : Nat) (h : c.settle = d.settle) (hc : c.IsRegular)
    (hd : d.IsRegular) (ls : List (List Char)) :
    (tokensFrom row c ls).map (·.chain) = (tokensFrom row' d ls).map (·.chain) := by
  rw [tokensFrom_congr h hc hd]
  clear h hc
  induction ls generalizing row row' d with
  | nil => rfl
  | cons l ls ih =>
    have hline : (lineTokens row' (.ofLine l) d).map (·.chain) =
        (lineTokens row (.ofLine l) d).map (·.chain) := by
      rw [lineTokens_row row row', List.map_map]
      rfl
    have hafter : chainAfter d (lineTokens row' (.ofLine l) d) =
        chainAfter d (lineTokens row (.ofLine l) d) := by
      simp only [chainAfter, ← List.getLast?_map, hline]
    have hr : (chainAfter d (lineTokens row (.ofLine l) d)).IsRegular :=
      isRegular_chainAfter_lineTokens hd
    simp only [tokensFrom, List.map_append, hline, hafter, hr.renew_eq]
    exact congrArg _ (ih (row + 1) (row' + 1) hr)

/-- What lines leave is settled in the same way from other rows on. -/
theorem settle_chainAfter_tokensFrom (row row' : Nat) (h : c.settle = d.settle) (hc : c.IsRegular)
    (hd : d.IsRegular) (ls : List (List Char)) :
    (chainAfter c (tokensFrom row c ls)).settle = (chainAfter d (tokensFrom row' d ls)).settle := by
  simp only [chainAfter, ← List.getLast?_map, chains_tokensFrom row row' h hc hd ls]
  cases ((tokensFrom row' d ls).map (·.chain)).getLast? with
  | none => exact h
  | some e => rfl

/-! ### The scan past a silent line -/

/-- **Past a silent line** the chain is settled as without it. -/
theorem settle_chainAfter_insert (hl : IsSilent l) (hc : c.IsRegular) :
    (chainAfter c (tokensFrom row c (as ++ l :: bs))).settle =
      (chainAfter c (tokensFrom row c (as ++ bs))).settle := by
  rw [tokensFrom_append hc, tokensFrom_append hc, chainAfter_append, chainAfter_append]
  have hd : (chainAfter c (tokensFrom row c as)).IsRegular := isRegular_chainAfter_tokensFrom hc
  generalize chainAfter c (tokensFrom row c as) = d at hd ⊢
  have he : (chainAfter d (lineTokens (row + as.length) (.ofLine l) d)).IsRegular :=
    isRegular_chainAfter_lineTokens hd
  rw [tokensFrom, he.renew_eq, chainAfter_append]
  exact settle_chainAfter_tokensFrom _ _ (settle_chainAfter_silent hl hd) he hd bs

end Scan

/-- A comment is no definition. -/
theorem FragmentHead.around?_enterComment (c : Chain) :
    around? c.enterComment.links = around? c.links := by
  rfl

/-- **A silent line defines no fragment** and hides none. -/
theorem fragmentHeads_insertLine (q : List Char) (i : Nat) {l : List Char} (hl : IsSilent l) :
    fragmentHeads (insertLine q i l) = fragmentHeads q := by
  obtain ⟨as, bs, has, hbs⟩ : ∃ as bs, (splitLines q).take i = as ∧ (splitLines q).drop i = bs :=
    ⟨_, _, rfl, rfl⟩
  have hq : splitLines q = as ++ bs := by rw [← has, ← hbs, List.take_append_drop]
  have hins : splitLines (insertLine q i l) = as ++ l :: bs := by
    rw [splitLines_insertLine hl.1, has, hbs]
  have hc : (Scan.chainAfter .start (Scan.tokensFrom 0 .start as)).IsRegular :=
    Scan.isRegular_chainAfter_tokensFrom Chain.isRegular_start
  have hmem : ∀ t ∈ Scan.tokensFrom 0 .start as, t.chain.IsRegular := fun t ht =>
    Scan.isRegular_of_mem_tokensFrom Chain.isRegular_start ht
  have hg := Scan.gather_chainAfter hmem
  simp only [fragmentHeads, ← foldl_gather, Scan.tokens, hq, hins,
    Scan.tokensFrom_append Chain.isRegular_start, List.foldl_append]
  generalize (Scan.tokensFrom 0 .start as).foldl _ [] = hs at hg ⊢
  generalize Scan.chainAfter .start (Scan.tokensFrom 0 .start as) = c at hc hg ⊢
  have hd : (Scan.chainAfter c (Scan.lineTokens (0 + as.length) (.ofLine l) c)).IsRegular :=
    Scan.isRegular_chainAfter_lineTokens hc
  -- What the silent line gathers is there already, and what is after it is read as before.
  have hsilent : (Scan.lineTokens (0 + as.length) (.ofLine l) c).foldl
      (fun hs t => gather hs (FragmentHead.around? t.chain.links)) hs = hs := by
    refine List.foldlRecOn (motive := (· = hs)) _ _ rfl fun hs' h t ht => ?_
    obtain h' | h' := Scan.chain_of_mem_silent hl hc ht
    · rw [h, h', hg]
    · rw [h, h', FragmentHead.around?_enterComment, hg]
  have hchains := Scan.chains_tokensFrom (0 + as.length + 1) (0 + as.length)
    (Scan.settle_chainAfter_silent hl hc) hd hc bs
  rw [Scan.tokensFrom, List.foldl_append, hsilent, hd.renew_eq]
  have hfold := congrArg
    (List.foldl (fun hs c => gather hs (FragmentHead.around? (Chain.links c))) hs) hchains
  simpa only [List.foldl_map] using hfold

/-! ### Completion -/

/-- A line after others that leave the same, once it is settled, has **the same token at a column**,
if one of its tokens ends there or before. -/
theorem Cursor.locate_of_settle {p q m : List Char} {ls ms ls' ms' : List (List Char)}
    (hp : splitLines p = ls ++ m :: ms) (hq : splitLines q = ls' ++ m :: ms')
    (hc : (Scan.chainAfter .start (Scan.tokensFrom 0 .start ls')).settle =
      (Scan.chainAfter .start (Scan.tokensFrom 0 .start ls)).settle)
    {t : PlacedToken} (ht : t ∈ Scan.tokens p) (hrow : t.row = ls.length) {column : Int}
    (hstop : (t.stop : Int) ≤ column) :
    ∃ u : PlacedToken, u.row = ls.length ∧ locate ⟨ls.length, column⟩ p = u ∧
      locate ⟨ls'.length, column⟩ q = { u with row := ls'.length } := by
  have hmem := Scan.mem_lineTokens_of_row hp ht hrow
  have hline := (Scan.lineTokens_congr hc ls'.length (.ofLine m)).trans
    (Scan.lineTokens_row ls.length ls'.length _ _)
  rw [locate_row hp, locate_row hq, Scan.tokenAt_eq hp, Scan.tokenAt_eq hq, hline]
  have hrows : ∀ u ∈ Scan.lineTokens ls.length (.ofLine m)
      (Scan.chainAfter .start (Scan.tokensFrom 0 .start ls)), u.row = ls.length :=
    fun u hu => (Scan.row_of_mem_lineTokens hu).1
  generalize Scan.lineTokens ls.length (.ofLine m) _ = ts at hmem hrows ⊢
  -- The token that was found shows that the line has one that ends in time.
  obtain ⟨u, hu⟩ : ∃ u, (ts.filter fun t => decide ((t.stop : Int) ≤ column)).getLast? = some u :=
    ⟨_, List.getLast?_eq_some_getLast
      (List.ne_nil_of_mem (List.mem_filter.2 ⟨hmem, decide_eq_true hstop⟩))⟩
  refine ⟨u, hrows u (List.mem_filter.1 (List.mem_of_getLast? hu)).1, ?_, ?_⟩
  · simp only [hu, Option.some_or, Option.getD_some]
  · -- Which tokens end at the column or before it does not depend on their row.
    have hpred : ((fun t : PlacedToken => decide ((t.stop : Int) ≤ column)) ∘
        fun t => { t with row := ls'.length }) =
        (fun t : PlacedToken => decide ((t.stop : Int) ≤ column)) := rfl
    simp only [List.filter_map, hpred, List.getLast?_map, hu, Option.map_some, Option.some_or,
      Option.getD_some]

/-- Of two documents with the same fragments **the same is suggested** where the same token stands
on the row of the cursor. -/
theorem complete_congr (s : Schema) {p q : List Char} (hf : fragmentHeads q = fragmentHeads p)
    {r r' : Nat} {column : Int} {t : PlacedToken} (hrow : t.row = r)
    (ht : Cursor.locate ⟨r, column⟩ p = t)
    (ht' : Cursor.locate ⟨r', column⟩ q = { t with row := r' }) :
    complete s q ⟨r', column⟩ = complete s p ⟨r, column⟩ := by
  rw [complete_eq_offers, complete_eq_offers, ht, ht', Chain.offers_congr hf]
  simp only [Cursor.typed, hrow, if_true]

/-- **Silent lines are invisible**: at a cursor that a token of its row ends before, the same is
suggested with a silent line anywhere above, where the cursor stands a row further down then, and
with one anywhere below. -/
theorem complete_insertLine (s : Schema) {q l : List Char} (hl : IsSilent l) {r : Nat}
    {column : Int} (h : ∃ t ∈ Scan.tokens q, t.row = r ∧ (t.stop : Int) ≤ column) (i : Nat) :
    (i ≤ r → complete s (insertLine q i l) ⟨r + 1, column⟩ = complete s q ⟨r, column⟩) ∧
    (r < i → complete s (insertLine q i l) ⟨r, column⟩ = complete s q ⟨r, column⟩) := by
  obtain ⟨t, ht, hrow, hstop⟩ := h
  obtain ⟨m, hm, -, -⟩ := Scan.row_of_mem_tokensFrom ht
  obtain ⟨ls, ms, hq, rfl⟩ := exists_append_of_getElem? (hrow ▸ hm : (splitLines q)[r]? = some m)
  have hins : splitLines (insertLine q i l) = _ := splitLines_insertLine hl.1 i
  have hf := fragmentHeads_insertLine q i hl
  rw [hq] at hins
  constructor <;> intro hi
  -- The line is put above the cursor, which is a row further down then.
  · rw [List.take_append_of_le_length hi, List.drop_append_of_le_length hi] at hins
    have hlines : splitLines (insertLine q i l) = (ls.take i ++ l :: ls.drop i) ++ m :: ms := by
      rw [hins, List.append_assoc, List.cons_append]
    have hlen : (ls.take i ++ l :: ls.drop i).length = ls.length + 1 := by
      simp only [List.length_append, List.length_cons, List.length_take, List.length_drop]
      omega
    obtain ⟨u, hu, hup, huq⟩ := Cursor.locate_of_settle hq hlines
      (by rw [Scan.settle_chainAfter_insert hl Chain.isRegular_start, List.take_append_drop])
      ht hrow hstop
    rw [hlen] at huq
    exact complete_congr s hf hu hup huq
  -- The line is put below the cursor.
  · obtain ⟨k, rfl⟩ := Nat.exists_eq_add_of_lt hi
    have hlines : splitLines (insertLine q (ls.length + k + 1) l) =
        ls ++ m :: (ms.take k ++ l :: ms.drop k) := by
      rw [hins, Nat.add_assoc, List.take_length_add_append, List.drop_length_add_append]
      simp
    obtain ⟨u, hu, hup, huq⟩ := Cursor.locate_of_settle hq hlines rfl ht hrow hstop
    exact complete_congr s hf hu hup huq

/-- The fragment below is suggested with a comment above the spread, and with one before the
fragment. -/
theorem complete_insertLine_spread :
    ∃ (s : Schema) (q l : List Char),
      q = "\x7b ...\n\x7d\nfragment F on Query \x7b a \x7d".toList ∧ l = ", # note".toList ∧
      IsSilent l ∧
      insertLine q 2 l = "\x7b ...\n\x7d\n, # note\nfragment F on Query \x7b a \x7d".toList ∧
      (∃ t ∈ Scan.tokens q, t.row = 0 ∧ (t.stop : Int) ≤ 5) ∧
      (complete s q ⟨0, 5⟩).toOption.map (fun ss => ss.map (·.text)) = some ["F"] ∧
      complete s (insertLine q 0 l) ⟨0 + 1, 5⟩ = complete s q ⟨0, 5⟩ ∧
      complete s (insertLine q 2 l) ⟨0, 5⟩ = complete s q ⟨0, 5⟩ := by
  let s : Schema := {
    query := some "Query",
    types := [{ name := "Query", body := .object [] [{ name := "a", type := .named "String" }] }] }
  have hl : IsSilent ", # note".toList := by decide
  have h : ∃ t ∈ Scan.tokens "\x7b ...\n\x7d\nfragment F on Query \x7b a \x7d".toList,
      t.row = 0 ∧ (t.stop : Int) ≤ 5 := by decide +kernel
  exact ⟨s, _, _, rfl, rfl, hl, by decide +kernel, h, by decide +kernel,
    (complete_insertLine s hl h 0).1 (by decide), (complete_insertLine s hl h 2).2 (by decide)⟩

end QueryAssist
