import QueryAssist.Proofs.Layout.Fragments
import QueryAssist.Proofs.Typing.Offer

/-! # Empty lines

Nothing is read on an empty line, so that the chain there is as the line before left it, with a
comment still open or an advance still due. A line of one space settles it. Main definition:

* **`blankAt`** — the document with a space on an empty row.

Main statement: `complete_blankAt`, an empty line completes like a blank one, as far as both are the
same position. -/

namespace QueryAssist

open Grammar

/-! ### Scans -/

namespace Scan

open Chain

variable {row : Nat} {c d : Chain} {ls : List (List Char)}

/-- The tokens of a line have chains that are reached, if the line begins with one. -/
theorem isReached_of_mem_lineTokens {s : Stream} (hc : c.IsReached) {t : PlacedToken}
    (ht : t ∈ lineTokens row s c) : t.chain.IsReached := by
  fun_induction lineTokens row s c with
  | case1 => cases ht
  | case2 s c hs r ih =>
    have hr : r.chain.IsReached := hc.read hs
    rcases List.mem_cons.1 ht with rfl | ht
    · exact hr
    · exact ih hr ht

/-- The chains of a scan are those that readings lead to. -/
theorem isReached_chainAfter_tokensFrom (hc : c.IsReached) :
    (chainAfter c (tokensFrom row c ls)).IsReached := by
  induction ls generalizing row c with
  | nil => exact hc
  | cons l ls ih =>
    have hl : (chainAfter c (lineTokens row (.ofLine l) c)).IsReached := by
      obtain he | ⟨t, ht, he⟩ := chainAfter_cases c (lineTokens row (.ofLine l) c) <;> rw [he]
      · exact hc
      · exact isReached_of_mem_lineTokens hc ht
    rw [tokensFrom, hl.isRegular.renew_eq, chainAfter_append]
    exact ih hl

/-- An empty line has no tokens. -/
theorem lineTokens_empty (row : Nat) (c : Chain) : lineTokens row (.ofLine []) c = [] := by
  rw [lineTokens]
  exact dif_pos rfl

/-- A line is read in the same way from what is settled in the same way. -/
theorem lineTokens_congr (h : c.settle = d.settle) (row : Nat) (s : Stream) :
    lineTokens row s c = lineTokens row s d := by
  rw [lineTokens, lineTokens, read_congr h]

/-- So are the lines after it. -/
theorem tokensFrom_congr (h : c.settle = d.settle) (hc : c.IsRegular) (hd : d.IsRegular) :
    tokensFrom row c ls = tokensFrom row d ls := by
  induction ls generalizing row c d with
  | nil => rfl
  | cons l ls ih =>
    have hc' : (chainAfter c (lineTokens row (.ofLine l) c)).IsRegular :=
      isRegular_chainAfter_lineTokens hc
    have hd' : (chainAfter d (lineTokens row (.ofLine l) d)).IsRegular :=
      isRegular_chainAfter_lineTokens hd
    rw [tokensFrom, tokensFrom, hc'.renew_eq, hd'.renew_eq]
    rw [lineTokens_congr h] at hc' ⊢
    -- A line without tokens leaves the chains as they are, any other one leaves the same chain.
    refine congrArg _ (ih ?_ hc' hd')
    unfold chainAfter
    cases (lineTokens row (.ofLine l) d).getLast? with
    | none => exact h
    | some t => rfl

/-- The fragments that some tokens stand at have that of what they leave among them, also once it
is settled. -/
theorem gather_chainAfter {ts : List PlacedToken} (hc : ∀ t ∈ ts, t.chain.IsRegular) :
    let hs := ts.foldl (fun hs t => gather hs (FragmentHead.around? t.chain.links)) []
    gather hs (FragmentHead.around? (chainAfter .start ts).settle.links) = hs := by
  obtain rfl | ⟨us, t, rfl⟩ := ts.eq_nil_or_concat
  · rfl
  · have ht : t.chain.IsRegular := hc t (by simp)
    simp only [List.concat_eq_append, List.foldl_append, List.foldl_cons, List.foldl_nil,
      chainAfter_append]
    change gather _ (FragmentHead.around? t.chain.settle.links) = _
    by_cases hd : (definitionLink? t.chain.settle.links).isSome
    · rw [← ht.around?_settle hd]
      exact gather_idem _ _
    · rw [FragmentHead.around?_eq t.chain.settle.links, Option.not_isSome_iff_eq_none.1 hd]
      rfl

end Scan

/-- The document with a space on an empty row. -/
def blankAt (document : List Char) (row : Nat) : List Char :=
  joinLines ((splitLines document).set row [' '])

/-- The document with a space on an empty row has the lines that it had, but for that one. -/
theorem splitLines_blankAt {document : List Char} {ls ms : List (List Char)}
    (h : splitLines document = ls ++ [] :: ms) :
    splitLines (blankAt document ls.length) = ls ++ [' '] :: ms := by
  have hset : (splitLines document).set ls.length [' '] = ls ++ [' '] :: ms := by
    simp [h]
  rw [blankAt, hset]
  refine splitLines_joinLines (by simp) fun l hl => ?_
  have hmem : l = [' '] ∨ l ∈ splitLines document := by
    rw [h]
    simp only [List.mem_append, List.mem_cons] at hl ⊢
    tauto
  rcases hmem with rfl | hl
  · decide
  · exact notMem_of_mem_splitLines hl

/-- A blank line is read as one token, which settles what the line before left. -/
theorem lineTokens_blank (row : Nat) (c : Chain) :
    Scan.lineTokens row (.ofLine [' ']) c = [⟨0, 1, " ", c.settle, "ws", row⟩] := by
  have hs : (Stream.ofLine [' ']).skipWhile isIgnored = some ((Stream.ofLine [' ']).take 1) := rfl
  have hr : Chain.read standard (.ofLine [' ']) c =
      ⟨.ok "ws", (Stream.ofLine [' ']).take 1, c.settle⟩ := by
    unfold Chain.read
    rw [hs]
  rw [Scan.lineTokens, dif_neg (by decide)]
  dsimp only
  rw [hr, Scan.lineTokens]
  exact congrArg _ (dif_pos rfl)

/-- It changes nothing of the fragments of the document. -/
theorem fragmentHeads_blankAt {document : List Char} {ls ms : List (List Char)}
    (h : splitLines document = ls ++ [] :: ms) :
    fragmentHeads (blankAt document ls.length) = fragmentHeads document := by
  have hc : (Scan.chainAfter .start (Scan.tokensFrom 0 .start ls)).IsRegular :=
    Scan.isRegular_chainAfter_tokensFrom Chain.isRegular_start
  have hmem : ∀ t ∈ Scan.tokensFrom 0 .start ls, t.chain.IsRegular := fun t ht =>
    Scan.isRegular_of_mem_tokensFrom Chain.isRegular_start ht
  have hg := Scan.gather_chainAfter hmem
  have hsettle : (Scan.chainAfter .start (Scan.tokensFrom 0 .start ls)).settle.IsRegular :=
    .inside hc.settle.isPlaced
  simp only [fragmentHeads, ← foldl_gather, Scan.tokens, h, splitLines_blankAt h,
    Scan.tokensFrom_append Chain.isRegular_start, List.foldl_append]
  generalize (Scan.tokensFrom 0 .start ls).foldl _ [] = hs at hg ⊢
  generalize Scan.chainAfter .start (Scan.tokensFrom 0 .start ls) = c at hc hg hsettle ⊢
  simp only [Scan.tokensFrom, lineTokens_blank, Scan.lineTokens_empty, List.nil_append,
    List.cons_append, List.foldl_cons, hg]
  congr 1
  change Scan.tokensFrom _ (Scan.renew c.settle) ms = Scan.tokensFrom _ (Scan.renew c) ms
  rw [hc.renew_eq, hsettle.renew_eq]
  exact Scan.tokensFrom_congr hc.settle.settle_eq hsettle hc

/-- What is offered at a chain depends on the document through its fragments only. -/
theorem Chain.offers_congr {q p : List Char} (h : fragmentHeads q = fragmentHeads p) (s : Schema)
    (c : Chain) : c.offers s q = c.offers s p := by
  have hcand : ∀ ctx o, candidates s q c.valid ctx o = candidates s p c.valid ctx o := by
    intro ctx o
    cases o <;> simp only [candidates, h]
  simp only [offers, hcand]

/-- **An empty line completes like a blank one where both are the same position.** Nothing is read
on an empty line, so that a comment before it is still open and the last name or literal is not yet
left; where that makes no other position of it, the suggestions are those of a line with a space. -/
theorem complete_blankAt (s : Schema) {q : List Char} {row : Nat}
    (hrow : (splitLines q)[row]? = some [])
    (h : Position.ofChain? (Cursor.locate ⟨row, 0⟩ q).chain.valid =
      Position.ofChain? (Cursor.locate ⟨row, 1⟩ (blankAt q row)).chain.valid) :
    complete s q ⟨row, 0⟩ = complete s (blankAt q row) ⟨row, 1⟩ := by
  obtain ⟨ls, ms, hl, rfl⟩ := exists_append_of_getElem? hrow
  have hempty : Cursor.locate ⟨ls.length, 0⟩ q =
      Scan.emptyAt ls.length (Scan.tokensFrom 0 .start ls) := by
    have hat := Scan.tokenAt_of_le hl (Int.le_refl 0)
    rwa [Scan.lineTokens_empty, ← Cursor.locate_row hl] at hat
  have hreach : (Scan.chainAfter .start (Scan.tokensFrom 0 .start ls)).IsReached :=
    Scan.isReached_chainAfter_tokensFrom .start
  have hblank : Cursor.locate ⟨ls.length, 1⟩ (blankAt q ls.length) =
      ⟨0, 1, " ", (Scan.chainAfter .start (Scan.tokensFrom 0 .start ls)).settle, "ws",
        ls.length⟩ := by
    have hat := Scan.tokenAt_of_le (splitLines_blankAt hl) (Int.le_refl 1)
    rwa [lineTokens_blank, ← Cursor.locate_row (splitLines_blankAt hl)] at hat
  have hspace : isFilterable " ".toList = false := by decide
  rw [complete_eq_offers_of_not_isFilterable (by rw [hempty]; rfl),
    complete_eq_offers_of_not_isFilterable (by rw [hblank]; exact hspace),
    Chain.offers_congr (fragmentHeads_blankAt hl)]
  rw [hempty, hblank] at h ⊢
  dsimp only [Scan.emptyAt] at h ⊢
  rw [hreach.isRegular.settle.isPlaced.valid_eq] at h
  exact hreach.offers_settle h s q

/-- Inside a list the members of an enum are offered on an empty line as on a blank one, although
the member before is still being read on the empty one only. -/
theorem complete_blankAt_list :
    ∃ (s : Schema) (q : List Char), q = "\x7b f(among: [A\n\nB".toList ∧
      (splitLines q)[1]? = some [] ∧
      (Cursor.locate ⟨1, 0⟩ q).chain.top.kind = some .enumValue ∧
      (Cursor.locate ⟨1, 1⟩ (blankAt q 1)).chain.top.kind = some .listValue ∧
      Position.ofChain? (Cursor.locate ⟨1, 0⟩ q).chain.valid =
        Position.ofChain? (Cursor.locate ⟨1, 1⟩ (blankAt q 1)).chain.valid ∧
      complete s q ⟨1, 0⟩ = .ok [
        { text := "A", type := some (.named "E") }, { text := "B", type := some (.named "E") }] ∧
      complete s q ⟨1, 0⟩ = complete s (blankAt q 1) ⟨1, 1⟩ := by
  let s : Schema := {
    query := some "Query",
    types := [
      { name := "Query", body := .object [] [
        { name := "f", type := .named "String",
          args := [{ name := "among", type := .list (.named "E") }] }] },
      { name := "E", body := .enum (.known [{ name := "A" }, { name := "B" }]) }] }
  have hrow : (splitLines "\x7b f(among: [A\n\nB".toList)[1]? = some [] := by decide +kernel
  have hp : Position.ofChain? (Cursor.locate ⟨1, 0⟩ "\x7b f(among: [A\n\nB".toList).chain.valid =
      Position.ofChain?
        (Cursor.locate ⟨1, 1⟩ (blankAt "\x7b f(among: [A\n\nB".toList 1)).chain.valid := by
    decide +kernel
  exact ⟨s, _, rfl, hrow, by decide +kernel, by decide +kernel, hp, by decide +kernel,
    complete_blankAt s hrow hp⟩

/-- After a definition and a comment nothing is suggested on an empty line, but the keywords that
begin a definition are on a blank one. -/
theorem complete_empty_after_comment :
    ∃ (s : Schema) (q : List Char), q = "\x7b hero \x7d # done\n".toList ∧
      (splitLines q)[1]? = some [] ∧
      complete s q ⟨1, 0⟩ = .ok [] ∧
      (complete s (blankAt q 1) ⟨1, 1⟩).toOption.map (fun ss => ss.map (·.text)) =
        some ["query", "mutation", "subscription", "fragment", "\x7b"] := by
  let s : Schema := {
    query := some "Query",
    types := [{ name := "Query", body := .object [] [
      { name := "hero", type := .named "String" }] }] }
  exact ⟨s, _, rfl, by decide +kernel, by decide +kernel, by decide +kernel⟩

end QueryAssist
