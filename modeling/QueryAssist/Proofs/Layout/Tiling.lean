import Mathlib.Logic.Function.Iterate
import QueryAssist.Proofs.Cursor.Locate
import QueryAssist.Proofs.Cursor.Prefix

/-! # Tokens tile their lines

A scan loses nothing of a document: the tokens of each line stand side by side on it from its start
to its end, and the scan of a line ends after as many readings as there are tokens. Main
definitions:

* **`Scan.Tiles`** — some tokens stand side by side from a column to the end of a line.
* **`Scan.turn`** — one turn of the loop that scans a line.
* **`Scan.collected`**, **`Scan.collectedOn`** — the tokens that a visitor collects, of the whole
  document and of one row.

Main statement: `tiles_collected`, what a visitor collects, and that the document is put together
from it. -/

namespace QueryAssist

open Grammar

namespace Scan

/-! ### Tilings -/

/-- Some tokens **tile** a line from a column on. -/
inductive Tiles (l : List Char) : Nat → List PlacedToken → Prop
  /-- Nothing is left at the end of the line. -/
  | done : Tiles l l.length []
  /-- A token that is not empty starts at the column, has the text that stands there, and the others
  go on where it stops. -/
  | next {t : PlacedToken} {ts : List PlacedToken} (hlt : t.start < t.stop)
      (hle : t.stop ≤ l.length) (ht : t.text.toList = (l.drop t.start).take (t.stop - t.start))
      (h : Tiles l t.stop ts) : Tiles l t.start (t :: ts)

variable {l : List Char} {i row : Nat} {ts : List PlacedToken} {s : Stream} {c : Chain}

/-- An empty line has no token. -/
theorem Tiles.eq_nil (h : Tiles l i ts) (hl : l = []) : ts = [] := by
  subst hl
  cases h with
  | done => rfl
  | next hlt hle =>
    rw [List.length_nil] at hle
    omega

/-- The first token starts at the column. -/
theorem Tiles.start_head {t : PlacedToken} (h : Tiles l i ts) (ht : ts.head? = some t) :
    t.start = i := by
  cases h with
  | done => cases ht
  | next =>
    cases ht
    rfl

/-- The last token stops at the end of the line. -/
theorem Tiles.stop_getLast {t : PlacedToken} (h : Tiles l i ts) (ht : ts.getLast? = some t) :
    t.stop = l.length := by
  induction h with
  | done => cases ht
  | @next u us _ _ _ hu ih =>
    cases us with
    | nil =>
      obtain rfl : u = t := Option.some.inj ht
      generalize u.stop = j at hu ⊢
      cases hu
      rfl
    | cons v vs =>
      rw [List.getLast?_cons_cons] at ht
      exact ih ht

/-- **Joining** the texts of a tiling gives the line back. -/
theorem Tiles.flatMap_text (h : Tiles l i ts) :
    (ts.flatMap fun t => t.text.toList) = l.drop i := by
  induction h with
  | done => simp
  | @next t ts hlt hle ht _ ih =>
    have hsplit : l.drop t.stop = (l.drop t.start).drop (t.stop - t.start) := by
      rw [List.drop_drop]
      congr 1
      omega
    rw [List.flatMap_cons, ih, ht, hsplit, List.take_append_drop]

/-- A token of a tiling lies on the line, and its text is what stands **between its columns**. -/
theorem Tiles.text_of_mem {t : PlacedToken} (h : Tiles l i ts) (ht : t ∈ ts) :
    t.start < t.stop ∧ t.stop ≤ l.length ∧ t.text.toList = (l.take t.stop).drop t.start := by
  induction h with
  | done => cases ht
  | next hlt hle htext _ ih =>
    rcases List.mem_cons.1 ht with rfl | ht
    · exact ⟨hlt, hle, by rw [htext, List.drop_take]⟩
    · exact ih ht

/-- There are at most as many tokens as characters. -/
theorem Tiles.length_le (h : Tiles l i ts) : i + ts.length ≤ l.length := by
  induction h with
  | done => simp
  | next hlt _ _ _ ih =>
    rw [List.length_cons]
    omega

/-! ### One line -/

/-- One reading of a line that is not at its end takes **some** characters, and no more than there
are. -/
theorem exists_stream_read (c : Chain) (hs : s.rest ≠ []) :
    ∃ n, 0 < n ∧ n ≤ s.rest.length ∧ (Chain.read standard s c).stream = s.take n := by
  rw [Chain.read_eq standard c hs]
  exact ⟨_, Lexer.piece_length_pos s.rest, Lexer.piece_length_le hs, rfl⟩

/-- The tokens of a line tile it from the column where it is read on. -/
theorem tiles_lineTokens (row : Nat) (c : Chain) (hs : s.rest = l.drop s.position)
    (hle : s.position ≤ l.length) : Tiles l s.position (lineTokens row s c) := by
  -- The induction is on the readings; each leaves a stream for which the same holds.
  fun_induction lineTokens row s c with
  | case1 s c hnil =>
    have hlen : l.length ≤ s.position := List.drop_eq_nil_iff.1 (hs ▸ hnil)
    rw [Nat.le_antisymm hle hlen]
    exact .done
  | case2 s c hne r ih =>
    obtain ⟨n, hpos, hn, hr⟩ : ∃ n, 0 < n ∧ n ≤ s.rest.length ∧ r.stream = s.take n :=
      exists_stream_read c hne
    have hlen : s.rest.length = l.length - s.position := by rw [hs, List.length_drop]
    have hstop : r.stream.position = s.position + n := by
      rw [hr, Stream.position_take, Nat.min_eq_left hn]
    have hstart : r.stream.start = s.position := by rw [hr, Stream.start_take]
    have hrest : r.stream.rest = l.drop r.stream.position := by
      rw [hstop, hr, Stream.rest_take, hs, List.drop_drop]
    have htext : r.stream.token = (l.drop s.position).take n := by
      rw [hr, Stream.token_take, hs]
    have hnext := ih hrest (by omega)
    rw [← hstart]
    apply Tiles.next (t := place r.stream r.chain (styleOf r) row)
    · show r.stream.start < r.stream.position
      omega
    · show r.stream.position ≤ l.length
      omega
    · show (String.ofList r.stream.token).toList =
        (l.drop r.stream.start).take (r.stream.position - r.stream.start)
      rw [String.toList_ofList, htext, hstart, hstop, Nat.add_sub_cancel_left]
    · exact hnext

/-- **The tokens of a line tile it**, whatever chain it begins with. -/
theorem tiles_line (row : Nat) (l : List Char) (c : Chain) :
    Tiles l 0 (lineTokens row (.ofLine l) c) :=
  tiles_lineTokens (s := .ofLine l) row c rfl (Nat.zero_le _)

/-- One **turn** of the loop that scans a line. -/
def turn (p : Stream × Chain) : Stream × Chain :=
  ((Chain.read standard p.1 p.2).stream, (Chain.read standard p.1 p.2).chain)

/-- The loop that scans a line **ends** after as many turns as there are tokens. -/
theorem rest_turn_iterate (row : Nat) (s : Stream) (c : Chain) :
    (turn^[(lineTokens row s c).length] (s, c)).1.rest = [] := by
  fun_induction lineTokens row s c with
  | case1 s c hnil => exact hnil
  | case2 s c hne r ih =>
    rw [List.length_cons, Function.iterate_succ_apply]
    exact ih

/-! ### All lines -/

/-- The tokens of some lines are those of their rows, **one row after another**. -/
theorem flatMap_filter_tokensFrom (row : Nat) (c : Chain) (ls : List (List Char)) :
    ((List.range' row ls.length).flatMap fun i =>
      (tokensFrom row c ls).filter fun t => t.row == i) = tokensFrom row c ls := by
  induction ls generalizing row c with
  | nil => rfl
  | cons l ls ih =>
    rw [List.length_cons, List.range'_succ, List.flatMap_cons]
    simp only [tokensFrom, List.filter_append]
    have hline : ∀ t ∈ lineTokens row (.ofLine l) c, t.row = row :=
      fun t ht => (row_of_mem_lineTokens ht).1
    generalize lineTokens row (.ofLine l) c = ts at hline ⊢
    have hlater : ∀ t ∈ tokensFrom (row + 1) (renew (chainAfter c ts)) ls, row < t.row := by
      intro t ht
      obtain ⟨-, -, hrow, -⟩ := row_of_mem_tokensFrom ht
      exact hrow
    -- The first row has the tokens of the first line, and the other rows have those of the others.
    have hfirst : ts.filter (fun t => t.row == row) = ts :=
      List.filter_eq_self.2 fun t ht => by simp [hline t ht]
    have hnone : (tokensFrom (row + 1) (renew (chainAfter c ts)) ls).filter
        (fun t => t.row == row) = [] :=
      List.filter_eq_nil_iff.2 fun t ht => by simp [(hlater t ht).ne']
    have hothers : ∀ i ∈ List.range' (row + 1) ls.length, ts.filter (fun t => t.row == i) = [] := by
      intro i hi
      have hlt : row < i := (List.mem_range'_1.1 hi).1
      exact List.filter_eq_nil_iff.2 fun t ht => by simp [hline t ht, hlt.ne]
    rw [hfirst, hnone, List.append_nil]
    congr 1
    calc (List.range' (row + 1) ls.length).flatMap (fun i =>
          ts.filter (fun t => t.row == i) ++
            (tokensFrom (row + 1) (renew (chainAfter c ts)) ls).filter fun t => t.row == i)
        = (List.range' (row + 1) ls.length).flatMap (fun i =>
            (tokensFrom (row + 1) (renew (chainAfter c ts)) ls).filter fun t => t.row == i) := by
          apply List.flatMap_congr
          intro i hi
          rw [hothers i hi, List.nil_append]
      _ = tokensFrom (row + 1) (renew (chainAfter c ts)) ls := ih _ _

/-- The tokens that a visitor who never stops **collects** of a document. -/
def collected (document : List Char) : List PlacedToken :=
  (visit (fun ts t => (ts ++ [t], false)) [] (splitLines document)).gathered

/-- Those of them that are **on a row**. -/
def collectedOn (document : List Char) (row : Nat) : List PlacedToken :=
  (collected document).filter fun t => t.row == row

/-- A visitor who never stops collects all tokens. -/
theorem collected_eq (document : List Char) : collected document = tokens document :=
  gathered_collect document

/-- The tokens of a row tile its line. -/
theorem tiles_collectedOn {document : List Char} (hl : (splitLines document)[i]? = some l) :
    Tiles l 0 (collectedOn document i) := by
  obtain ⟨ls, ms, hs, rfl⟩ := exists_append_of_getElem? hl
  rw [collectedOn, collected_eq, filter_row_tokens hs]
  exact tiles_line _ _ _

/-- Joining the texts of each row gives the **lines** back. -/
theorem map_text_collectedOn (document : List Char) :
    ((List.range (splitLines document).length).map fun i =>
      (collectedOn document i).flatMap fun t => t.text.toList) = splitLines document := by
  apply List.ext_getElem
  · simp
  · intro i hi hi'
    have htiles := tiles_collectedOn (List.getElem?_eq_getElem hi')
    rw [List.getElem_map, List.getElem_range, htiles.flatMap_text, List.drop_zero]

end Scan

/-- **Tokens tile their lines**: a visitor that collects the tokens of a document sees one row after
another; the tokens of each row tile its line from column 0 to its end; joining their texts and then
the lines gives the document back; and, whatever chain a line is read with, the loop over it is at
its end after at most as many turns as the line has characters. -/
theorem tiles_collected (document : List Char) :
    (List.range (splitLines document).length).flatMap (Scan.collectedOn document) =
      Scan.collected document ∧
    (∀ i l, (splitLines document)[i]? = some l →
      Scan.Tiles l 0 (Scan.collectedOn document i) ∧
      (∀ t, (Scan.collectedOn document i).head? = some t → t.start = 0) ∧
      (∀ t, (Scan.collectedOn document i).getLast? = some t → t.stop = l.length) ∧
      (l = [] → Scan.collectedOn document i = [])) ∧
    joinLines ((List.range (splitLines document).length).map fun i =>
      (Scan.collectedOn document i).flatMap fun t => t.text.toList) = document ∧
    ∀ l ∈ splitLines document, ∀ c : Chain,
      ∃ n ≤ l.length, (Scan.turn^[n] (.ofLine l, c)).1.rest = [] := by
  refine ⟨?_, ?_, ?_, ?_⟩
  · unfold Scan.collectedOn
    rw [Scan.collected_eq, List.range_eq_range']
    exact Scan.flatMap_filter_tokensFrom 0 .start (splitLines document)
  · intro i l hl
    have h := Scan.tiles_collectedOn hl
    exact ⟨h, fun t ht => h.start_head ht, fun t ht => h.stop_getLast ht, h.eq_nil⟩
  · rw [Scan.map_text_collectedOn, joinLines_splitLines]
  · intro l _ c
    have hlen := (Scan.tiles_line 0 l c).length_le
    exact ⟨_, by omega, Scan.rest_turn_iterate 0 (.ofLine l) c⟩

end QueryAssist
