import QueryAssist.Proofs.Layout.Ending
import QueryAssist.Proofs.Layout.Tiling

/-! # Suggestions narrowed by what is left of the cursor

The token at a cursor may end before it, reach past it, lie right of it or be empty. In each case
the suggestions are narrowed by the characters of the line from the start of the token up to its end
or the cursor, whichever comes first. Main definition:

* **`Cursor.writtenLeft`** — what is written left of a cursor, from the start of a token on.

Main statements: `Cursor.typed_locate`, that this is what was typed of the token at the cursor, and
`complete_narrowed`, that the suggestions are narrowed by it and by nothing else. -/

namespace QueryAssist

namespace Cursor

variable {document : List Char} {ls ms : List (List Char)} {l : List Char}

/-! ### The token at a cursor on its line -/

/-- On a row of the document the token at the cursor is on that row, and its text is what stands
**between its columns**. -/
theorem text_locate (hl : splitLines document = ls ++ l :: ms) (column : Int) :
    (locate ⟨ls.length, column⟩ document).row = ls.length ∧
      (locate ⟨ls.length, column⟩ document).text.toList =
        (l.take (locate ⟨ls.length, column⟩ document).stop).drop
          (locate ⟨ls.length, column⟩ document).start := by
  rw [locate_row hl]
  rcases Scan.tokenAt_mem_or_eq hl column with ht | ht
  · obtain ⟨-, -, htext⟩ := (Scan.tiles_line _ l _).text_of_mem ht
    exact ⟨(Scan.row_of_mem_lineTokens ht).1, htext⟩
  · rw [ht]
    exact ⟨rfl, rfl⟩

/-! ### What is written left of a cursor -/

/-- What is **written left of a cursor** on its line, from the start of a token up to its end or the
cursor, whichever comes first, without the blanks around it. -/
def writtenLeft (c : Cursor) (l : List Char) (t : PlacedToken) : List Char :=
  strip ((l.take (min t.stop c.column.toNat)).drop t.start)

/-- **What was typed** of the token at a cursor is what is written left of the cursor. -/
theorem typed_locate {row : Nat} (hl : (splitLines document)[row]? = some l) (column : Int) :
    typed ⟨row, column⟩ (locate ⟨row, column⟩ document).row (locate ⟨row, column⟩ document).start
        (locate ⟨row, column⟩ document).text =
      writtenLeft ⟨row, column⟩ l (locate ⟨row, column⟩ document) := by
  obtain ⟨ls, ms, hs, rfl⟩ := exists_append_of_getElem? hl
  obtain ⟨hrow, htext⟩ := text_locate hs column
  generalize locate ⟨ls.length, column⟩ document = t at hrow htext ⊢
  simp only [typed, writtenLeft]
  rw [if_pos (by rw [hrow]), htext, List.take_drop, List.take_take]
  rcases Int.le_total t.start column with hle | hle
  · have hcut : min (t.start + (column - t.start).toNat) t.stop = min t.stop column.toNat := by
      omega
    rw [hcut]
  · -- A cursor that is not past the start has nothing of the token to its left.
    rw [List.drop_eq_nil_of_le, List.drop_eq_nil_of_le]
    · rw [List.length_take]
      omega
    · rw [List.length_take]
      omega

/-- Of a text on the row of a cursor **only the part to the left** of the cursor counts as typed. -/
theorem typed_congr {c : Cursor} {row start : Int} (hrow : row = c.row) {text text' : String}
    (h : text'.toList.take (c.column - start).toNat = text.toList.take (c.column - start).toNat) :
    c.typed row start text' = c.typed row start text := by
  rw [typed, typed, if_pos hrow, if_pos hrow, h]

/-- Nothing is typed of a token without a text. -/
theorem typed_empty (c : Cursor) (row start : Int) : c.typed row start "" = [] := by
  simp [typed]

end Cursor

namespace Outcome

variable {s : Schema} {document : List Char} {c : Cursor} {t : PlacedToken}

/-- The outcome at a token depends on its text only through **what was typed** of it. -/
theorem atToken_congr {text : String}
    (h : c.typed t.row t.start text = c.typed t.row t.start t.text) :
    atToken s document c { t with text := text } = atToken s document c t := by
  simp only [atToken, h]

/-- At a token without its text the suggestions are **all that is offered** there. -/
theorem map_suggestions_atToken_empty :
    (atToken s document c { t with text := "" }).map suggestions = t.chain.offers s document := by
  rw [map_suggestions_atToken, Cursor.typed_empty]
  cases t.chain.offers s document <;> rfl

end Outcome

/-- What is left after narrowing **begins with what was typed**, if that can filter. -/
theorem isPrefix_of_mem_narrow {typed : List Char} (h : isFilterable typed = true)
    {ss : List Suggestion} {x : Suggestion} (hx : x ∈ narrow typed ss) :
    typed <+: x.text.toList := by
  rw [narrow, if_pos h] at hx
  exact List.isPrefixOf_iff_prefix.1 (List.mem_filter.1 hx).2

/-- **Suggestions are narrowed by the text left of the cursor, and by nothing else.** On every row
of a document and at every column, let `t` be the token at the cursor and `w` what is written left
of the cursor from the start of `t` on. If `w` has a word character, every suggestion begins with
it. The suggestions, or the fault that shows, are those of the same place with the text of `t` taken
away, and of them, if `w` has a word character, only those that begin with it, in their order.
No character at the column or right of it takes part: another text of `t` with the same characters
to the left has the same outcome. -/
theorem complete_narrowed (s : Schema) {document : List Char} {row : Nat} {l : List Char}
    (hl : (splitLines document)[row]? = some l) (column : Int) :
    let c : Cursor := ⟨row, column⟩
    let t := c.locate document
    let w := c.writtenLeft l t
    (w.any isWord = true → ∀ ss, complete s document c = .ok ss →
      ∀ x ∈ ss, w <+: x.text.toList) ∧
    complete s document c =
      ((Outcome.atToken s document c { t with text := "" }).map Outcome.suggestions).map
        (fun ss => if w.any isWord then ss.filter fun x => w.isPrefixOf x.text.toList else ss) ∧
    ∀ text : String,
      text.toList.take (column - t.start).toNat = t.text.toList.take (column - t.start).toNat →
      Outcome.atToken s document c { t with text := text } = Outcome.atCursor s document c := by
  intro c t w
  -- What was typed is measured on the token, and is what is written left of the cursor.
  have htyped : c.typed t.row t.start t.text = w := Cursor.typed_locate hl column
  have hrow : (t.row : Int) = c.row := by
    obtain ⟨ls, ms, hs, rfl⟩ := exists_append_of_getElem? hl
    exact congrArg _ (Cursor.text_locate hs column).1
  have hcomplete : complete s document c = (t.chain.offers s document).map (narrow w) := by
    rw [complete_eq_offers, htyped]
  refine ⟨?_, ?_, fun text h => Outcome.atToken_congr (Cursor.typed_congr hrow h)⟩
  · intro hw ss hss x hx
    rw [hcomplete] at hss
    cases ho : t.chain.offers s document with
    | error f =>
      rw [ho] at hss
      cases hss
    | ok offered =>
      rw [ho] at hss
      obtain rfl := Except.ok.inj hss
      exact isPrefix_of_mem_narrow hw hx
  · rw [hcomplete, Outcome.map_suggestions_atToken_empty]
    rfl

/-- Inside a word at the start of a line the suggestions are narrowed by the letters to the left of
the cursor alone, although the token reaches past it. -/
theorem complete_narrowed_insideWord :
    ∃ (s : Schema) (document : List Char), document = "\x7b\nusual \x7d".toList ∧
      (splitLines document)[1]? = some "usual \x7d".toList ∧
      (Cursor.locate ⟨1, 2⟩ document).text = "usual" ∧
      (complete s document ⟨1, 2⟩).toOption.map (fun ss => ss.map (·.text)) =
        some ["user", "users"] ∧
      ((complete s document ⟨1, 0⟩).toOption.map fun ss => ss.map (·.text)) =
        some ["me", "user", "users", "__schema", "__type"] ∧
      ∀ ss, complete s document ⟨1, 2⟩ = .ok ss → ∀ x ∈ ss, "us".toList <+: x.text.toList := by
  let s : Schema := {
    query := some "Query",
    types := [{ name := "Query", body := .object [] [
      { name := "me", type := .named "User" },
      { name := "user", type := .named "User" },
      { name := "users", type := .list (.named "User") }] }] }
  have hl : (splitLines "\x7b\nusual \x7d".toList)[1]? = some "usual \x7d".toList := by
    decide +kernel
  have hw : Cursor.writtenLeft ⟨1, 2⟩ "usual \x7d".toList
      (Cursor.locate ⟨1, 2⟩ "\x7b\nusual \x7d".toList) = "us".toList := by decide +kernel
  have h := (complete_narrowed s hl 2).1
  refine ⟨s, _, rfl, hl, by decide +kernel, by decide +kernel, by decide +kernel, ?_⟩
  rw [← hw]
  exact h (hw ▸ by decide +kernel)

end QueryAssist
