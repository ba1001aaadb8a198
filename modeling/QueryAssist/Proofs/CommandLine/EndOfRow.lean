import QueryAssist.Proofs.CommandLine.Completing
import QueryAssist.Proofs.Typing.Narrowing

/-! # A row without a column

The cursor of a run that is given a row and no column is at the column at which the last line of the
document ends. Main statements:

* `Outcome.atCursor_of_le` — from the end of its row on, the column of a cursor does not matter.
* `runComplete_endOfRow` — the run is that at the end of the row, if the last line is not shorter.
* `runComplete_beforeEndOfRow` — beside a shorter last line it is not. -/

namespace QueryAssist

variable {document : List Char} {row : Nat} {l : List Char}

namespace Cursor

/-- From the end of a row on, the cursor is at the same token. -/
theorem locate_of_le (hl : (splitLines document)[row]? = some l) {column : Int}
    (hc : l.length ≤ column) :
    locate ⟨row, column⟩ document = locate ⟨row, l.length⟩ document := by
  obtain ⟨ls, ms, hs, rfl⟩ := exists_append_of_getElem? hl
  rw [locate_row hs, locate_row hs, Scan.tokenAt_of_le hs hc,
    Scan.tokenAt_of_le hs (Int.le_refl _)]

/-- Up to the end of a row all is written left of a cursor at or past it. -/
theorem writtenLeft_of_le {column : Int} (hc : l.length ≤ column) (t : PlacedToken) :
    writtenLeft ⟨row, column⟩ l t = writtenLeft ⟨row, l.length⟩ l t := by
  have htake : ∀ column : Int, l.length ≤ column →
      l.take (min t.stop column.toNat) = l.take t.stop := by
    intro column hc
    have hall : l.take column.toNat = l := List.take_of_length_le (by omega)
    rw [← List.take_take, hall]
  rw [writtenLeft, writtenLeft, htake column hc, htake l.length (Int.le_refl _)]

end Cursor

/-- **From the end of a row on** the column of a cursor does not matter. -/
theorem Outcome.atCursor_of_le (s : Schema) (hl : (splitLines document)[row]? = some l)
    {column : Int} (hc : l.length ≤ column) :
    atCursor s document ⟨row, column⟩ = atCursor s document ⟨row, l.length⟩ := by
  have hloc := Cursor.locate_of_le hl hc
  have htyped := Cursor.typed_locate hl column
  rw [hloc, Cursor.writtenLeft_of_le hc, ← Cursor.typed_locate hl l.length] at htyped
  rw [atCursor, atCursor, hloc]
  simp only [atToken, htyped]

/-- **A row without a column** stands for the end of that row, if the last line of the document is
not shorter: the run prints the same suggestions as with the length of the row for its column.
Whatever the lines are, the column is the length of the last one. -/
theorem runComplete_endOfRow {o : CompleteOptions} {env : Surroundings} {s s' : Session}
    (hrow : o.row = some (row : Int)) (hcolumn : o.column = none)
    (hread : readDocument o env s = .ok (some document) s')
    (hl : (splitLines document)[row]? = some l) :
    let last := (splitLines document).getLast?.getD []
    Run.unreported (runComplete o env s) =
        Run.unreported (runComplete { o with column := some (last.length : Int) } env s) ∧
      (l.length ≤ last.length →
        Run.unreported (runComplete o env s) =
          Run.unreported (runComplete { o with column := some (l.length : Int) } env s)) := by
  intro last
  have hcursor : o.cursor document = ⟨row, last.length⟩ := by
    rw [CompleteOptions.cursor, hrow, hcolumn]
    rfl
  -- The two runs read the same document.
  have hsame : ∀ column : Int,
      (∀ schema, Outcome.atCursor schema document ⟨row, last.length⟩ =
        Outcome.atCursor schema document ⟨row, column⟩) →
      Run.unreported (runComplete o env s) =
        Run.unreported (runComplete { o with column := some column } env s) := by
    intro column h
    refine unreported_runComplete_congr o.row (some column) fun document' s'' hread' schema => ?_
    obtain ⟨hdoc, -⟩ := EStateM.Result.ok.inj (hread.symm.trans hread')
    obtain rfl := Option.some.inj hdoc
    rw [hcursor, h schema, CompleteOptions.cursor, hrow]
    rfl
  refine ⟨hsame _ fun _ => rfl, fun hle => hsame _ fun schema => ?_⟩
  exact Outcome.atCursor_of_le schema hl (Int.ofNat_le.2 hle)

/-- In `{ he`, with a longer row after it, the run of the first row without a column is that at
column 4, where the row ends, and that at column 5, where the last line does. -/
theorem runComplete_endOfRow_longLastLine :
    let o : CompleteOptions :=
      { schema := some "s", query := some "\x7b he\n    \x7d", row := some 0 }
    let env : Surroundings := { home := "/home", folder := { names := ["config"] } }
    let files : FileTree := { files := [(["s"], "type Query \x7b hero: String \x7d".toUTF8)] }
    let s : Session := { files }
    Run.unreported (runComplete o env s) =
        Run.unreported (runComplete { o with column := some 5 } env s) ∧
      Run.unreported (runComplete o env s) =
        Run.unreported (runComplete { o with column := some 4 } env s) := by
  intro o env files s
  have h := @runComplete_endOfRow "\x7b he\n    \x7d".toList 0 "\x7b he".toList o env s s
    rfl rfl rfl (by decide)
  exact ⟨h.1, h.2 (by decide)⟩

/-- **Beside a shorter last line** a row without a column is not the end of that row. In `{ he`,
with the closing brace in a row of its own, the run without a column prints other suggestions than
the run at the end of the row. -/
theorem runComplete_beforeEndOfRow :
    let files : FileTree :=
      { files := [(["s"], "type Query \x7b hero: String \x7d".toUTF8)] }
    let env : Surroundings := { home := "/home", folder := { names := ["config"] } }
    let o : CompleteOptions :=
      { schema := some "s", query := some "\x7b he\n\x7d", row := some 0, format := some "json" }
    let l := "\x7b he".toList
    (splitLines "\x7b he\n\x7d".toList)[0]? = some l ∧
      ∃ s s', runComplete o env { files } = .ok 0 s ∧
        runComplete { o with column := some (l.length : Int) } env { files } = .ok 0 s' ∧
        s.printed ≠ s'.printed := by
  intro files env o l
  refine ⟨by decide, ?_⟩
  have hfinds : ∀ column : Option Int,
      CompleteOptions.Finds { o with column } env { files } [] "s" "\x7b he\n\x7d".toList :=
    fun column => ⟨⟨.usual env.folder, rfl, rfl⟩, rfl, rfl⟩
  -- Only the suggestions are evaluated; the runs are told apart by what they print of them.
  have hshown : ((SchemaFile.load ⟨{ names := ["s"] }⟩ files).toOption.any fun schema =>
      match Outcome.atCursor schema "\x7b he\n\x7d".toList ⟨0, 1⟩,
        Outcome.atCursor schema "\x7b he\n\x7d".toList ⟨0, 4⟩ with
      | .ok out, .ok out' => printedJson out.suggestions != printedJson out'.suggestions
      | _, _ => false) = true := by decide +kernel
  have hload : SchemaFile.loadNamed env.home env.reader "s" files =
      SchemaFile.load ⟨{ names := ["s"] }⟩ files := by
    rw [SchemaFile.loadNamed, SchemaFile.named_letter]
    rfl
  rw [← hload] at hshown
  cases hschema : SchemaFile.loadNamed env.home env.reader "s" files with
  | error e =>
    rw [hschema] at hshown
    cases hshown
  | ok schema =>
    rw [hschema] at hshown
    change (match Outcome.atCursor schema _ _, Outcome.atCursor schema _ _ with
      | .ok out, .ok out' => printedJson out.suggestions != printedJson out'.suggestions
      | _, _ => false) = true at hshown
    split at hshown
    · next out out' hout hout' =>
      obtain ⟨s, hs, hprinted⟩ := runComplete_of_outcome (hfinds none) hschema hout rfl
      obtain ⟨s', hs', hprinted'⟩ := runComplete_of_outcome (hfinds (some 4)) hschema hout' rfl
      refine ⟨s, s', hs, hs', ?_⟩
      rw [hprinted, hprinted', String.empty_append, String.empty_append]
      exact bne_iff_ne.1 hshown
    · cases hshown

end QueryAssist
