import QueryAssist.Proofs.Cursor.Cut
import QueryAssist.Proofs.Layout.Ending
import QueryAssist.Proofs.Typing.Boundary

/-! # Reading on after a boundary

The tokens of a line that ends at a boundary stay the same when a name is put after it, and the name
is one more token, read from the chain that they leave. Only after three dots can the name change
what was read. Main definition:

* **`PlacedToken.EndsWord`** — a token after which a name is read on its own.

Main statements: `Scan.last_induction`, the induction up to the last token of a line,
`Scan.exists_lastPiece`, what a token that ends a word comes from, and `Scan.exists_append`, what a
name after it adds. -/

namespace QueryAssist

open Grammar

/-- A token **ends a word** if it is ignored or punctuation, so that a name after it is read on its
own. -/
def PlacedToken.EndsWord (t : PlacedToken) : Prop :=
  t.style = "ws" ∨ ∃ u, Lexer.lex? t.text.toList = some u ∧ u.kind = .punctuation

namespace Lexer

/-- Text that is read as punctuation was a boundary where it stood. -/
theorem isBoundary_of_lex? {v : List Char} {t : Token}
    (h : lex? (v.take (piece v).2) = some t) (ht : t.kind = .punctuation) :
    (piece v).1.isBoundary = true := by
  cases hg : v.takeWhile isIgnored with
  | cons c r =>
    rw [piece_of_takeWhile hg]
    rfl
  | nil =>
    cases hl : lex? v with
    | none =>
      rw [← List.take_append_drop (piece v).2 v] at hl
      rw [lex?_eq_none_of_append hl] at h
      cases h
    | some u =>
      have hp := piece_of_lex? hg hl
      rw [hp] at h ⊢
      have hu := hl
      rw [← List.take_append_drop u.text.length v] at hu
      have hle := (prefix_of_lex? hl).length_le
      rw [lex?_of_append hu (by rw [List.length_take, ← String.length_toList]; omega)] at h
      obtain rfl := Option.some.inj h
      exact beq_iff_eq.2 ht

/-- Punctuation holds no word character. -/
theorem isWord_of_punctuation? {v u : List Char} (h : punctuation? v = some u) :
    ∀ c ∈ u, isWord c = false := by
  have hdot : isWord '.' = false := by decide +kernel
  have hmarks : (['!', '$', '(', ')', ':', '=', '@', '[', ']', '\x7b', '|', '\x7d'].all
      fun c => !isWord c) = true := by decide +kernel
  obtain ⟨d, ds, rfl⟩ := List.exists_cons_of_ne_nil (l := v) (by rintro rfl; cases h)
  intro c hc
  rw [punctuation?_cons] at h
  split at h
  · obtain rfl := Option.some.inj h
    simp only [List.mem_cons, List.not_mem_nil, or_false, or_self] at hc
    rwa [hc]
  · split at h
    · next hd =>
      obtain rfl := Option.some.inj h
      obtain rfl := List.mem_singleton.1 hc
      simpa using List.all_eq_true.1 hmarks c (List.contains_iff_mem.1 hd)
    · cases h

/-- A boundary holds no word character. -/
theorem isWord_of_isBoundary {v : List Char} (h : (piece v).1.isBoundary = true) :
    ∀ c ∈ v.take (piece v).2, isWord c = false := by
  cases hg : v.takeWhile isIgnored with
  | cons d r =>
    rw [piece_of_takeWhile hg, ← hg, ← List.prefix_iff_eq_take.1 (List.takeWhile_prefix _)]
    intro c hc
    have := List.mem_takeWhile_imp hc
    simp only [isIgnored, Bool.or_eq_true, beq_iff_eq] at this
    rcases this with ((((rfl | rfl) | rfl) | rfl) | rfl) | rfl <;> decide +kernel
  | nil =>
    cases hl : lex? v with
    | none =>
      rw [piece_of_lex?_eq_none hg hl] at h
      cases h
    | some u =>
      rw [piece_of_lex? hg hl] at h ⊢
      have hk : u.kind = .punctuation := beq_iff_eq.1 h
      have hp := pattern_of_lex? hl
      rw [← String.length_toList, ← List.prefix_iff_eq_take.1 (prefix_of_lex? hl)]
      rw [hk] at hp
      exact isWord_of_punctuation? hp

end Lexer

namespace Chain

variable {c : Chain} {x : Piece} {v p : List Char}

/-- **What a regular chain makes of a piece**: ignored text, a comment, what fits nowhere, or a
token that some chain admits after moves. -/
theorem IsRegular.react_cases (h : c.IsRegular) (x : Piece) (a : List Char) :
    (x = .gap ∧ Chain.react standard c x a = (.ok "ws", c.settle)) ∨
    (∃ t : Token, x = .token t ∧ t.kind = .comment ∧
      Chain.react standard c x a = (.ok "comment", c.settle.enterComment)) ∨
    ((∀ t, x = .token t → match? standard t a c.settle.budget c.settle = .misfit) ∧
      Chain.react standard c x a = (.ok "invalidchar", c.settle.enterInvalid)) ∨
    ∃ (t : Token) (d : Chain) (e : Terminal), x = .token t ∧ Falls t a c.settle d ∧ d.IsOpen ∧
      Admits t a d e ∧ Chain.react standard c x a = (.ok e.style, d.accept e t) := by
  have ho := h.settle.toIsOpen
  cases x with
  | gap => exact .inl ⟨rfl, rfl⟩
  | unknown => exact .inr (.inr (.inl ⟨nofun, rfl⟩))
  | token t =>
    unfold Chain.react
    dsimp only
    split
    · next hk => exact .inr (.inl ⟨t, rfl, hk, rfl⟩)
    · obtain hm | hm | ⟨d, e, hf, hd, ha, hm⟩ := ho.match?_cases t a c.settle.budget
      · exact absurd hm (ho.match?_budget_ne_exhausted t a)
      · rw [hm]
        refine .inr (.inr (.inl ⟨?_, rfl⟩))
        rintro u ⟨⟩
        exact hm
      · rw [hm]
        exact .inr (.inr (.inr ⟨t, d, e, rfl, hf, hd, ha, rfl⟩))

/-- Only ignored characters have their style. -/
theorem eq_gap_of_style (hc : c.IsRegular) {a : List Char}
    (h : (Chain.react standard c x a).1 = .ok "ws") : x = .gap := by
  obtain ⟨hx, -⟩ | ⟨t, -, -, hr⟩ | ⟨-, hr⟩ | ⟨t, d, e, -, -, hd, ha, hr⟩ := hc.react_cases x a
  · exact hx
  · rw [hr] at h
    exact absurd (Except.ok.inj h) (by decide)
  · rw [hr] at h
    exact absurd (Except.ok.inj h) (by decide)
  · rw [hr] at h
    have he : e.style = "ws" := Except.ok.inj h
    exact absurd (he ▸ (by decide : "ws" ∈ outsideStyles)) (hd.style_notMem ha)

/-- After a boundary nothing is due. -/
theorem restsAt_react_of_isBoundary (hc : c.IsRegular) (hx : x.isBoundary = true)
    (a : List Char) :
    RestsAt (Chain.react standard c x a).2.settle (Chain.react standard c x a).2 := by
  have hs := hc.settle
  obtain ⟨-, hr⟩ | ⟨t, rfl, hk, -⟩ | ⟨-, hr⟩ | ⟨t, d, e, rfl, -, hd, ha, hr⟩ := hc.react_cases x a
  · rw [hr]
    exact .inl hs.settle_eq.symm
  · have ht : t.kind = .punctuation := beq_iff_eq.1 hx
    cases hk.symm.trans ht
  · rw [hr, enterInvalid, hs.settle_enter]
    exact .inr rfl
  · have ht : t.kind = .punctuation := beq_iff_eq.1 hx
    have hacc := (hd.isSettled_record ha.wanted t.text).advance
    rw [hr, Chain.accept, if_pos ht]
    exact .inl hacc.settle_eq.symm

/-- A name after the rest of a line **changes nothing** of what is made of a piece, unless the rest
is a gap and the piece is three dots. -/
theorem react_append (hc : c.IsRegular) (x : Piece) (hp : IsName p)
    (hv : v.dropWhile Lexer.isGap <+: ['o', 'n'] → v.dropWhile Lexer.isGap = []) :
    (Chain.react standard c x (v ++ p)).2 = (Chain.react standard c x v).2 ∨
    (v.dropWhile Lexer.isGap = [] ∧ AwaitsSpread (Chain.react standard c x v).2) := by
  cases x with
  | gap => exact .inl rfl
  | unknown => exact .inl rfl
  | token t =>
    obtain he | ⟨e, r, q, he, hn, hne, hr, hq, ha, -, hm⟩ := react_ahead hc t (v ++ p) v
    · exact .inl (congrArg Prod.snd he)
    · rw [hm]
      -- The two outcomes differ in the selection that was chosen: for an alias or for a spread.
      obtain ⟨-, -, hcolon, -⟩ | ⟨ht, hon, -⟩ := selectionOf_append hne
      · -- A name begins with neither a gap nor a colon.
        have hgap := hp.head?_eq_false (q := Lexer.isGap) (by decide)
        have hhead : p.head? ≠ some ':' := hp.head?_ne (by decide)
        obtain ⟨d, r, rfl⟩ := List.exists_cons_of_ne_nil (mt (· ▸ hp) not_isName_nil)
        rw [List.dropWhile_cons_of_neg (by simpa using hgap d rfl)] at hcolon
        exact absurd hcolon hhead
      · have hnil := hv hon
        have hs : selectionOf t v = .fragmentSpread := by
          rw [selectionOf_dots ht, Lexer.isSome_inlineAhead, hnil]
          rfl
        rw [firstOfSelection, if_pos (beq_iff_eq.2 ht)] at ha ⊢
        have hn := hn v
        rw [hs] at hq hn ⊢
        exact .inr ⟨hnil, awaitsSpread_accept he hn hq ha⟩

end Chain

namespace Scan

open Chain

variable {row : Nat} {s r : Stream} {c f : Chain} {v p : List Char} {t : PlacedToken}

/-- The last token of a line with more to read is the last one of what is read. -/
theorem getLast?_cons_lineTokens {d : Chain} {u : PlacedToken} (hs : s.rest ≠ [])
    (ht : (u :: lineTokens row s d).getLast? = some t) :
    (lineTokens row s d).getLast? = some t := by
  have hne : lineTokens row s d ≠ [] := by
    rw [lineTokens, dif_neg hs]
    exact List.cons_ne_nil _ _
  rwa [List.getLast?_cons_of_ne_nil hne] at ht

/-- **Induction up to the last token of a line**: its piece is the last one, or there are tokens
after the next piece. -/
theorem last_induction {motive : Stream → Chain → Prop}
    (last : ∀ {s : Stream} {c : Chain} {style : String}, c.IsRegular → s.rest ≠ [] →
      s.rest.drop (Lexer.piece s.rest).2 = [] →
      Chain.react standard c (Lexer.piece s.rest).1 [] = (.ok style, t.chain) →
      t = place (s.take (Lexer.piece s.rest).2) t.chain style row → motive s c)
    (next : ∀ {s : Stream} {c d : Chain}, c.IsRegular → s.rest ≠ [] →
      s.rest.drop (Lexer.piece s.rest).2 ≠ [] →
      (Chain.react standard c (Lexer.piece s.rest).1 (s.rest.drop (Lexer.piece s.rest).2)).2 = d →
      (lineTokens row (s.take (Lexer.piece s.rest).2) d).getLast? = some t →
      motive (s.take (Lexer.piece s.rest).2) d → motive s c)
    (hc : c.IsRegular) (ht : (lineTokens row s c).getLast? = some t) : motive s c := by
  -- The induction is on what is left of the line.
  induction hlen : s.rest.length using Nat.strongRecOn generalizing s c with
  | ind n ih =>
    subst hlen
    have hs : s.rest ≠ [] := by
      intro hnil
      rw [lineTokens, dif_pos hnil] at ht
      cases ht
    obtain ⟨style, hstyle, hline⟩ := exists_lineTokens_eq row hc hs
    rw [hline] at ht
    by_cases hend : s.rest.drop (Lexer.piece s.rest).2 = []
    · rw [lineTokens, dif_pos (show (s.take _).rest = [] from hend),
        List.getLast?_singleton] at ht
      obtain rfl := Option.some.inj ht
      refine last hc hs hend (Prod.ext ?_ ?_) rfl
      · rwa [hend] at hstyle
      · exact congrArg (fun a => (Chain.react standard c (Lexer.piece s.rest).1 a).2) hend.symm
    · have htail := getLast?_cons_lineTokens (s := s.take (Lexer.piece s.rest).2) hend ht
      have hpos := Lexer.piece_length_pos s.rest
      have hlength := List.length_pos_iff.2 hs
      exact next hc hs hend rfl htail
        (ih _ (by rw [Stream.rest_take, List.length_drop]; omega) (isRegular_react hc hs) htail rfl)

/-- **What the last token of a line comes from**, if it ends a word: the line ends at a boundary,
and the token is that boundary. -/
theorem exists_lastPiece (hc : c.IsRegular) (ht : (lineTokens row s c).getLast? = some t)
    (hw : t.EndsWord) :
    EndsAtBoundary s.rest ∧ RestsAt t.chain.settle t.chain ∧
      ∀ ch ∈ t.text.toList, isWord ch = false := by
  refine last_induction (motive := fun s _ => EndsAtBoundary s.rest ∧ _) ?_ ?_ hc ht
  · intro s c style hc hs hend hreact hplace
    have htext : t.text = String.ofList (s.rest.take (Lexer.piece s.rest).2) := by rw [hplace]; rfl
    have hb : (Lexer.piece s.rest).1.isBoundary = true := by
      obtain hw | ⟨u, hu, hk⟩ := hw
      · obtain rfl : style = "ws" := by rw [hplace] at hw; exact hw
        rw [eq_gap_of_style hc (congrArg Prod.fst hreact)]
        rfl
      · exact Lexer.isBoundary_of_lex? (t := u) (by simpa [htext] using hu) hk
    have hrest := restsAt_react_of_isBoundary hc hb []
    rw [hreact] at hrest
    refine ⟨.last hb ?_, hrest, by simpa [htext] using Lexer.isWord_of_isBoundary hb⟩
    exact Nat.le_antisymm (Lexer.piece_length_le hs) (List.drop_eq_nil_iff.1 hend)
  · intro s c d _ _ _ _ _ ih
    exact ⟨.next ih.1, ih.2⟩

/-- A gap keeps a chain at rest. -/
theorem restsAt_of_gap (hf : f.IsSettled) (hc : RestsAt f c) (hreg : c.IsRegular)
    (hs : ∀ ch ∈ s.rest, Lexer.isGap ch = true) (ht : (lineTokens row s c).getLast? = some t) :
    RestsAt f t.chain := by
  have hstep : ∀ {s : Stream} {c : Chain}, s.rest ≠ [] → (∀ ch ∈ s.rest, Lexer.isGap ch = true) →
      RestsAt f c → ∀ a, RestsAt f (Chain.react standard c (Lexer.piece s.rest).1 a).2 := by
    intro s c hne hs hc a
    obtain ⟨ch, cs, hcs⟩ := List.exists_cons_of_ne_nil hne
    have hx := Lexer.piece_ne_token (hs ch (hcs ▸ List.mem_cons_self)) cs
    rw [← hcs] at hx
    exact hc.settle_eq hf ▸ restsAt_react hx c a
  refine last_induction (motive := fun s c => RestsAt f c →
    (∀ ch ∈ s.rest, Lexer.isGap ch = true) → RestsAt f t.chain) ?_ ?_ hreg ht hc hs
  · intro s c style _ hne _ hreact _ hc hs
    have := hstep hne hs hc []
    rwa [hreact] at this
  · intro s c d _ hne _ hd _ ih hc hs
    exact ih (hd ▸ hstep hne hs hc _) fun ch hch => hs ch (List.mem_of_mem_drop hch)

/-- The tokens of a line that is a name. -/
theorem lineTokens_name (row : Nat) (hc : c.IsRegular) (hp : IsName p) (hr : r.rest = p) :
    ∃ u, lineTokens row r c = [u] ∧ u.start = r.position ∧ u.text = String.ofList p ∧
      u.chain = (Chain.react standard c (.token ⟨.name, String.ofList p⟩) []).2 := by
  have hne : r.rest ≠ [] := by
    rw [hr]
    exact mt (· ▸ hp) not_isName_nil
  obtain ⟨style, -, hline⟩ := exists_lineTokens_eq row hc hne
  rw [hr, hp.piece_eq, List.drop_length] at hline
  rw [hline, lineTokens, dif_pos (by rw [Stream.rest_take, hr]; exact List.drop_length)]
  refine ⟨_, rfl, rfl, ?_, rfl⟩
  change String.ofList (r.rest.take p.length) = _
  rw [hr, List.take_length]

/-- The first piece of a line that ends at a boundary is read as it is without the name after it. -/
theorem exists_lineTokens_append (row : Nat) (hc : c.IsRegular) (hp : IsName p)
    (hv : EndsAtBoundary v) (hr : r.rest = v ++ p) {d : Chain}
    (hd : (Chain.react standard c (Lexer.piece v).1 (v.drop (Lexer.piece v).2)).2 = d) :
    (r.take (Lexer.piece v).2).rest = v.drop (Lexer.piece v).2 ++ p ∧
      (r.take (Lexer.piece v).2).position = r.position + (Lexer.piece v).2 ∧
      ((∃ u, lineTokens row r c = u :: lineTokens row (r.take (Lexer.piece v).2) d) ∨
        (v.drop (Lexer.piece v).2).dropWhile Lexer.isGap = [] ∧ AwaitsSpread d) := by
  have hle := Lexer.piece_length_le hv.ne_nil
  have hrne : r.rest ≠ [] := hr ▸ List.append_ne_nil_of_left_ne_nil hv.ne_nil p
  refine ⟨Stream.rest_take_of_append hr hle, Stream.position_take_of_append hr hle, ?_⟩
  obtain ⟨z, -, hzr⟩ := exists_lineTokens_eq row hc hrne
  rw [hr, hv.piece_append hp, List.drop_append_of_le_length hle] at hzr
  -- What is left of the line is nothing, or ends at a boundary too.
  obtain happ | happ := react_append (v := v.drop (Lexer.piece v).2) hc (Lexer.piece v).1 hp
    fun hon => hv.drop_piece.elim (fun h => by rw [h]; rfl) (·.dropWhile_eq_nil hon)
  · rw [happ, hd] at hzr
    exact .inl ⟨_, hzr⟩
  · exact .inr (hd ▸ happ)

/-- **What a name adds to a line that ends at a boundary**: one token, read from the chain that the
line leaves, unless that one stands at the name of a spread. -/
theorem exists_append (hv : EndsAtBoundary v) (hp : IsName p) (hs : s.rest = v)
    (hr : r.rest = v ++ p) (hpos : r.position = s.position) (hc : c.IsRegular)
    (ht : (lineTokens row s c).getLast? = some t) :
    AtSpread t.chain ∨ ∃ u, (lineTokens row r c).getLast? = some u ∧
      u.start = s.position + v.length ∧ u.text = String.ofList p ∧
      u.chain = (Chain.react standard t.chain (.token ⟨.name, String.ofList p⟩) []).2 := by
  -- The induction is on the pieces of the line, and the name comes after the last one.
  refine last_induction (motive := fun s c => ∀ {v : List Char} {r : Stream}, EndsAtBoundary v →
    s.rest = v → r.rest = v ++ p → r.position = s.position → AtSpread t.chain ∨
      ∃ u, (lineTokens row r c).getLast? = some u ∧ u.start = s.position + v.length ∧
        u.text = String.ofList p ∧
        u.chain = (Chain.react standard t.chain (.token ⟨.name, String.ofList p⟩) []).2)
    ?_ ?_ hc ht hv hs hr hpos
  · rintro s c style hc - hend hreact hplace v r hv rfl hr hpos
    obtain ⟨hrest, hposition, ⟨u, hu⟩ | ⟨-, hf⟩⟩ := exists_lineTokens_append row hc hp hv hr
      (congrArg Prod.snd (hend.symm ▸ hreact))
    · have hreg : t.chain.IsRegular := by
        have := isRegular_react hc hv.ne_nil
        rwa [hend, hreact] at this
      obtain ⟨w, hw, hstart, htext, hchain⟩ :=
        lineTokens_name row hreg hp (hrest.trans (by rw [hend, List.nil_append]))
      have hlen : (Lexer.piece s.rest).2 = s.rest.length :=
        Nat.le_antisymm (Lexer.piece_length_le hv.ne_nil) (List.drop_eq_nil_iff.1 hend)
      rw [hu, hw]
      exact .inr ⟨w, rfl, by rw [hstart, hposition, hpos, hlen], htext, hchain⟩
    · exact .inl (hf.position (.inl rfl))
  · rintro s c d hc - hend hd htail ih v r hv rfl hr hpos
    have hreg : d.IsRegular := hd ▸ isRegular_react hc hv.ne_nil
    have hle := Lexer.piece_length_le hv.ne_nil
    obtain ⟨hrest, hposition, ⟨u, hu⟩ | ⟨hgap, hf⟩⟩ := exists_lineTokens_append row hc hp hv hr hd
    · have hsposition : (s.take (Lexer.piece s.rest).2).position =
          s.position + (Lexer.piece s.rest).2 := by
        rw [Stream.position_take]
        omega
      obtain hat | ⟨w, hw, hstart, htext, hchain⟩ := ih (hv.drop_piece.resolve_left hend) rfl hrest
        (by rw [hposition, hsposition, hpos])
      · exact .inl hat
      · refine .inr ⟨w, ?_, ?_, htext, hchain⟩
        · rw [hu, List.getLast?_cons, hw]
          rfl
        · rw [hstart, hsposition, List.length_drop]
          omega
    · exact .inl (hf.position (restsAt_of_gap hf.settled (.inl rfl) hreg
        (List.dropWhile_eq_nil_iff.1 hgap) htail))

end Scan

end QueryAssist
