import QueryAssist.Proofs.Cursor.Cut

/-! # What stands before a quote

No token but a string or a comment goes on past a quote, and the texts that are looked ahead for
hold none. So what is read up to a quote does not depend on what comes after the quote.

Main statements:

* **`Lexer.piece_before`** — on the next piece, where it ends before the quote.
* **`Chain.react_before`** — on what a chain makes of it.
* **`Scan.exists_lineTokens_before`** — on a line where a token starts at the quote. -/

namespace QueryAssist

open Grammar

/-! ### Pieces -/

/-- A run that ends before some character does not depend on what comes after that. -/
theorem takeWhile_before {p : Char → Bool} {q : Char} {v x : List Char}
    (h : ((v ++ q :: x).takeWhile p).length ≤ v.length) (y : List Char) :
    (v ++ q :: y).takeWhile p = (v ++ q :: x).takeWhile p := by
  rw [List.takeWhile_append] at h ⊢
  rw [List.takeWhile_append]
  split
  · next hl =>
    rw [if_pos hl, List.length_append] at h
    have hq : p q = false := by
      refine Bool.eq_false_iff.2 fun hq => ?_
      rw [List.takeWhile_cons_of_pos hq, List.length_cons] at h
      omega
    rw [List.takeWhile_cons_of_neg (by simp [hq]), List.takeWhile_cons_of_neg (by simp [hq])]
  · rfl

namespace Lexer

variable {v x : List Char}

/-- A pattern that a quote ends takes alike before one, whatever comes after it. -/
theorem takesAlike_of_endsWord {f : List Char → Option (List Char)}
    (h : ∀ {u r : List Char}, u ≠ [] → EndsWord r → f (u ++ r) = f u) (hv : v ≠ [])
    (x y : List Char) : TakesAlike f v ('"' :: x) ('"' :: y) := by
  have he : f (v ++ '"' :: y) = f (v ++ '"' :: x) := by
    rw [h hv (endsWord_quote y), h hv (endsWord_quote x)]
  exact ⟨fun hf _ => he.trans hf, fun hf => he.trans hf⟩

/-- A comment that begins before a quote is alike, whatever comes after the quote. -/
theorem takesAlike_comment? (hv : v ≠ []) (x y : List Char) :
    TakesAlike comment? v ('"' :: x) ('"' :: y) := by
  obtain ⟨c, v, rfl⟩ := List.exists_cons_of_ne_nil hv
  refine ⟨fun {u} hf hu => ?_, fun hf => ?_⟩
  · simp only [List.cons_append, comment?] at hf ⊢
    split at hf
    · next heq =>
      obtain ⟨rfl, rfl⟩ := List.cons.inj heq
      obtain rfl := Option.some.inj hf
      simp only [takeWhile_before (Nat.le_of_succ_le_succ hu) y]
    · cases hf
  · simp only [List.cons_append, comment?] at hf ⊢
    split at hf
    · cases hf
    · next hc =>
      split
      · next heq =>
        obtain ⟨rfl, -⟩ := List.cons.inj heq
        exact absurd rfl (hc _)
      · rfl

/-- The body of a string that ends before a quote does not depend on what comes after the quote. -/
theorem stringBody_before
    (h : (stringBody (v ++ '"' :: x)).length ≤ v.length) (y : List Char) :
    stringBody (v ++ '"' :: y) = stringBody (v ++ '"' :: x) := by
  fun_induction stringBody v with
  | case1 a b c d cs hx ih =>
    simp only [List.cons_append, stringBody, hx, if_true] at h ⊢
    rw [ih (by simpa using h)]
  | case2 a b c d cs hx => simp [stringBody, hx]
  | case3 e cs hu he ih =>
    have hne : e ≠ 'u' := by
      rintro rfl
      exact absurd he (by decide)
    simp only [List.cons_append] at h ⊢
    rw [stringBody, if_pos he] at h ⊢
    · rw [stringBody, if_pos he, ih (by simpa using h)]
      simp [hne]
    all_goals simp [hne]
  | case4 e cs hu he =>
    -- The quote stands among the four characters that would have to be digits.
    have hnil : ∀ z, stringBody ('\\' :: e :: cs ++ '"' :: z) = [] := by
      intro z
      obtain hb | ⟨e', r, hr, he', -⟩ | ⟨a, b, c, d, r, hr, hx, -⟩ :=
        stringBody_backslash (e :: (cs ++ '"' :: z))
      · exact hb
      · obtain ⟨rfl, -⟩ := List.cons.inj hr
        exact absurd he' he
      · obtain ⟨rfl, hcs⟩ := List.cons.inj hr
        have hlen : cs.length < 4 := by
          refine Nat.lt_of_not_le fun hle => ?_
          obtain ⟨a', b', c', d', r', rfl⟩ := exists_eq_cons_of_four_le hle
          exact hu a' b' c' d' r' rfl rfl
        have hmem : '"' ∈ [a, b, c, d] := by
          have htake : (cs ++ '"' :: z).take 4 = [a, b, c, d] := by rw [hcs]; rfl
          rw [← htake, List.take_append, show 4 - cs.length = 3 - cs.length + 1 by omega]
          simp
        exact absurd (hx '"' hmem) (by decide)
    rw [hnil, hnil]
  | case5 c cs hu he hc =>
    by_cases hq : c = '"'
    · subst hq
      simp [stringBody]
    · obtain rfl : c = '\\' := by simpa [hq] using hc
      obtain rfl : cs = [] := by
        cases cs with
        | nil => rfl
        | cons e r => exact (he e r rfl rfl).elim
      -- The quote is escaped, so the body goes on after it.
      simp [stringBody, isEscapeLetter] at h
  | case6 c cs hu he hc ih =>
    simp only [Bool.or_eq_true, beq_iff_eq, not_or] at hc
    rw [List.cons_append, stringBody_plain hc.1 hc.2] at h ⊢
    rw [List.cons_append, stringBody_plain hc.1 hc.2, ih (by simpa using h)]
  | case7 => simp [stringBody]

/-- A string that begins before a quote is alike up to it, whatever comes after the quote. -/
theorem takesAlike_string? (hv : v ≠ []) (x y : List Char) :
    TakesAlike string? v ('"' :: x) ('"' :: y) := by
  obtain ⟨c, v, rfl⟩ := List.exists_cons_of_ne_nil hv
  refine ⟨fun {u} hf hu => ?_, fun hf => ?_⟩
  · rw [List.cons_append, string?_cons] at hf ⊢
    split at hf
    · next hc =>
      have hle : (stringBody (v ++ '"' :: x)).length ≤ v.length := by
        split at hf <;> obtain rfl := Option.some.inj hf <;>
          simp only [List.cons_append, List.length_cons, List.length_append] at hu <;> omega
      -- What decides whether the string is closed begins before the quote or with it.
      have hhead : ∀ z, ((v ++ '"' :: z).drop (stringBody (v ++ '"' :: x)).length).head? =
          ((v.drop (stringBody (v ++ '"' :: x)).length).head?.or (some '"')) := by
        intro z
        rw [List.drop_append_of_le_length hle, List.head?_append]
        rfl
      rw [if_pos hc, stringBody_before hle y, hhead, ← hhead x]
      exact hf
    · cases hf
  · rw [List.cons_append, string?_cons] at hf ⊢
    split at hf
    · split at hf <;> cases hf
    · next hc => rw [if_neg hc]

/-- So is a token of any kind. -/
theorem takesAlike_pattern (hv : v ≠ []) (x y : List Char) (k : TokenKind) :
    TakesAlike (pattern k) v ('"' :: x) ('"' :: y) := by
  cases k
  · exact takesAlike_of_endsWord name?_append hv x y
  · exact takesAlike_of_endsWord punctuation?_append hv x y
  · exact takesAlike_of_endsWord number?_append hv x y
  · exact takesAlike_string? hv x y
  · exact takesAlike_comment? hv x y

/-- So is a run without blanks. -/
theorem takesAlike_nonBlankRun (v x y : List Char) :
    TakesAlike nonBlankRun v ('"' :: x) ('"' :: y) := by
  refine ⟨fun {u} hf hu => ?_, fun hf => ?_⟩
  · unfold nonBlankRun at hf ⊢
    split at hf
    · cases hf
    · next ht =>
      obtain rfl := Option.some.inj hf
      rw [takeWhile_before hu y]
      split
      · next hnil => exact absurd hnil ht
      · rfl
  · unfold nonBlankRun at hf ⊢
    split at hf
    · next ht =>
      have hle : ((v ++ '"' :: x).takeWhile (! isBlank ·)).length ≤ v.length := by
        rw [ht]
        exact Nat.zero_le _
      rw [takeWhile_before hle y, ht]
    · cases hf

/-- A **piece that ends before a quote** does not depend on what comes after the quote. -/
theorem piece_before (h : (piece (v ++ '"' :: x)).2 ≤ v.length) (y : List Char) :
    piece (v ++ '"' :: y) = piece (v ++ '"' :: x) := by
  have hv : v ≠ [] := by
    rintro rfl
    exact absurd (piece_length_pos ([] ++ '"' :: x)) (Nat.not_lt.2 h)
  exact piece_of_takesAlike (takesAlike_pattern hv x y) (takesAlike_nonBlankRun v x y)
    (takeWhile_before · y) h

end Lexer

/-- A quote ends what a selection looks ahead for. -/
theorem selectionOf_before (t : Token) (v x y : List Char) :
    selectionOf t (v ++ '"' :: x) = selectionOf t (v ++ '"' :: y) := by
  have halias : ∀ z, (Lexer.aliasAhead (v ++ '"' :: z)).isSome =
      (Lexer.aliasAhead (v ++ ['"'])).isSome := by
    intro z
    rw [← Lexer.aliasAhead_append (v := v ++ ['"']) ⟨'"', by simp, by decide⟩ z]
    simp
  have hinline : ∀ z, (Lexer.inlineAhead (v ++ '"' :: z)).isSome =
      (Lexer.inlineAhead (v ++ ['"'])).isSome := by
    intro z
    have hv : ¬(v ++ ['"']).dropWhile Lexer.isGap <+: ['o', 'n'] := by
      intro hp
      have hmem : '"' ∈ (v ++ ['"']).dropWhile Lexer.isGap := by
        rw [List.dropWhile_append]
        split
        · decide
        · simp
      exact absurd (hp.subset hmem) (by decide)
    rw [← Lexer.inlineAhead_append hv z]
    simp
  unfold selectionOf
  rw [halias x, halias y, hinline x, hinline y]

/-! ### Chains and lines -/

/-- What a chain makes of a piece before a quote does not depend on what comes after the quote. -/
theorem Chain.react_before {c : Chain} (hc : c.IsRegular) (p : Piece) (v x y : List Char) :
    Chain.react standard c p (v ++ '"' :: x) = Chain.react standard c p (v ++ '"' :: y) := by
  cases p with
  | gap => rfl
  | unknown => rfl
  | token t =>
    obtain he | ⟨-, -, -, -, -, hne, -⟩ := react_ahead hc t (v ++ '"' :: x) (v ++ '"' :: y)
    · exact he
    · exact absurd (selectionOf_before t v x y) hne

namespace Scan

open Chain

variable {row : Nat} {s : Stream} {c : Chain} {t : PlacedToken} {v x : List Char}

/-- A token of a line starts where the line is read from, or further right. -/
theorem position_le_start_of_mem (ht : t ∈ lineTokens row s c) : s.position ≤ t.start := by
  fun_induction lineTokens row s c with
  | case1 => cases ht
  | case2 s c hs r ih =>
    have hr : r.stream = s.take _ := congrArg Reading.stream (Chain.read_eq standard c hs)
    rcases List.mem_cons.1 ht with rfl | ht
    · change s.position ≤ r.stream.start
      rw [hr, Stream.start_take]
    · have hle := ih ht
      rw [hr, Stream.position_take] at hle
      omega

/-- **One piece before a quote**: it is read alike whatever comes after the quote. -/
theorem exists_lineTokens_piece_before (row : Nat) (hc : c.IsRegular)
    (hn : (Lexer.piece (v ++ '"' :: x)).2 ≤ v.length) :
    ∃ (style : String) (d : Chain), d.IsRegular ∧
      ∀ (y : List Char) (r : Stream), r.rest = v ++ '"' :: y →
        lineTokens row r c =
          ⟨r.position, r.position + (Lexer.piece (v ++ '"' :: x)).2,
            String.ofList (v.take (Lexer.piece (v ++ '"' :: x)).2), d, style, row⟩ ::
          lineTokens row (r.take (Lexer.piece (v ++ '"' :: x)).2) d := by
  have hne : ∀ (y : List Char) {r : Stream}, r.rest = v ++ '"' :: y → r.rest ≠ [] := by
    rintro y r hr
    rw [hr]
    exact List.append_ne_nil_of_right_ne_nil v (List.cons_ne_nil _ _)
  let s : Stream := .ofLine (v ++ '"' :: x)
  obtain ⟨style, hstyle, -⟩ := exists_lineTokens_eq row hc (hne x (r := s) rfl)
  have hregular := isRegular_react hc (hne x (r := s) rfl)
  rw [show s.rest = v ++ '"' :: x from rfl] at hstyle hregular
  refine ⟨style, _, hregular, fun y r hr => ?_⟩
  obtain ⟨style', hstyle', hline⟩ := exists_lineTokens_eq row hc (hne y hr)
  rw [hr, Lexer.piece_before hn y] at hstyle' hline
  generalize Lexer.piece (v ++ '"' :: x) = p at *
  rw [List.drop_append_of_le_length hn] at hstyle hstyle' hline ⊢
  rw [react_before hc p.1 _ y x] at hstyle' hline
  obtain rfl : style = style' := Except.ok.inj (hstyle.symm.trans hstyle')
  rw [hline, place, Stream.start_take, Stream.position_take_of_append hr hn,
    Stream.current_take_of_append hr hn]

/-- **A line up to a quote**: if a token starts at the quote, the tokens before it do not depend on
what comes after the quote, nor does the chain after them. -/
theorem exists_lineTokens_before (hs : s.rest = v ++ '"' :: x) (hc : c.IsRegular)
    (ht : t ∈ lineTokens row s c) (hstart : t.start = s.position + v.length) :
    ∃ (ts : List PlacedToken) (d : Chain), d.IsRegular ∧ (∀ u ∈ ts, u.start < t.start) ∧
      ∀ (y : List Char) (r : Stream), r.rest = v ++ '"' :: y → r.position = s.position →
        ∃ r' : Stream, r'.rest = '"' :: y ∧ r'.position = t.start ∧
          lineTokens row r c = ts ++ lineTokens row r' d := by
  -- The induction is on the text before the quote.
  induction hlen : v.length using Nat.strongRecOn generalizing s c v with
  | ind k ih =>
    subst hlen
    by_cases hv : v = []
    · subst hv
      exact ⟨[], c, hc, by simp, fun y r hr hp => ⟨r, hr, hp.trans hstart.symm, rfl⟩⟩
    · have hpos := List.length_pos_iff.2 hv
      have hne : s.rest ≠ [] := by
        rw [hs]
        exact List.append_ne_nil_of_left_ne_nil hv _
      have hle := Lexer.piece_length_le hne
      have hlt := Lexer.piece_length_pos s.rest
      -- The first piece ends before the quote, since a token starts there.
      have hn : (Lexer.piece s.rest).2 ≤ v.length := by
        obtain ⟨style, -, hline⟩ := exists_lineTokens_eq row hc hne
        rw [hline] at ht
        obtain rfl | ht := List.mem_cons.1 ht
        · change s.position = _ at hstart
          omega
        · have := position_le_start_of_mem ht
          rw [Stream.position_take] at this
          omega
      rw [hs] at hn hlt
      obtain ⟨style, d, hd, hall⟩ := exists_lineTokens_piece_before row hc hn
      generalize (Lexer.piece (v ++ '"' :: x)).2 = i at *
      have hposition := Stream.position_take_of_append hs hn
      rw [hall x s hs] at ht
      have ht : t ∈ lineTokens row (s.take i) d := by
        refine (List.mem_cons.1 ht).resolve_left ?_
        rintro rfl
        change s.position = _ at hstart
        omega
      obtain ⟨ts, e, he, hts, hafter⟩ := ih (v.drop i).length
        (by rw [List.length_drop]; omega) (Stream.rest_take_of_append hs hn) hd ht
        (by rw [hposition, List.length_drop]; omega) rfl
      refine ⟨⟨s.position, s.position + i, String.ofList (v.take i), d, style, row⟩ :: ts, e, he,
        List.forall_mem_cons.2 ⟨by dsimp only; omega, hts⟩, fun y r hr hp => ?_⟩
      obtain ⟨r', hr', hp', hline⟩ := hafter y (r.take i) (Stream.rest_take_of_append hr hn)
        (by rw [hposition, Stream.position_take_of_append hr hn, hp])
      exact ⟨r', hr', hp', by rw [hall y r hr, hline, hp, List.cons_append]⟩

end Scan

end QueryAssist
