import QueryAssist.Proofs.Cursor.Quote
import QueryAssist.Proofs.Grammar.Lookahead

/-! # The content of a string literal

What stands between the quotes of a string literal is opaque to the parse: no brace, hash, colon,
word or escape in it has any effect outside the literal. Main definitions:

* **`StringContent`** — what may stand between the quotes, and **`stringLiteral`**, the literal.
* **`Token.IsQuoted`** — a string token with its quote.
* **`PlacedToken.moved`** — a token further left or right on its line.

Main statements:

* **`StringContent.lex?_stringLiteral`** — a literal is one string, whatever follows it.
* **`Chain.react_quoted`** — a chain makes the same of all literals.
* **`tokens_swapContent`** — another content in a document, and what it changes. -/

namespace QueryAssist

open Grammar

/-! ### Literals -/

/-- The **content** of a string literal: plain characters and escapes. Plain is every character but
the quote, the backslash and the line break; a backslash is followed by one letter or by `u` and
four digits of base sixteen. -/
inductive StringContent : List Char → Prop
  /-- No content. -/
  | nil : StringContent []
  /-- A character that stands for itself. -/
  | plain {c : Char} {b : List Char} (hq : c ≠ '"') (hb : c ≠ '\\') (hn : c ≠ '\n')
      (h : StringContent b) : StringContent (c :: b)
  /-- A backslash with one letter. -/
  | escape {e : Char} {b : List Char} (he : e ∈ ['"', '/', '\\', 'b', 'f', 'n', 'r', 't'])
      (h : StringContent b) : StringContent ('\\' :: e :: b)
  /-- A backslash with a code point. -/
  | codePoint {c₁ c₂ c₃ c₄ : Char} {b : List Char}
      (hx : ∀ c ∈ [c₁, c₂, c₃, c₄], Lexer.isHexDigit c = true) (h : StringContent b) :
      StringContent ('\\' :: 'u' :: c₁ :: c₂ :: c₃ :: c₄ :: b)

/-- The **literal** with a given content: the content between two quotes. -/
def stringLiteral (b : List Char) : List Char := '"' :: (b ++ ['"'])

/-- A literal is longer than its content by the two quotes. -/
@[simp] theorem length_stringLiteral (b : List Char) :
    (stringLiteral b).length = b.length + 2 := by
  simp [stringLiteral]

/-- A literal before a text is its quote, the content, and the other quote before the text. -/
theorem stringLiteral_append (b r : List Char) :
    stringLiteral b ++ r = '"' :: (b ++ '"' :: r) := by
  simp [stringLiteral]

namespace StringContent

open Lexer

variable {b : List Char}

/-- Content is taken whole. -/
theorem stringBody_eq (h : StringContent b) : stringBody b = b := by
  induction h with
  | nil => rfl
  | plain hq hb _ _ ih => rw [stringBody_plain hq hb, ih]
  | @escape e b he _ ih =>
    have hu : e ≠ 'u' := by
      rintro rfl
      exact absurd he (by decide)
    have he' : isEscapeLetter e = true := by simpa [isEscapeLetter] using he
    rw [stringBody, if_pos he', ih]
    simp [hu]
  | @codePoint c₁ c₂ c₃ c₄ b hx _ ih =>
    simp only [List.forall_mem_cons] at hx
    simp [stringBody, hx.1, hx.2.1, hx.2.2.1, hx.2.2.2.1, ih]

/-- Content is on one line. -/
theorem notMem_feed (h : StringContent b) : '\n' ∉ b := by
  have hhex : isHexDigit '\n' = false := by decide
  induction h with
  | nil => exact List.not_mem_nil
  | plain _ _ hn _ ih => simp [hn.symm, ih]
  | escape he _ ih =>
    intro hm
    simp only [List.mem_cons] at hm he
    grind
  | codePoint hx _ ih =>
    intro hm
    simp only [List.mem_cons] at hm hx
    grind

/-- A text without line breaks that a string takes whole is a content. -/
theorem of_stringBody_eq (h : stringBody b = b) (hn : '\n' ∉ b) : StringContent b := by
  fun_induction stringBody b with
  | case1 c₁ c₂ c₃ c₄ cs hx ih =>
    simp only [List.cons.injEq, true_and] at h
    simp only [List.mem_cons, not_or] at hn
    exact .codePoint (by simpa [and_assoc] using hx) (ih h hn.2.2.2.2.2.2)
  | case2 => cases h
  | case3 e cs _ he ih =>
    simp only [List.cons.injEq, true_and] at h
    simp only [List.mem_cons, not_or] at hn
    exact .escape (by simpa [isEscapeLetter] using he) (ih h hn.2.2)
  | case4 => cases h
  | case5 => cases h
  | case6 c cs _ _ hc ih =>
    simp only [List.cons.injEq, true_and] at h
    simp only [List.mem_cons, not_or] at hn
    simp only [Bool.or_eq_true, beq_iff_eq, not_or] at hc
    exact .plain hc.1 hc.2 (Ne.symm hn.1) (ih h hn.2)
  | case7 => exact .nil

instance (b : List Char) : Decidable (StringContent b) :=
  decidable_of_iff (stringBody b = b ∧ '\n' ∉ b)
    ⟨fun h => of_stringBody_eq h.1 h.2, fun h => ⟨h.stringBody_eq, h.notMem_feed⟩⟩

/-- A literal is **one string**, whatever follows it. -/
theorem lex?_stringLiteral (h : StringContent b) (r : List Char) :
    lex? (stringLiteral b ++ r) = some ⟨.string, String.ofList (stringLiteral b)⟩ := by
  rw [stringLiteral_append, lex?_eq, string?_closed h.stringBody_eq]
  rfl

/-- So it is the next piece. -/
theorem piece_stringLiteral (h : StringContent b) (r : List Char) :
    piece (stringLiteral b ++ r) =
      (.token ⟨.string, String.ofList (stringLiteral b)⟩, (stringLiteral b).length) := by
  rw [piece_of_lex? rfl (h.lex?_stringLiteral r), String.length_ofList]

end StringContent

/-! ### Strings fit alike -/

/-- A token is **a quoted string** if it is a string and begins with its quote. -/
structure Token.IsQuoted (t : Token) : Prop where
  kind : t.kind = .string
  quote : t.text.toList.head? = some '"'

/-- A literal is a quoted string. -/
theorem isQuoted_stringLiteral (b : List Char) :
    Token.IsQuoted ⟨.string, String.ofList (stringLiteral b)⟩ :=
  ⟨rfl, by simp [stringLiteral]⟩

namespace Token.IsQuoted

variable {t u : Token}

/-- A quoted string is none of the words that tokens are compared with. -/
theorem text_ne (h : t.IsQuoted) {word : String} (hw : word.toList.head? ≠ some '"') :
    t.text ≠ word := by
  rintro rfl
  exact hw h.quote

/-- A fork chooses **the same for all quoted strings**. -/
theorem choose_eq (ht : t.IsQuoted) (hu : u.IsQuoted) (f : Fork) (a : List Char) :
    f.choose t a = f.choose u a := by
  cases f with
  | definition =>
    have hnone : ∀ {w : Token}, w.IsQuoted → definitionOf? w.text = none := by
      intro w hw
      unfold definitionOf?
      split
      all_goals first
        | rfl
        | next heq => exact absurd heq (hw.text_ne (by decide))
    simp only [Fork.choose, hnone ht, hnone hu]
  | selection =>
    have hdots : ∀ {w : Token}, w.IsQuoted → (w.text == "...") = false := fun hw =>
      beq_eq_false_iff_ne.2 (hw.text_ne (by decide))
    simp only [Fork.choose, selectionOf, hdots ht, hdots hu]
  | value => simp only [Fork.choose, valueOf?, ht.kind, hu.kind]
  | type =>
    have hbracket : ∀ {w : Token}, w.IsQuoted → (w.text == "[") = false := fun hw =>
      beq_eq_false_iff_ne.2 (hw.text_ne (by decide))
    simp only [Fork.choose, hbracket ht, hbracket hu]

/-- A link wants the same for every quoted string. -/
theorem wanted?_eq (ht : t.IsQuoted) (hu : u.IsQuoted) (l : Link) (a : List Char) :
    l.wanted? t a = l.wanted? u a := by
  have he : l.expected? t a = l.expected? u a := by
    unfold Link.expected?
    split
    · rw [ht.choose_eq hu]
    · rfl
    · rfl
  rw [Link.wanted?, Link.wanted?, he]

end Token.IsQuoted

namespace Chain

variable {c d : Chain} {t u : Token}

/-- A terminal of the grammar takes all strings and leaves nothing of them behind, or it takes
none. -/
theorem IsOpen.accepts_string {e : Terminal} {a : List Char} (h : c.IsOpen)
    (hw : c.top.wanted? t a = some (.terminal e)) :
    (∀ v : Token, v.kind = .string → e.accepts v = false) ∨
      (e.matcher = .kind .string ∧ e.trace = .none) := by
  have hall := h.of_allTerminals (p := fun e => e.matcher.isApart (.kind .string) ||
    (e.matcher == .kind .string && e.trace == .none)) (by decide) hw
  obtain hn | hs := (Bool.or_eq_true _ _).mp hall
  · refine .inl fun v hv => Bool.eq_false_iff.2 fun ha => ?_
    have := Matcher.not_accepts_of_isApart hn ha
    simp [Matcher.accepts, hv] at this
  · exact .inr (by simpa using hs)

/-- So it accepts two strings **alike**. -/
theorem IsOpen.accept_string {e : Terminal} {a : List Char} (h : c.IsOpen)
    (hw : c.top.wanted? t a = some (.terminal e)) (ht : t.kind = .string) (hu : u.kind = .string) :
    e.accepts t = e.accepts u ∧ (e.accepts t = true → c.accept e t = c.accept e u) := by
  obtain hn | ⟨hm, htr⟩ := h.accepts_string hw
  · rw [hn t ht, hn u hu]
    exact ⟨rfl, nofun⟩
  · have hrec : ∀ text, c.record .none text = c := fun _ => rfl
    simp [Terminal.accepts, Matcher.accepts, Chain.accept, hrec, hm, htr, ht, hu]

/-- An open chain moves alike for every quoted string. -/
theorem Move.of_quoted {a : List Char} (h : Move t a c d) (ho : c.IsOpen) (ht : t.IsQuoted)
    (hu : u.IsQuoted) : Move u a c d := by
  have hw := ht.wanted?_eq hu c.top a
  cases h with
  | enter hc hk hr => exact .enter hc (hw ▸ hk) hr
  | giveUp hc hk he =>
    refine .giveUp hc (hw ▸ hk) fun e he' => ?_
    rw [← hw] at he'
    rw [← (ho.accept_string he' ht.kind hu.kind).1]
    exact he e he'

/-- Two quoted strings are **matched alike**. -/
theorem match?_quoted (ht : t.IsQuoted) (hu : u.IsQuoted) (hc : c = root ∨ c.IsOpen)
    (a : List Char) (n : Nat) : match? standard t a n c = match? standard u a n c := by
  induction n generalizing c with
  | zero => rfl
  | succ n ih =>
    obtain rfl | ho := hc
    · -- Outside a document no token is matched.
      rw [match?_root, match?_root]
    · have hw := ht.wanted?_eq hu c.top a
      obtain ⟨e, ha⟩ | ⟨k, r, hn, hr, hk, hm⟩ | hm := ho.admits_or_move t a
      · obtain ⟨hacc, heq⟩ := ho.accept_string ha.wanted ht.kind hu.kind
        have hb : Admits u a c e := ⟨ha.rule, hw ▸ ha.wanted, hacc ▸ ha.accepts⟩
        rw [match?_of_admits ha, match?_of_admits hb, heq ha.accepts]
      · rw [match?_of_move hm, match?_of_move (hm.of_quoted ho ht hu)]
        exact ih (.inr (ho.enter hn hr))
      · rw [match?_of_move hm, match?_of_move (hm.of_quoted ho ht hu)]
        exact ih (ho.giveUp.imp id IsSettled.toIsOpen)

/-- So a chain makes the same of both. -/
theorem react_quoted (hc : c.IsRegular) (ht : t.IsQuoted) (hu : u.IsQuoted) (a : List Char) :
    Chain.react standard c (.token t) a = Chain.react standard c (.token u) a := by
  have hne : ∀ {v : Token}, v.IsQuoted → v.kind ≠ .comment := by
    intro v hv
    rw [hv.kind]
    nofun
  simp only [Chain.react, if_neg (hne ht), if_neg (hne hu),
    match?_quoted ht hu (.inr hc.settle.toIsOpen)]

end Chain

/-! ### Lines -/

/-- A token, **moved** from where it stands after a text of one length to where it stands after a
text of another length. -/
def PlacedToken.moved (t : PlacedToken) (n m : Nat) : PlacedToken :=
  { t with start := t.start - n + m, stop := t.stop - n + m }

namespace Scan

open Chain

variable {row n m : Nat} {s r : Stream} {c : Chain} {t : PlacedToken} {b b' v : List Char}

/-- What is ahead on a line tells its tokens; **where it begins only moves them**. -/
theorem lineTokens_moved (hrest : r.rest = s.rest) (hn : n ≤ s.position)
    (hpos : r.position = s.position - n + m) :
    lineTokens row r c = (lineTokens row s c).map (·.moved n m) := by
  -- The induction is on what is ahead; both lines are read by the same pieces.
  induction hk : s.rest.length using Nat.strongRecOn generalizing s r c with
  | ind k ih =>
    by_cases hs : s.rest = []
    · rw [lineTokens, dif_pos (hrest.trans hs), lineTokens, dif_pos hs, List.map_nil]
    · have hr : r.rest ≠ [] := hrest ▸ hs
      have hlt := Lexer.piece_length_pos s.rest
      have hle := Lexer.piece_length_le hs
      rw [lineTokens, dif_neg hr, lineTokens, dif_neg hs, Chain.read_eq standard c hr,
        Chain.read_eq standard c hs, hrest, List.map_cons]
      generalize hn' : (Lexer.piece s.rest).2 = i at *
      dsimp only
      congr 1
      · have htoken : (r.take i).token = (s.take i).token := by
          rw [Stream.token_take, Stream.token_take, hrest]
        have hstop : (r.take i).position = (s.take i).position - n + m := by
          rw [Stream.position_take, Stream.position_take, hrest]
          omega
        have hcurrent : (r.take i).current = (s.take i).current := by
          rw [Stream.current, Stream.current, htoken]
        simp only [place, PlacedToken.moved, Stream.start_take, hpos, hstop, hcurrent]
        rfl
      · refine ih (s.take i).rest.length ?_ ?_ ?_ ?_ rfl
        · rw [Stream.rest_take, List.length_drop]
          omega
        · rw [Stream.rest_take, Stream.rest_take, hrest]
        · rw [Stream.position_take]
          omega
        · rw [Stream.position_take, Stream.position_take, hrest]
          omega

/-- **A literal is read as one token**, with a style and a chain that do not depend on its
content. -/
theorem exists_lineTokens_stringLiteral (row : Nat) (hc : c.IsRegular) (k : List Char) :
    ∃ (style : String) (d : Chain), ∀ {b : List Char} {s : Stream}, StringContent b →
      s.rest = stringLiteral b ++ k →
        lineTokens row s c =
          ⟨s.position, s.position + (stringLiteral b).length, String.ofList (stringLiteral b), d,
            style, row⟩ :: lineTokens row (s.take (stringLiteral b).length) d := by
  have hpiece : ∀ {b : List Char} {s : Stream}, StringContent b → s.rest = stringLiteral b ++ k →
      s.rest ≠ [] ∧ Lexer.piece s.rest =
        (.token ⟨.string, String.ofList (stringLiteral b)⟩, (stringLiteral b).length) ∧
      s.rest.drop (stringLiteral b).length = k := by
    intro b s hb hs
    exact ⟨hs ▸ List.cons_ne_nil _ _, hs ▸ hb.piece_stringLiteral k, hs ▸ List.drop_left⟩
  -- Style and chain are taken from the empty literal and are the same for every other.
  obtain ⟨hne, hp, hdrop⟩ := hpiece (s := .ofLine (stringLiteral [] ++ k)) .nil rfl
  obtain ⟨style, hstyle, -⟩ := exists_lineTokens_eq row hc hne
  rw [hp, hdrop] at hstyle
  refine ⟨style, (Chain.react standard c
    (.token ⟨.string, String.ofList (stringLiteral [])⟩) k).2, fun {b s} hb hs => ?_⟩
  obtain ⟨hne, hp, hdrop⟩ := hpiece hb hs
  obtain ⟨style', hstyle', hline⟩ := exists_lineTokens_eq row hc hne
  rw [hp] at hstyle' hline
  dsimp only at hstyle' hline
  rw [hdrop, react_quoted hc (isQuoted_stringLiteral b) (isQuoted_stringLiteral [])]
    at hstyle' hline
  obtain rfl : style = style' := Except.ok.inj (hstyle.symm.trans hstyle')
  rw [hline, place, Stream.start_take, Stream.position_take_of_append hs (Nat.le_refl _),
    Stream.current_take_of_append hs (Nat.le_refl _), List.take_length]

/-- **The content of a literal on a line** shows in the token of the literal only. -/
theorem exists_lineTokens_swap {k : List Char} (hb : StringContent b) (hb' : StringContent b')
    (hs : s.rest = v ++ (stringLiteral b ++ k)) (hr : r.rest = v ++ (stringLiteral b' ++ k))
    (hp : r.position = s.position) (hc : c.IsRegular) (ht : t ∈ lineTokens row s c)
    (hstart : t.start = s.position + v.length) :
    ∃ ts us : List PlacedToken, lineTokens row s c = ts ++ t :: us ∧
      t.text = String.ofList (stringLiteral b) ∧ t.stop = t.start + (stringLiteral b).length ∧
      (∀ u ∈ us, t.stop ≤ u.start) ∧
      lineTokens row r c = ts ++
        { t with text := String.ofList (stringLiteral b')
                 stop := t.start + (stringLiteral b').length } ::
        us.map (·.moved b.length b'.length) := by
  rw [stringLiteral_append] at hs hr
  obtain ⟨ts, d, hd, hts, hall⟩ := exists_lineTokens_before hs hc ht hstart
  obtain ⟨s', hs', hps, hline⟩ := hall _ s hs rfl
  obtain ⟨r', hr', hpr, hline'⟩ := hall _ r hr hp
  rw [← stringLiteral_append] at hs' hr'
  obtain ⟨style, e, hliteral⟩ := exists_lineTokens_stringLiteral row hd k
  generalize hi : t.start = i at *
  have hposition : (s'.take (stringLiteral b).length).position = i + (stringLiteral b).length := by
    rw [Stream.position_take_of_append hs' (Nat.le_refl _), hps]
  rw [hliteral hb hs', hps] at hline
  -- The token that starts at the quote is the one of the literal.
  obtain rfl : t = ⟨i, i + (stringLiteral b).length, String.ofList (stringLiteral b), e, style,
      row⟩ := by
    rw [hline] at ht
    obtain ht | ht := List.mem_append.1 ht
    · exact absurd (hts t ht) (by omega)
    · refine (List.mem_cons.1 ht).resolve_right fun ht => ?_
      have := position_le_start_of_mem ht
      rw [hposition, length_stringLiteral] at this
      omega
  -- What is ahead after the two literals is the same, and the chains after them are too.
  refine ⟨ts, _, hline, rfl, rfl, fun u hu => hposition ▸ position_le_start_of_mem hu, ?_⟩
  rw [hline', hliteral hb' hr', hpr]
  congr 2
  refine lineTokens_moved ?_ ?_ ?_
  · rw [Stream.rest_take, Stream.rest_take, hr', hs', List.drop_left, List.drop_left]
  · rw [hposition, length_stringLiteral]
    omega
  · rw [Stream.position_take_of_append hr' (Nat.le_refl _), hpr, hposition, length_stringLiteral,
      length_stringLiteral]
    omega

/-- The chain after some tokens depends only on the chains after each of them. -/
theorem chainAfter_congr {ts us : List PlacedToken} (h : ts.map (·.chain) = us.map (·.chain))
    (c : Chain) : chainAfter c ts = chainAfter c us := by
  rw [chainAfter, chainAfter, ← List.getLast?_map, ← List.getLast?_map, h]

/-! ### Documents -/

/-- Documents that differ **in one line** have the same tokens on all others, if those of the line
leave the same chains. -/
theorem exists_tokens_swapLine {p q l k : List Char} {ls ms : List (List Char)}
    (hp : splitLines p = ls ++ l :: ms) (hq : splitLines q = ls ++ k :: ms)
    (h : (lineTokens ls.length (.ofLine k) (chainAfter .start (tokensFrom 0 .start ls))).map
        (·.chain) =
      (lineTokens ls.length (.ofLine l) (chainAfter .start (tokensFrom 0 .start ls))).map
        (·.chain)) :
    ∃ as bs : List PlacedToken, (∀ u ∈ bs, u.row ≠ ls.length) ∧
      tokens p = as ++
        (lineTokens ls.length (.ofLine l) (chainAfter .start (tokensFrom 0 .start ls)) ++ bs) ∧
      tokens q = as ++
        (lineTokens ls.length (.ofLine k) (chainAfter .start (tokensFrom 0 .start ls)) ++ bs) := by
  refine ⟨_, _, fun u hu => ?_, tokens_eq hp, chainAfter_congr h _ ▸ tokens_eq hq⟩
  obtain ⟨-, -, hrow, -⟩ := row_of_mem_tokensFrom hu
  omega

end Scan

/-- **The content of a string literal is opaque**: where a token starts at a literal, the literal is
one string, and another content in its place changes the text and the end of that token, and moves
the tokens after it on its line. All other tokens stay as they are, and so do the styles and chains
of all of them, whatever the contents hold. -/
theorem tokens_swapContent {before after b b' : List Char} (hb : StringContent b)
    (hb' : StringContent b') {t : PlacedToken}
    (ht : t ∈ Scan.tokens (before ++ (stringLiteral b ++ after)))
    (hstart : Cursor.atEnd before = ⟨t.row, t.start⟩) :
    (∀ r, Lexer.lex? (stringLiteral b ++ r) = some ⟨.string, String.ofList (stringLiteral b)⟩) ∧
    (∀ r, Lexer.lex? (stringLiteral b' ++ r) = some ⟨.string, String.ofList (stringLiteral b')⟩) ∧
    ∃ ts us : List PlacedToken,
      Scan.tokens (before ++ (stringLiteral b ++ after)) = ts ++ t :: us ∧
      t.text = String.ofList (stringLiteral b) ∧ t.stop = t.start + (stringLiteral b).length ∧
      (∀ u ∈ us, u.row = t.row → t.stop ≤ u.start) ∧
      Scan.tokens (before ++ (stringLiteral b' ++ after)) = ts ++
        { t with text := String.ofList (stringLiteral b')
                 stop := t.start + (stringLiteral b').length } ::
        us.map fun u => if u.row = t.row then u.moved b.length b'.length else u := by
  refine ⟨hb.lex?_stringLiteral, hb'.lex?_stringLiteral, ?_⟩
  obtain ⟨ls, l, hl⟩ : ∃ ls l, splitLines before = ls ++ [l] :=
    ⟨_, _, (List.dropLast_concat_getLast (splitLines_ne_nil before)).symm⟩
  obtain ⟨k, ms, hk⟩ := List.exists_cons_of_ne_nil (splitLines_ne_nil after)
  have hlines : ∀ {b : List Char}, StringContent b →
      splitLines (before ++ (stringLiteral b ++ after)) =
        ls ++ (l ++ (stringLiteral b ++ k)) :: ms := by
    intro b hb
    have hn : '\n' ∉ stringLiteral b := by simp [stringLiteral, hb.notMem_feed]
    exact splitLines_append_lines hl (splitLines_append hn hk)
  obtain ⟨hrow, hcolumn⟩ : t.row = ls.length ∧ t.start = l.length := by
    simp [Cursor.atEnd, hl] at hstart
    omega
  obtain ⟨ts, us, hline, htext, hstop, hus, hline'⟩ := Scan.exists_lineTokens_swap hb hb'
    (s := .ofLine (l ++ (stringLiteral b ++ k))) (r := .ofLine (l ++ (stringLiteral b' ++ k)))
    rfl rfl rfl (Scan.isRegular_chainAfter_tokensFrom Chain.isRegular_start)
    (Scan.mem_lineTokens_of_row (hlines hb) ht hrow) (hcolumn.trans (Nat.zero_add _).symm)
  -- The chains on the line are the same, so that the other lines have the same tokens.
  obtain ⟨as, bs, hbs, htokens, htokens'⟩ :=
    Scan.exists_tokens_swapLine (hlines hb) (hlines hb') (by
      rw [hline, hline']
      simp [PlacedToken.moved, Function.comp_def])
  rw [hline] at htokens
  rw [hline'] at htokens'
  refine ⟨as ++ ts, us ++ bs, by simp [htokens], htext, hstop, fun u hu hu' => ?_, ?_⟩
  · obtain hu | hu := List.mem_append.1 hu
    · exact hus u hu
    · exact absurd (hu'.trans hrow) (hbs u hu)
  · have hmoved : us.map (fun u => if u.row = t.row then u.moved b.length b'.length else u) =
        us.map (·.moved b.length b'.length) := by
      refine List.map_congr_left fun u hu => if_pos ?_
      have hmem : u ∈ ts ++ t :: us := by simp [hu]
      rw [hrow, (Scan.row_of_mem_lineTokens (hline ▸ hmem)).1]
    have hkept : bs.map (fun u => if u.row = t.row then u.moved b.length b'.length else u) = bs :=
      (List.map_congr_left fun u hu => if_neg (hrow ▸ hbs u hu)).trans (List.map_id bs)
    rw [htokens', List.map_append, hmoved, hkept]
    simp

/-- A brace, a hash, dots and an escaped quote in place of a letter. The tokens to the right are
moved by as much as the text is longer, and those of the next line are not. -/
theorem tokens_swapContent_braces :
    let document (b : List Char) :=
      "\x7b a(b: ".toList ++ (stringLiteral b ++ ", c: 1) \x7b d \x7d \x7d\n\x7b e".toList)
    ∃ (t : PlacedToken) (ts us : List PlacedToken),
      (t.row, t.start, t.stop) = (0, 7, 10) ∧ t.style = "string" ∧
      Scan.tokens (document "x".toList) = ts ++ t :: us ∧
      Scan.tokens (document "\x7d on # \\\" ...".toList) = ts ++
        { t with text := "\"\x7d on # \\\" ...\"", stop := 22 } ::
        us.map fun u => if u.row = 0 then u.moved 1 13 else u := by
  intro document
  have ht : ∃ t ∈ Scan.tokens (document "x".toList),
      Cursor.atEnd "\x7b a(b: ".toList = ⟨t.row, t.start⟩ ∧
      (t.row, t.start, t.stop) = (0, 7, 10) ∧ t.style = "string" := by decide +kernel
  obtain ⟨t, hmem, hstart, hplace, hstyle⟩ := ht
  have hcontent : StringContent "\x7d on # \\\" ...".toList := by decide
  obtain ⟨-, -, ts, us, hts, -, -, -, hts'⟩ :=
    tokens_swapContent (by decide) hcontent hmem hstart
  refine ⟨t, ts, us, hplace, hstyle, hts, ?_⟩
  obtain ⟨hrow, hcolumn, -⟩ : t.row = 0 ∧ t.start = 7 ∧ t.stop = 10 := by simpa using hplace
  refine Eq.trans hts' ?_
  rw [hrow, hcolumn]
  rfl

end QueryAssist
