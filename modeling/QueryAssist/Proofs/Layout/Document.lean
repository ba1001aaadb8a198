import Mathlib.Data.List.TakeWhile
import QueryAssist.Proofs.Grammar.Lookahead
import QueryAssist.Proofs.Layout.Boundary

/-! # Laid out documents

Tokens are laid out as a text: each token with its gap, and between each two tokens at least one
separator. What a fork sees of the text after a token then depends only on the next token and on
whether it is on the same line. Main definitions:

* **`LaidOut w`** — the tokens can be told apart where they stand.
* **`render w`** — the text of some tokens.
* **`SpacedToken.ahead`** — what is left of the line after a token.
* **`Follows ms w`** — whether no token of some classes comes next.

Main statement: `Fork.choose_eq`, a fork chooses the construct from which the tokens are derived. -/

namespace QueryAssist

/-! ### Layout -/

/-- A token is **laid** if its token is whole, only separators are in the gap after it, and a string
that is not closed ends with its line. -/
structure SpacedToken.IsLaid (x : SpacedToken) : Prop where
  whole : x.token.IsWhole
  separators : ∀ c ∈ x.gap, isSeparator c = true
  closed : x.token.IsClosed ∨ ∀ c ∈ x.gap.head?, c = '\n'

/-- Tokens are **laid out** if each is laid and there is a gap before each but the first. -/
structure LaidOut (w : List SpacedToken) : Prop where
  laid : ∀ x ∈ w, x.IsLaid
  apart : ∀ x ∈ w.dropLast, x.gap ≠ []

/-- A token is laid if it is whole, only separators are in its gap, and it is closed or the gap
begins with a line break. -/
theorem SpacedToken.isLaid_iff (x : SpacedToken) :
    x.IsLaid ↔ x.token.IsWhole ∧ x.gap.all isSeparator = true ∧
      (x.token.IsClosed ∨ x.gap.head?.all (· == '\n') = true) := by
  have hline : x.gap.head?.all (· == '\n') = true ↔ ∀ c ∈ x.gap.head?, c = '\n' := by
    cases x.gap.head? <;> simp
  rw [List.all_eq_true, hline]
  exact ⟨fun h => ⟨h.whole, h.separators, h.closed⟩, fun ⟨hw, hs, hc⟩ => ⟨hw, hs, hc⟩⟩

instance (x : SpacedToken) : Decidable x.IsLaid := decidable_of_iff _ x.isLaid_iff.symm

instance (w : List SpacedToken) : Decidable (LaidOut w) :=
  decidable_of_iff ((∀ x ∈ w, x.IsLaid) ∧ ∀ x ∈ w.dropLast, x.gap ≠ [])
    ⟨fun ⟨hl, ha⟩ => ⟨hl, ha⟩, fun h => ⟨h.laid, h.apart⟩⟩

/-- The **text** of some tokens. -/
def render (w : List SpacedToken) : List Char := w.flatMap fun x => x.token.text.toList ++ x.gap

/-- No tokens have no text. -/
@[simp] theorem render_nil : render [] = [] := rfl

/-- The text of some tokens is that of the first one, its gap and the text of the others. -/
@[simp] theorem render_cons (x : SpacedToken) (w : List SpacedToken) :
    render (x :: w) = x.token.text.toList ++ (x.gap ++ render w) := by
  simp [render]

/-- The first line of a text. -/
def firstLine (cs : List Char) : List Char := cs.takeWhile (· != '\n')

/-- What is **ahead** of a token on its line. -/
def SpacedToken.ahead (x : SpacedToken) (w : List SpacedToken) : List Char :=
  firstLine (x.gap ++ render w)

/-- No token of some classes **follows**. -/
def Follows (ms : List Matcher) (w : List SpacedToken) : Prop := ∀ x ∈ w.head?, x.token.IsOutside ms

/-- Anything may follow if no class is barred. -/
theorem follows_nil (w : List SpacedToken) : Follows [] w := fun _ _ => Token.isOutside_nil _

/-- Tokens may follow if the first of them is outside the barred classes. -/
theorem follows_cons {ms : List Matcher} {x : SpacedToken} (h : x.token.IsOutside ms)
    (w : List SpacedToken) : Follows ms (x :: w) := by
  intro y hy
  obtain rfl : x = y := Option.some.inj hy
  exact h

namespace LaidOut

variable {x y : SpacedToken} {v w : List SpacedToken}

/-- The tokens after the first one are laid out. -/
theorem of_cons (h : LaidOut (x :: w)) : LaidOut w := by
  refine ⟨fun y hy => h.laid y (List.mem_cons_of_mem _ hy), fun y hy => h.apart y ?_⟩
  cases w with
  | nil => cases hy
  | cons z w => exact List.mem_cons_of_mem _ hy

/-- The tokens after some others are laid out on their own. -/
theorem of_append (h : LaidOut (v ++ w)) : LaidOut w := by
  induction v with
  | nil => exact h
  | cons x v ih => exact ih h.of_cons

/-- The first of the tokens is laid. -/
theorem head (h : LaidOut (x :: w)) : x.IsLaid := h.laid x List.mem_cons_self

/-- Each token that is laid out is whole. -/
theorem whole (h : LaidOut w) : ∀ x ∈ w, x.token.IsWhole := fun x hx => (h.laid x hx).whole

/-- Between two tokens there is a gap. -/
theorem gap_ne_nil (h : LaidOut (x :: w)) (hw : w ≠ []) : x.gap ≠ [] := by
  obtain ⟨y, w, rfl⟩ := List.exists_cons_of_ne_nil hw
  exact h.apart x List.mem_cons_self

end LaidOut

/-! ### What is ahead on a line -/

/-- A text without line breaks is on the first line, before what is there of the text after it. -/
theorem firstLine_append {u : List Char} (h : '\n' ∉ u) (r : List Char) :
    firstLine (u ++ r) = u ++ firstLine r := by
  refine List.takeWhile_append_of_pos fun c hc => ?_
  have : c ≠ '\n' := fun he => h (he ▸ hc)
  simpa using this

/-- A line break ends the first line, whatever is after it. -/
theorem firstLine_append_of_mem {u : List Char} (h : '\n' ∈ u) (r : List Char) :
    firstLine (u ++ r) = firstLine u := by
  induction u with
  | nil => cases h
  | cons c u ih =>
    by_cases hc : c = '\n'
    · simp [firstLine, hc]
    · have := ih ((List.mem_cons.1 h).resolve_left (Ne.symm hc))
      simp only [firstLine] at this
      simp [firstLine, hc, this]

/-- What is on the first line is in the text. -/
theorem mem_of_mem_firstLine {c : Char} {cs : List Char} (h : c ∈ firstLine cs) : c ∈ cs :=
  (List.takeWhile_prefix _).subset h

/-- The first line begins as the text does, but not with a line break. -/
theorem head?_firstLine {cs : List Char} {c : Char} (h : c ∈ (firstLine cs).head?) :
    c ∈ cs.head? ∧ c ≠ '\n' := by
  cases cs with
  | nil => cases h
  | cons d cs =>
    simp only [firstLine, List.takeWhile_cons] at h
    split at h
    · next hd =>
      obtain rfl : d = c := Option.some.inj h
      exact ⟨rfl, by simpa using hd⟩
    · cases h

namespace SpacedToken

variable {x y : SpacedToken} {w : List SpacedToken}

/-- What is ahead of a token **ends it**, if there is a gap before the next one. -/
theorem endsToken_ahead (x : SpacedToken) (hg : ∀ c ∈ x.gap, isIgnored c = true)
    (hw : w ≠ [] → x.gap ≠ []) : EndsToken (x.ahead w) := by
  intro c hc
  have hhead := (head?_firstLine hc).1
  cases hgap : x.gap with
  | nil =>
    -- Without a gap the token is the last one, and nothing is ahead of it.
    obtain rfl : w = [] := Decidable.byContradiction fun hne => hw hne hgap
    simp [hgap] at hhead
  | cons d g =>
    rw [hgap] at hhead
    obtain rfl : d = c := Option.some.inj hhead
    exact hg d (by simp [hgap])

/-- The next token is ahead of one that is on the same line. -/
theorem ahead_cons (hx : x.StaysOnLine) (hy : y.token.IsWhole) (w : List SpacedToken) :
    x.ahead (y :: w) = x.gap ++ (y.token.text.toList ++ y.ahead w) := by
  rw [ahead, firstLine_append hx, render_cons, firstLine_append hy.oneLine]
  rfl

end SpacedToken

namespace LaidOut

open Lexer

variable {x y : SpacedToken} {v w : List SpacedToken}

/-- What is ahead of a token ends it. -/
theorem endsToken_ahead (h : LaidOut (x :: w)) : EndsToken (x.ahead w) :=
  x.endsToken_ahead (fun c hc => isIgnored_of_isSeparator (h.head.separators c hc)) h.gap_ne_nil

/-- Past the gap nothing is ahead of the last token of a line. -/
theorem dropWhile_ahead_eq_nil (h : LaidOut (x :: w)) (hx : w = [] ∨ ¬x.StaysOnLine) :
    (x.ahead w).dropWhile isGap = [] := by
  rw [List.dropWhile_eq_nil_iff]
  intro c hc
  refine isGap_of_isSeparator (h.head.separators c ?_)
  rcases hx with rfl | hx
  · simpa using mem_of_mem_firstLine hc
  · rw [SpacedToken.ahead, firstLine_append_of_mem (not_not.1 hx)] at hc
    exact mem_of_mem_firstLine hc

/-- The text ahead of a token that stays on its line is its gap, and the next token with what is
ahead of that. -/
theorem ahead_eq (h : LaidOut (x :: y :: w)) (hx : x.StaysOnLine) :
    x.ahead (y :: w) = x.gap ++ (y.token.text.toList ++ y.ahead w) :=
  SpacedToken.ahead_cons hx h.of_cons.head.whole w

/-- A lookahead passes over the gap of a token. -/
theorem isGap_of_mem_gap (h : LaidOut (x :: w)) : ∀ c ∈ x.gap, isGap c = true :=
  fun c hc => isGap_of_isSeparator (h.head.separators c hc)

end LaidOut

/-! ### The next token -/

namespace Token.IsWhole

open Lexer

variable {t u : Token} {g r : List Char}

/-- A token that begins with a mark that is a token of its own is that mark. -/
theorem eq_of_toList {c : Char} {cs : List Char} (h : t.IsWhole) (hc : t.text.toList = c :: cs)
    (hn : isNameStart c = false) (hd : c ≠ '.') (hp : isPunctuation c = true) :
    t = ⟨.punctuation, String.ofList [c]⟩ := by
  have := h.lexed
  rw [hc, lex?_eq] at this
  simpa [name?, hn, punctuation?, hd, hp] using this.symm

/-- A token that begins like a name is one. -/
theorem kind_of_isNameStart {c : Char} {cs : List Char} (h : t.IsWhole)
    (hc : t.text.toList = c :: cs) (hn : isNameStart c = true) : t.kind = .name := by
  have := h.lexed
  rw [hc, lex?_eq, name?, if_pos hn] at this
  rw [← Option.some.inj this]

/-- Punctuation is no name. -/
theorem text_ne_of_name {text : String} (h : t.IsWhole) (hk : t.kind = .name)
    (ht : lex? text.toList = some ⟨.punctuation, text⟩) : t.text ≠ text := by
  rintro rfl
  have := congrArg Token.kind (Option.some.inj (h.lexed.symm.trans ht))
  rw [hk] at this
  cases this

/-- The text of a name is a name. -/
theorem name?_toList (h : t.IsWhole) (hk : t.kind = .name) :
    name? t.text.toList = some t.text.toList := by
  have := h.lexed
  rw [lex?_eq] at this
  cases hn : name? t.text.toList with
  | some u =>
    rw [hn] at this
    have he : (⟨.name, String.ofList u⟩ : Token) = t := Option.some.inj this
    rw [← he, String.toList_ofList]
  | none =>
    rw [hn] at this
    simp only [Option.map_none, Option.none_or, Option.or_eq_some_iff,
      Option.map_eq_some_iff] at this
    obtain ⟨u, -, he⟩ | ⟨-, ⟨u, -, he⟩ | ⟨-, ⟨u, -, he⟩ | ⟨-, u, -, he⟩⟩⟩ := this
    all_goals exact absurd ((congrArg Token.kind he).trans hk) (by simp)

/-- Name characters are ASCII characters. -/
theorem toNat_lt_of_isNameChar {c : Char} (h : isNameChar c = true) : c.toNat < 128 := by
  refine toNat_lt_of_isStart ?_
  have : c.isAlphanum = (c.isAlpha || c.isDigit) := rfl
  simp only [isNameChar, this] at h
  simp only [isStart, isNameStart]
  grind

/-- A name is made of name characters. -/
theorem isNameChar_of_mem (h : t.IsWhole) (hk : t.kind = .name) {c : Char}
    (hc : c ∈ t.text.toList) : isNameChar c = true := by
  have hn := h.name?_toList hk
  generalize t.text.toList = cs at hn hc
  cases cs with
  | nil => cases hc
  | cons d cs =>
    simp only [name?] at hn
    split at hn
    · next hd =>
      have he : cs.takeWhile isNameChar = cs := (List.cons.inj (Option.some.inj hn)).2
      rcases List.mem_cons.1 hc with rfl | hc
      · have : c.isAlphanum = (c.isAlpha || c.isDigit) := rfl
        simp only [isNameStart, isNameChar, this] at hd ⊢
        grind
      · exact List.mem_takeWhile_imp (he.symm ▸ hc)
    · cases hn

/-- A gap is passed over up to the next token. -/
theorem dropWhile_gap (h : t.IsWhole) (hg : ∀ c ∈ g, isGap c = true) (r : List Char) :
    (g ++ (t.text.toList ++ r)).dropWhile isGap = t.text.toList ++ r := by
  obtain ⟨c, cs, hc, hs⟩ := h.exists_start
  rw [List.dropWhile_append_of_pos hg, hc, List.cons_append, List.dropWhile_cons,
    (not_isIgnored_of_isStart hs).2]
  rfl

/-- Past a gap a **colon is seen**, and nothing else is taken for one. -/
theorem isSome_aliasAhead_iff (h : t.IsWhole) (hg : ∀ c ∈ g, isGap c = true) (r : List Char) :
    (aliasAhead (g ++ (t.text.toList ++ r))).isSome = true ↔ t.text = ":" := by
  rw [aliasAhead, h.dropWhile_gap hg r]
  constructor
  · intro hs
    obtain ⟨c, cs, hc, -⟩ := h.exists_start
    rw [hc, List.cons_append] at hs
    split at hs
    · next heq =>
      obtain ⟨rfl, -⟩ := List.cons.inj heq
      rw [h.eq_of_toList hc (by decide) (by decide) (by decide)]
    · cases hs
  · intro ht
    simp [ht]

/-- A name with more to it is not taken for the word `on`. -/
theorem text_eq_on {cs : List Char} (h : t.IsWhole) (hr : EndsToken r)
    (ht : t.text.toList ++ r = 'o' :: 'n' :: cs) (hb : startsBoundary cs = true) :
    t.text = "on" := by
  obtain ⟨c, ds, hc, -⟩ := h.exists_start
  rw [hc, List.cons_append] at ht
  obtain ⟨rfl, htail⟩ := List.cons.inj ht
  have hk := h.kind_of_isNameStart hc (by decide)
  rcases ds with - | ⟨d, ds⟩
  · have hn : isIgnored 'n' = true := hr 'n' (by simp [show r = _ from htail])
    exact absurd hn (by decide)
  · obtain ⟨rfl, hrest⟩ := List.cons.inj htail
    rcases ds with - | ⟨e, ds⟩
    · exact String.toList_inj.1 hc
    · have he : isNameChar e = true := h.isNameChar_of_mem hk (by simp [hc])
      have hw : isWord e = true := (isWord_of_ascii (toNat_lt_of_isNameChar he)).trans he
      rw [← hrest] at hb
      simp [hw] at hb

/-- Past a gap **the word `on`, a directive or a brace is seen**, and nothing else is taken for one
of them. -/
theorem isSome_inlineAhead_iff (h : t.IsWhole) (hg : ∀ c ∈ g, isGap c = true) (hr : EndsToken r) :
    (inlineAhead (g ++ (t.text.toList ++ r))).isSome = true ↔
      t.text = "on" ∨ t.text = "@" ∨ t.text = "\x7b" := by
  rw [inlineAhead, h.dropWhile_gap hg r]
  constructor
  · intro hs
    -- What is seen is the whole token: a word does not go on, and a mark is one character.
    split at hs
    · next cs heq =>
      split at hs
      · next hb => exact .inl (h.text_eq_on hr heq hb)
      · cases hs
    · next c cs _ heq =>
      obtain ⟨d, ds, hd, -⟩ := h.exists_start
      rw [hd, List.cons_append] at heq
      obtain ⟨rfl, -⟩ := List.cons.inj heq
      split at hs
      · next hc =>
        simp only [Bool.or_eq_true, beq_iff_eq] at hc
        rcases hc with rfl | rfl
        · rw [h.eq_of_toList hd (by decide) (by decide) (by decide)]
          exact .inr (.inl rfl)
        · rw [h.eq_of_toList hd (by decide) (by decide) (by decide)]
          exact .inr (.inr rfl)
      · cases hs
    · cases hs
  · rintro (ht | ht | ht)
    · have hb : startsBoundary r = true := by
        cases r with
        | nil => rfl
        | cons c r =>
          have hw := not_of_isIgnored (p := isWord) (by decide +kernel) (hr c rfl)
          simp [hw]
      simp [ht, hb]
    · simp [ht]
    · simp [ht]

end Token.IsWhole

namespace LaidOut

open Lexer

variable {x y : SpacedToken} {w : List SpacedToken}

/-- A colon on the same line is seen. -/
theorem aliasAhead_isSome (h : LaidOut (x :: y :: w)) (hx : x.StaysOnLine)
    (hy : y.token.text = ":") : (aliasAhead (x.ahead (y :: w))).isSome := by
  rw [h.ahead_eq hx]
  exact (h.of_cons.head.whole.isSome_aliasAhead_iff h.isGap_of_mem_gap _).2 hy

/-- Only a colon is taken for one. -/
theorem aliasAhead_eq_none (h : LaidOut (x :: w))
    (hw : ∀ y ∈ w.head?, y.token ≠ ⟨.punctuation, ":"⟩) : aliasAhead (x.ahead w) = none := by
  -- The line ends with the token, or another token is next on it.
  by_cases hx : w = [] ∨ ¬x.StaysOnLine
  · simp [aliasAhead, h.dropWhile_ahead_eq_nil hx]
  · obtain ⟨hne, hline⟩ := not_or.1 hx
    obtain ⟨y, w, rfl⟩ := List.exists_cons_of_ne_nil hne
    have hl := h.of_cons.head.whole
    rw [h.ahead_eq (not_not.1 hline)]
    refine Option.not_isSome_iff_eq_none.1 fun hs => hw y rfl ?_
    have ht := (hl.isSome_aliasAhead_iff h.isGap_of_mem_gap _).1 hs
    exact hl.eq_of_toList (by rw [ht]; rfl) (by decide) (by decide) (by decide)

/-- The word `on`, a directive or a brace on the same line is seen. -/
theorem inlineAhead_isSome (h : LaidOut (x :: y :: w)) (hx : x.StaysOnLine)
    (hy : y.token.text = "on" ∨ y.token.text = "@" ∨ y.token.text = "\x7b") :
    (inlineAhead (x.ahead (y :: w))).isSome := by
  rw [h.ahead_eq hx]
  exact (h.of_cons.head.whole.isSome_inlineAhead_iff h.isGap_of_mem_gap
    h.of_cons.endsToken_ahead).2 hy

/-- Another name is not taken for the word `on`. -/
theorem inlineAhead_eq_none (h : LaidOut (x :: y :: w)) (hx : x.StaysOnLine)
    (hk : y.token.kind = .name) (hy : y.token.text ≠ "on") :
    inlineAhead (x.ahead (y :: w)) = none := by
  have hl := h.of_cons.head.whole
  rw [h.ahead_eq hx]
  refine Option.not_isSome_iff_eq_none.1 fun hs => ?_
  rcases (hl.isSome_inlineAhead_iff h.isGap_of_mem_gap h.of_cons.endsToken_ahead).1 hs with
    ht | ht | ht
  · exact hy ht
  · exact hl.text_ne_of_name hk rfl ht
  · exact hl.text_ne_of_name hk rfl ht

end LaidOut

/-! ### What forks choose -/

variable {k : RuleKind} {x : SpacedToken} {u rest : List SpacedToken}

/-- A definition is chosen by the token that begins it. -/
theorem definitionOf?_eq {t : Token} (hk : k ∈ Fork.answers .definition)
    (ht : ∃ m ∈ (Step.rule k).openings, m.accepts t = true) : definitionOf? t.text = some k := by
  obtain ⟨m, hm, ha⟩ := ht
  have hall : (Fork.answers .definition).all (fun k => (Step.rule k).openings.all fun m =>
      match m with
      | .exactly _ text => definitionOf? text == some k
      | _ => false) = true := by decide
  have := List.all_eq_true.1 (List.all_eq_true.1 hall k hk) m hm
  cases m with
  | exactly a text =>
    simp only [Matcher.accepts, Bool.and_eq_true, beq_iff_eq] at ha
    rw [ha.2]
    exact eq_of_beq this
  | kind | without => cases this

/-- A literal is chosen by the token that begins it, if the token suits it. -/
theorem valueOf?_eq (hk : k ∈ Fork.answers .value) (hs : k.Suits (x :: u))
    (ht : ∃ m ∈ (Step.rule k).openings, m.accepts x.token = true) : valueOf? x.token = some k := by
  obtain ⟨m, hm, ha⟩ := ht
  simp only [Fork.answers, List.mem_cons, List.not_mem_nil, or_false] at hk
  -- The last three all begin with a name and are told apart by its text.
  rcases hk with rfl | rfl | rfl | rfl | rfl | rfl | rfl | rfl
  · obtain rfl : m = .kind .number := List.mem_singleton.1 hm
    have : x.token.kind = .number := eq_of_beq ha
    simp [valueOf?, this]
  · obtain rfl : m = .kind .string := List.mem_singleton.1 hm
    have : x.token.kind = .string := eq_of_beq ha
    simp [valueOf?, this]
  · obtain rfl : m = .exactly .punctuation "[" := List.mem_singleton.1 hm
    simp only [Matcher.accepts, Bool.and_eq_true, beq_iff_eq] at ha
    simp [valueOf?, ha]
  · obtain rfl : m = .exactly .punctuation "\x7b" := List.mem_singleton.1 hm
    simp only [Matcher.accepts, Bool.and_eq_true, beq_iff_eq] at ha
    simp [valueOf?, ha]
  · obtain rfl : m = .exactly .punctuation "$" := List.mem_singleton.1 hm
    simp only [Matcher.accepts, Bool.and_eq_true, beq_iff_eq] at ha
    simp [valueOf?, ha]
  · obtain rfl : m = .kind .name := List.mem_singleton.1 hm
    have : x.token.kind = .name := eq_of_beq ha
    rcases hs with hs | hs <;> simp [valueOf?, this, hs]
  · obtain rfl : m = .kind .name := List.mem_singleton.1 hm
    have : x.token.kind = .name := eq_of_beq ha
    have hs : x.token.text = "null" := hs
    simp [valueOf?, this, hs]
  · obtain rfl : m = .kind .name := List.mem_singleton.1 hm
    have : x.token.kind = .name := eq_of_beq ha
    obtain ⟨h1, h2, h3⟩ :
        x.token.text ≠ "true" ∧ x.token.text ≠ "false" ∧ x.token.text ≠ "null" := hs
    simp [valueOf?, this]

/-- A type is chosen by the token that begins it. -/
theorem chooseType_eq (hk : k ∈ Fork.answers .type) (hx : x.token.IsWhole)
    (ht : ∃ m ∈ (Step.rule k).openings, m.accepts x.token = true) :
    Fork.choose .type x.token (x.ahead u) = some k := by
  obtain ⟨m, hm, ha⟩ := ht
  simp only [Fork.answers, List.mem_cons, List.not_mem_nil, or_false] at hk
  rcases hk with rfl | rfl
  · obtain rfl : m = .exactly .punctuation "[" := List.mem_singleton.1 hm
    simp only [Matcher.accepts, Bool.and_eq_true, beq_iff_eq] at ha
    simp [Fork.choose, ha]
  · obtain rfl : m = .kind .name := List.mem_singleton.1 hm
    have hkind : x.token.kind = .name := eq_of_beq ha
    have hne : x.token.text ≠ "[" := hx.text_ne_of_name hkind rfl
    simp [Fork.choose, hne]

section Selection

variable {y : SpacedToken} {w : List SpacedToken}

/-- Three dots begin an inline fragment if the word `on`, a directive or a brace comes next. -/
theorem selectionOf_inlineFragment (hl : LaidOut (x :: y :: w)) (hx : x.token.text = "...")
    (hline : x.StaysOnLine)
    (hy : y.token.text = "on" ∨ y.token.text = "@" ∨ y.token.text = "\x7b") :
    selectionOf x.token (x.ahead (y :: w)) = .inlineFragment := by
  simp [selectionOf, hx, hl.inlineAhead_isSome hline hy]

/-- Three dots begin a spread if another name comes next. -/
theorem selectionOf_fragmentSpread (hl : LaidOut (x :: y :: w)) (hx : x.token.text = "...")
    (hline : x.StaysOnLine) (hk : y.token.kind = .name) (hy : y.token.text ≠ "on") :
    selectionOf x.token (x.ahead (y :: w)) = .fragmentSpread := by
  simp [selectionOf, hx, hl.inlineAhead_eq_none hline hk hy]

/-- A name begins an aliased field if a colon comes next. -/
theorem selectionOf_aliasedField (hl : LaidOut (x :: y :: w)) (hk : x.token.kind = .name)
    (hline : x.StaysOnLine) (hy : y.token.text = ":") :
    selectionOf x.token (x.ahead (y :: w)) = .aliasedField := by
  have hx : x.token.text ≠ "..." := hl.head.whole.text_ne_of_name hk rfl
  simp [selectionOf, hx, hl.aliasAhead_isSome hline hy]

/-- A name begins a field if no colon comes next. -/
theorem selectionOf_field (hl : LaidOut (x :: w)) (hk : x.token.kind = .name)
    (hw : ∀ y ∈ w.head?, y.token ≠ ⟨.punctuation, ":"⟩) :
    selectionOf x.token (x.ahead w) = .field := by
  have hx : x.token.text ≠ "..." := hl.head.whole.text_ne_of_name hk rfl
  simp [selectionOf, hx, hl.aliasAhead_eq_none hw]

end Selection

/-- Punctuation that a step accepts is the one that it names. -/
theorem text_of_accepts_punctuation {t : Token} {text : String}
    (h : (Terminal.punctuation text).accepts t = true) : t.text = text := by
  simp only [Terminal.accepts, Terminal.punctuation, Matcher.accepts, Bool.and_eq_true,
    beq_iff_eq] at h
  exact h.2

/-- A selection is chosen by the token that begins it and the one after that. -/
theorem selectionOf_eq (hk : k ∈ Fork.answers .selection) (hs : k.Suits (x :: u))
    (hd : Derives [.rule k] (x :: u)) (hl : LaidOut (x :: (u ++ rest)))
    (hr : Follows (Grammar.bars .selection) rest) :
    selectionOf x.token (x.ahead (u ++ rest)) = k := by
  simp only [Fork.answers, List.mem_cons, List.not_mem_nil, or_false] at hk
  -- The first two begin with three dots, the others with a name. The second token tells them apart.
  rcases hk with rfl | rfl | rfl | rfl
  · have hd := hd.of_rule rfl
    have ht := hd.tail
    cases u with
    | nil => exact absurd (ht.all_isSkippable (by decide)) (by decide)
    | cons y v =>
      obtain ⟨m, hm, ha⟩ := ht.head_mem_openings (by decide)
      have hm : m ∈ [.exactly .name "on", .exactly .punctuation "@",
          .exactly .punctuation "\x7b"] := hm
      have hy : y.token.text = "on" ∨ y.token.text = "@" ∨ y.token.text = "\x7b" := by
        simp only [List.mem_cons, List.not_mem_nil, or_false] at hm
        rcases hm with rfl | rfl | rfl <;>
          simp only [Matcher.accepts, Bool.and_eq_true, beq_iff_eq] at ha <;> simp [ha.2]
      exact selectionOf_inlineFragment hl (text_of_accepts_punctuation hd.accepts_head) hs hy
  · have hd := hd.of_rule rfl
    have ht := hd.tail
    cases u with
    | nil => exact absurd (ht.all_isSkippable (by decide)) (by decide)
    | cons y v =>
      have hy : y.token.kind = .name := eq_of_beq ht.accepts_head
      obtain ⟨hline, hon⟩ : x.StaysOnLine ∧ y.token.text ≠ "on" := hs
      exact selectionOf_fragmentSpread hl (text_of_accepts_punctuation hd.accepts_head) hline hy hon
  · have hd := hd.of_rule rfl
    have ht := hd.tail
    cases u with
    | nil => exact absurd (ht.all_isSkippable (by decide)) (by decide)
    | cons y v =>
      exact selectionOf_aliasedField hl (eq_of_beq hd.accepts_head) hs
        (text_of_accepts_punctuation ht.accepts_head)
  · have hd := hd.of_rule rfl
    refine selectionOf_field hl (eq_of_beq hd.accepts_head) fun y hy he => ?_
    cases u with
    | nil =>
      have := hr y hy (.exactly .punctuation ":") List.mem_cons_self
      rw [he] at this
      exact absurd this (by decide)
    | cons z v =>
      obtain rfl : z = y := Option.some.inj hy
      obtain ⟨m, hm, ha⟩ := hd.tail.head_mem_openings (by decide)
      have hm : m ∈ [.exactly .punctuation "(", .exactly .punctuation "@",
          .exactly .punctuation "\x7b"] := hm
      rw [he] at ha
      exact absurd ha (by revert m; decide)

/-- A fork **chooses the construct** from which the tokens that come next are derived. -/
theorem Fork.choose_eq {f : Fork} (hk : k ∈ f.answers) (hs : k.Suits (x :: u))
    (hd : Derives [.rule k] (x :: u)) (ho : Grammar.isOrderly [.rule k] = true)
    (hl : LaidOut (x :: (u ++ rest))) (hr : Follows (Grammar.bars f) rest) :
    f.choose x.token (x.ahead (u ++ rest)) = some k := by
  have ht : ∃ m ∈ (Step.rule k).openings, m.accepts x.token = true := by
    obtain ⟨m, hm, ha⟩ := hd.head_mem_openings ho
    exact ⟨m, by simpa [Grammar.seqOpenings, Step.isSkippable] using hm, ha⟩
  cases f with
  | definition => exact definitionOf?_eq hk ht
  | selection => exact congrArg some (selectionOf_eq hk hs hd hl hr)
  | value => exact valueOf?_eq hk hs ht
  | type => exact chooseType_eq hk hl.head.whole ht

end QueryAssist
