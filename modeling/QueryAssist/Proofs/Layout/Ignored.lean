import QueryAssist.Proofs.Cursor.Placing
import QueryAssist.Proofs.Layout.Tiling
import QueryAssist.Proofs.Typing.Appended

/-! # Ignored characters carry no meaning

Between two tokens any ignored characters may stand. What the tokens are read as depends on them in
one way only: at the beginning of a selection the next token is looked for on the same line, past
separators but not past a byte order mark. Main definitions:

* **`Spaced w`** — ignored characters tell the tokens apart.
* **`Scan.readAs`** — what the tokens of a document are read as.
* **`Chain.ReadsAs`** — the tokens are read one after another, without the gaps.
* **`SeenAlike`** — two layouts of the same tokens show the same at the beginnings of selections.

Main statements: `Scan.readsAs`, a scan reads the tokens without the gaps, and
`readAs_eq_of_seenAlike`, two layouts that show the same are read as the same. -/

namespace QueryAssist

open Grammar

/-! ### Layouts -/

/-- Tokens are **spaced** if each is whole and closed, only ignored characters are in the gap after
it, and there is a gap after each but the last. -/
structure Spaced (w : List SpacedToken) : Prop where
  whole : ∀ x ∈ w, x.token.IsWhole
  closed : ∀ x ∈ w, x.token.IsClosed
  ignored : ∀ x ∈ w, ∀ c ∈ x.gap, isIgnored c = true
  apart : ∀ x ∈ w.dropLast, x.gap ≠ []

instance (w : List SpacedToken) : Decidable (Spaced w) :=
  decidable_of_iff ((∀ x ∈ w, x.token.IsWhole) ∧ (∀ x ∈ w, x.token.IsClosed) ∧
      (∀ x ∈ w, x.gap.all isIgnored = true) ∧ ∀ x ∈ w.dropLast, x.gap ≠ [])
    ⟨fun ⟨hw, hc, hi, ha⟩ => ⟨hw, hc, fun x hx => List.all_eq_true.1 (hi x hx), ha⟩,
      fun h => ⟨h.whole, h.closed, fun x hx => List.all_eq_true.2 (h.ignored x hx), h.apart⟩⟩

/-- The next token is **in sight** of one if neither a line break nor a byte order mark is between
them. -/
def SpacedToken.SeesNext (x : SpacedToken) : Prop := x.StaysOnLine ∧ '\ufeff' ∉ x.gap

instance (x : SpacedToken) : Decidable x.SeesNext := inferInstanceAs (Decidable (_ ∧ _))

/-- A token is **the word `on`, a directive or a brace**, as after the dots of an inline
fragment. -/
def Token.OpensInline (t : Token) : Prop := t.text = "on" ∨ t.text = "@" ∨ t.text = "\x7b"

instance (t : Token) : Decidable t.OpensInline := inferInstanceAs (Decidable (_ ∨ _))

namespace Spaced

open Lexer

variable {x : SpacedToken} {w : List SpacedToken}

/-- The tokens after the first one are spaced. -/
theorem of_cons (h : Spaced (x :: w)) : Spaced w where
  whole y hy := h.whole y (List.mem_cons_of_mem _ hy)
  closed y hy := h.closed y (List.mem_cons_of_mem _ hy)
  ignored y hy := h.ignored y (List.mem_cons_of_mem _ hy)
  apart y hy := by
    refine h.apart y ?_
    cases w with
    | nil => cases hy
    | cons z w => exact List.mem_cons_of_mem _ hy

/-- The first of spaced tokens is whole. -/
theorem whole_head (h : Spaced (x :: w)) : x.token.IsWhole := h.whole x List.mem_cons_self

/-- Only ignored characters are in its gap. -/
theorem ignored_head (h : Spaced (x :: w)) : ∀ c ∈ x.gap, isIgnored c = true :=
  h.ignored x List.mem_cons_self

/-- There is a gap before the next one. -/
theorem gap_ne_nil (h : Spaced (x :: w)) (hw : w ≠ []) : x.gap ≠ [] := by
  obtain ⟨y, w, rfl⟩ := List.exists_cons_of_ne_nil hw
  exact h.apart x List.mem_cons_self

/-- The text ahead of a token ends it. -/
theorem endsToken_ahead (h : Spaced (x :: w)) : EndsToken (x.ahead w) :=
  x.endsToken_ahead h.ignored_head h.gap_ne_nil

/-- What is ahead of a token does not change how it is read. -/
theorem lex?_ahead (h : Spaced (x :: w)) :
    lex? (x.token.text.toList ++ x.ahead w) = some x.token :=
  h.whole_head.lex?_append h.endsToken_ahead (.inl (h.closed x List.mem_cons_self))

/-- So the token is the next piece. -/
theorem piece_ahead (h : Spaced (x :: w)) :
    piece (x.token.text.toList ++ x.ahead w) = (.token x.token, x.token.text.toList.length) := by
  have hstart : (x.token.text.toList ++ x.ahead w).takeWhile isIgnored = [] := by
    obtain ⟨c, cs, hc, hs⟩ := h.whole_head.exists_start
    rw [hc, List.cons_append, List.takeWhile_cons, (not_isIgnored_of_isStart hs).1]
    rfl
  rw [piece_of_lex? hstart h.lex?_ahead, String.length_toList]

/-! ### What is seen past a gap -/

/-- Those who look ahead pass over every ignored character but the byte order mark. -/
theorem isGap_of_isIgnored {c : Char} (hc : isIgnored c = true) (hne : c ≠ '\ufeff') :
    isGap c = true := by
  simp only [isIgnored, Bool.or_eq_true, beq_iff_eq, hne, or_false] at hc
  rcases hc with (((rfl | rfl) | rfl) | rfl) | rfl <;> decide

/-- A lookahead passes over a gap behind which the next token is in sight. -/
theorem isGap_of_seesNext (h : Spaced (x :: w)) (hx : x.SeesNext) : ∀ c ∈ x.gap, isGap c = true :=
  fun c hc => isGap_of_isIgnored (h.ignored_head c hc) fun he => hx.2 (he ▸ hc)

/-- After the last token, or out of sight of the next one, nothing is seen but a byte order mark. -/
theorem head?_dropWhile_ahead (h : Spaced (x :: w)) (hx : w = [] ∨ ¬x.SeesNext) :
    ∀ c ∈ ((x.ahead w).dropWhile isGap).head?, c = '\ufeff' := by
  intro c hc
  have hgap := List.head?_dropWhile_not isGap (x.ahead w)
  rw [Option.mem_def.1 hc] at hgap
  have hmem : c ∈ x.gap := by
    have hahead := (List.dropWhile_suffix isGap).subset (List.mem_of_head? hc)
    by_cases hline : x.StaysOnLine
    · obtain rfl | hmark : w = [] ∨ '\ufeff' ∈ x.gap :=
        hx.imp id fun hs => not_not.1 fun hm => hs ⟨hline, hm⟩
      · simpa using mem_of_mem_firstLine hahead
      · -- The mark is in the gap, so what is seen is.
        have hne : x.gap.dropWhile isGap ≠ [] := by
          rw [ne_eq, List.dropWhile_eq_nil_iff]
          exact fun hall => absurd (hall _ hmark) (by decide)
        rw [SpacedToken.ahead, firstLine_append hline, List.dropWhile_append,
          if_neg (mt List.isEmpty_iff.1 hne), List.head?_append_of_ne_nil _ hne] at hc
        exact (List.dropWhile_suffix isGap).subset (List.mem_of_head? hc)
    · rw [SpacedToken.ahead, firstLine_append_of_mem (not_not.1 hline)] at hahead
      exact mem_of_mem_firstLine hahead
  refine not_not.1 fun hne => ?_
  simp [isGap_of_isIgnored (h.ignored_head c hmem) hne] at hgap

/-- The next token is in sight and ahead, or nothing is seen but a byte order mark. -/
theorem ahead_cases (h : Spaced (x :: w)) :
    (∃ y v, w = y :: v ∧ x.SeesNext ∧ x.ahead w = x.gap ++ (y.token.text.toList ++ y.ahead v)) ∨
    ((∀ y ∈ w.head?, ¬x.SeesNext) ∧ ∀ c ∈ ((x.ahead w).dropWhile isGap).head?, c = '\ufeff') := by
  cases w with
  | nil => exact .inr ⟨by simp, h.head?_dropWhile_ahead (.inl rfl)⟩
  | cons y v =>
    by_cases hs : x.SeesNext
    · exact .inl ⟨y, v, rfl, hs, SpacedToken.ahead_cons hs.1 h.of_cons.whole_head v⟩
    · exact .inr ⟨fun _ _ => hs, h.head?_dropWhile_ahead (.inr hs)⟩

/-- A **colon is seen** after a token if it is next and in sight. -/
theorem isSome_aliasAhead_iff (h : Spaced (x :: w)) :
    (aliasAhead (x.ahead w)).isSome = true ↔
      x.SeesNext ∧ ∃ y ∈ w.head?, y.token.text = ":" := by
  obtain ⟨y, v, rfl, hs, he⟩ | ⟨hn, hmark⟩ := h.ahead_cases
  · rw [he, h.of_cons.whole_head.isSome_aliasAhead_iff (h.isGap_of_seesNext hs)]
    simp [hs]
  · refine iff_of_false ?_ fun ⟨hs, y, hy, _⟩ => hn y hy hs
    rw [isSome_aliasAhead, beq_iff_eq]
    exact fun hc => absurd (hmark ':' hc) (by decide)

/-- **The word `on`, a directive or a brace is seen** if it is next and in sight. -/
theorem isSome_inlineAhead_iff (h : Spaced (x :: w)) :
    (inlineAhead (x.ahead w)).isSome = true ↔
      x.SeesNext ∧ ∃ y ∈ w.head?, y.token.OpensInline := by
  obtain ⟨y, v, rfl, hs, he⟩ | ⟨hn, hmark⟩ := h.ahead_cases
  · rw [he, h.of_cons.whole_head.isSome_inlineAhead_iff (h.isGap_of_seesNext hs)
      h.of_cons.endsToken_ahead]
    simp [hs, Token.OpensInline]
  · refine iff_of_false ?_ fun ⟨hs, y, hy, _⟩ => hn y hy hs
    rw [isSome_inlineAhead, Bool.not_eq_true]
    cases hd : (x.ahead w).dropWhile isGap with
    | nil => rfl
    | cons c cs =>
      obtain rfl := hmark c (by simp [hd])
      rfl

end Spaced

/-! ### Reading without the gaps -/

namespace Chain

variable {c d : Chain} {x : SpacedToken} {w : List SpacedToken} {a : List Char}
  {rs rs' : List (String × Chain)}

/-- Tokens are **read one after another** from a chain on: each with the text ahead of it, and from
the chain that the one before it leaves. -/
inductive ReadsAs : Chain → List SpacedToken → List (String × Chain) → Prop
  /-- No token is left. -/
  | nil (c : Chain) : ReadsAs c [] []
  /-- The next token. -/
  | cons {c d : Chain} {x : SpacedToken} {w : List SpacedToken} {style : String}
      {rs : List (String × Chain)}
      (hx : react standard c (.token x.token) (x.ahead w) = (.ok style, d)) (hw : ReadsAs d w rs) :
      ReadsAs c (x :: w) ((style, d) :: rs)

/-- Tokens are read in one way. -/
theorem ReadsAs.unique (h : ReadsAs c w rs) (h' : ReadsAs c w rs') : rs = rs' := by
  induction h generalizing rs' with
  | nil =>
    cases h'
    rfl
  | cons hx _ ih =>
    cases h' with
    | cons hx' hw' =>
      obtain ⟨hs, rfl⟩ := Prod.mk.inj (hx.symm.trans hx')
      rw [Except.ok.inj hs, ih hw']

/-- A gap before the first token makes no difference. -/
theorem ReadsAs.congr (h : ReadsAs c w rs) (hc : c.settle = d.settle) : ReadsAs d w rs := by
  cases h with
  | nil => exact .nil d
  | cons hx hw => exact .cons (react_congr hc _ _ ▸ hx) hw

/-- A token that is whole and ends is **read with some style**, and leaves a regular chain. -/
theorem exists_react (h : Spaced (x :: w)) (hc : c.IsRegular) :
    ∃ style d, react standard c (.token x.token) (x.ahead w) = (.ok style, d) ∧ d.IsRegular := by
  let s : Stream := .ofLine (x.token.text.toList ++ x.ahead w)
  have hs : s.rest ≠ [] := List.append_ne_nil_of_left_ne_nil h.whole_head.toList_ne_nil _
  have hpiece : Lexer.piece s.rest = (.token x.token, x.token.text.toList.length) := h.piece_ahead
  obtain ⟨hregular, style, hstyle⟩ := hc.read s
  rw [read_eq standard c hs, hpiece] at hregular hstyle
  have hdrop : s.rest.drop x.token.text.toList.length = x.ahead w := List.drop_left
  rw [hdrop] at hregular hstyle
  exact ⟨style, _, Prod.ext hstyle rfl, hregular⟩

/-! ### Where the gaps show -/

/-- A token that leaves a chain **seeks** another one after it if it begins a selection and the
other tells of what kind: a colon after the name of a field or an alias, and the word `on`, a
directive or a brace after three dots. -/
def Seeks (c : Chain) (t u : Token) : Prop :=
  (c.top.isField = true ∧ c.top.step = 0 ∧ u.text = ":") ∨
    (t.text = "..." ∧ (c.top.kind = some .fragmentSpread ∨ c.top.kind = some .inlineFragment) ∧
      u.OpensInline)

instance (c : Chain) (t u : Token) : Decidable (c.Seeks t u) :=
  inferInstanceAs (Decidable (_ ∨ _))

/-- Three dots that begin a selection leave a spread or an inline fragment. -/
theorem kind_accept_dots {e : Chain} {t : Token} {r : Rule} (ht : t.text = "...")
    (hr : standard (selectionOf t a) = some r) (ha : (firstOfSelection t).accepts t = true) :
    let d := (e.enter (selectionOf t a) r).accept (firstOfSelection t) t
    d.top.kind = some .fragmentSpread ∨ d.top.kind = some .inlineFragment := by
  rw [firstOfSelection, if_pos (beq_iff_eq.2 ht)] at ha ⊢
  have hk : t.kind = .punctuation := beq_iff_eq.1 (Bool.and_eq_true _ _ ▸ ha).1
  rw [Chain.accept, if_pos hk]
  by_cases hi : (Lexer.inlineAhead a).isSome = true
  · rw [selectionOf_dots ht, if_pos hi] at hr ⊢
    obtain rfl := Option.some.inj hr
    exact .inr rfl
  · rw [selectionOf_dots ht, if_neg hi] at hr ⊢
    obtain rfl := Option.some.inj hr
    exact .inl rfl

/-- A name that begins a selection leaves a field or an alias at its first step. -/
theorem isField_accept_name {e : Chain} {t : Token} {r : Rule} (ht : t.text ≠ "...")
    (ha : (firstOfSelection t).accepts t = true) :
    let d := (e.enter (selectionOf t a) r).accept (firstOfSelection t) t
    d.top.isField = true ∧ d.top.step = 0 := by
  rw [firstOfSelection, if_neg (mt beq_iff_eq.1 ht)] at ha ⊢
  have hk : t.kind = .name := beq_iff_eq.1 ha
  rw [selectionOf_ne_dots ht, Chain.accept, if_neg (by rw [hk]; rintro ⟨⟩)]
  split
  · exact ⟨rfl, rfl⟩
  · exact ⟨rfl, rfl⟩

end Chain

/-- Two gaps **hide or show the next token alike** if both break the line or it is in sight of
both. -/
def SpacedToken.SeesAs (x y : SpacedToken) : Prop :=
  (¬x.StaysOnLine ∧ ¬y.StaysOnLine) ∨ (x.SeesNext ∧ y.SeesNext)

instance (x y : SpacedToken) : Decidable (x.SeesAs y) := inferInstanceAs (Decidable (_ ∨ _))

/-- Two layouts, the first of which is read as given, are **seen alike** if they have the same
tokens and, wherever a token seeks the next one, both gaps hide or show that one alike. -/
def SeenAlike : List (String × Chain) → List SpacedToken → List SpacedToken → Prop
  | [], [], [] => True
  | (_, c) :: rs, x :: v, y :: w =>
    x.token = y.token ∧ (∀ z ∈ v.head?, c.Seeks x.token z.token → x.SeesAs y) ∧ SeenAlike rs v w
  | _, _, _ => False

/-- Of gaps that show the next token alike, either has it in sight. -/
theorem SpacedToken.SeesAs.seesNext_iff {x y : SpacedToken} (h : x.SeesAs y) :
    x.SeesNext ↔ y.SeesNext := by
  obtain ⟨hx, hy⟩ | ⟨hx, hy⟩ := h
  · exact iff_of_false (fun h => hx h.1) fun h => hy h.1
  · exact iff_of_true hx hy

instance SeenAlike.decidable :
    (rs : List (String × Chain)) → (v w : List SpacedToken) → Decidable (SeenAlike rs v w)
  | [], [], [] => isTrue trivial
  | (_, _) :: rs, _ :: v, _ :: w =>
    have := decidable rs v w
    inferInstanceAs (Decidable (_ ∧ _ ∧ _))
  | [], [], _ :: _ => isFalse id
  | [], _ :: _, _ => isFalse id
  | _ :: _, [], _ => isFalse id
  | _ :: _, _ :: _, [] => isFalse id

/-- Layouts that are seen alike have the same tokens. -/
theorem SeenAlike.map_token {rs : List (String × Chain)} {v w : List SpacedToken}
    (h : SeenAlike rs v w) : v.map (·.token) = w.map (·.token) := by
  fun_induction SeenAlike rs v w with
  | case1 => rfl
  | case2 _ c rs x v y w ih =>
    obtain ⟨ht, -, hrest⟩ := h
    rw [List.map_cons, List.map_cons, ht, ih hrest]
  | case3 => exact h.elim

/-- What is seen of the next token is the same in both layouts, if the gaps hide or show it alike
where it is sought. -/
theorem seesNext_and_iff {p : Token → Prop} {x y : SpacedToken} {v w : List SpacedToken}
    (hvw : v.map (·.token) = w.map (·.token)) (h : ∀ z ∈ v.head?, p z.token → x.SeesAs y) :
    (x.SeesNext ∧ ∃ z ∈ v.head?, p z.token) ↔ (y.SeesNext ∧ ∃ z ∈ w.head?, p z.token) := by
  cases v with
  | nil =>
    obtain rfl := List.map_eq_nil_iff.1 hvw.symm
    simp
  | cons z v =>
    cases w with
    | nil => cases hvw
    | cons z' w =>
      have hz : z.token = z'.token := (List.cons.inj hvw).1
      have hs : p z.token → (x.SeesNext ↔ y.SeesNext) := fun hp => (h z rfl hp).seesNext_iff
      simp only [List.head?_cons, Option.mem_def, Option.some.injEq, exists_eq_left', ← hz]
      exact and_congr_left hs

/-- So the same selection is chosen. -/
theorem selectionOf_congr {t : Token} {x y : SpacedToken} {v w : List SpacedToken}
    (hv : Spaced (x :: v)) (hw : Spaced (y :: w)) (hvw : v.map (·.token) = w.map (·.token))
    (h : ∀ z ∈ v.head?, (t.text = "..." ∧ z.token.OpensInline ∨ t.text ≠ "..." ∧
      z.token.text = ":") → x.SeesAs y) :
    selectionOf t (x.ahead v) = selectionOf t (y.ahead w) := by
  by_cases ht : t.text = "..."
  · have hsee := seesNext_and_iff (p := Token.OpensInline) hvw
      fun z hz hp => h z hz (.inl ⟨ht, hp⟩)
    rw [← hv.isSome_inlineAhead_iff, ← hw.isSome_inlineAhead_iff] at hsee
    rw [selectionOf_dots ht, selectionOf_dots ht, Bool.eq_iff_iff.2 hsee]
  · have hsee := seesNext_and_iff (p := fun u => u.text = ":") hvw
      fun z hz hp => h z hz (.inr ⟨ht, hp⟩)
    rw [← hv.isSome_aliasAhead_iff, ← hw.isSome_aliasAhead_iff] at hsee
    rw [selectionOf_ne_dots ht, selectionOf_ne_dots ht, Bool.eq_iff_iff.2 hsee]

namespace Chain

variable {c : Chain} {x y : SpacedToken} {v w : List SpacedToken} {rs : List (String × Chain)}

/-- **One token of two layouts**: a chain makes the same of it, if the gaps hide or show the next
one alike where it is sought. -/
theorem react_eq_of_seesAs (hv : Spaced (x :: v)) (hw : Spaced (y :: w)) (ht : x.token = y.token)
    (hvw : v.map (·.token) = w.map (·.token)) (hc : c.IsRegular)
    (h : ∀ z ∈ v.head?, (react standard c (.token x.token) (x.ahead v)).2.Seeks x.token z.token →
      x.SeesAs y) :
    react standard c (.token x.token) (x.ahead v) =
      react standard c (.token y.token) (y.ahead w) := by
  rw [← ht]
  obtain he | ⟨e, r, q, -, -, hne, hr, -, ha, hleft, -⟩ :=
    react_ahead hc x.token (x.ahead v) (y.ahead w)
  · exact he
  · -- Two different selections would be chosen, although the same is seen where it is sought.
    refine absurd (selectionOf_congr hv hw hvw fun z hz hp => h z hz ?_) hne
    rw [hleft]
    obtain ⟨hdots, hu⟩ | ⟨hdots, hu⟩ := hp
    · exact .inr ⟨hdots, kind_accept_dots hdots hr ha, hu⟩
    · obtain ⟨hf, hs⟩ := isField_accept_name (e := e) (r := r) hdots ha
      exact .inl ⟨hf, hs, hu⟩

/-- **All tokens of two layouts** that are seen alike are read alike. -/
theorem ReadsAs.of_seenAlike (h : ReadsAs c v rs) (hs : SeenAlike rs v w) (hv : Spaced v)
    (hw : Spaced w) (hc : c.IsRegular) : ReadsAs c w rs := by
  induction h generalizing w with
  | nil c =>
    cases w with
    | nil => exact .nil c
    | cons y w => exact hs.elim
  | @cons c d x v style rs hx _ ih =>
    cases w with
    | nil => exact hs.elim
    | cons y w =>
      obtain ⟨ht, hsee, hrest⟩ := hs
      obtain ⟨_, _, hreact, hd⟩ := exists_react hv hc
      obtain rfl := (Prod.mk.inj (hreact.symm.trans hx)).2
      refine .cons ?_ (ih hrest hv.of_cons hw.of_cons hd)
      rw [← hx]
      exact (react_eq_of_seesAs hv hw ht hrest.map_token hc fun z hz hk =>
        hsee z hz (by rwa [hx] at hk)).symm

end Chain

/-! ### The scan of a document -/

namespace Scan

open Chain

variable {before g : List Char} {row : Nat} {s : Stream} {c : Chain} {ls : List (List Char)}
  {x : SpacedToken} {w : List SpacedToken}

/-- What some tokens are **read as**: the styles of those that are not ignored, each with the chain
after it. -/
def readings (ts : List PlacedToken) : List (String × Chain) :=
  (ts.filter fun t => t.style != "ws").map fun t => (t.style, t.chain)

/-- What the tokens of a document are read as. -/
def readAs (document : List Char) : List (String × Chain) := readings (collected document)

/-- Ignored tokens leave no reading. -/
theorem readings_append_of_ws {ts : List PlacedToken} (h : ∀ t ∈ ts, t.style = "ws")
    (us : List PlacedToken) : readings (ts ++ us) = readings us := by
  have hnil : ts.filter (fun t => t.style != "ws") = [] :=
    List.filter_eq_nil_iff.2 fun t ht => by simp [h t ht]
  rw [readings, List.filter_append, hnil, List.nil_append]
  rfl

/-- Every other token leaves its style and its chain. -/
theorem readings_cons {t : PlacedToken} (h : t.style ≠ "ws") (us : List PlacedToken) :
    readings (t :: us) = (t.style, t.chain) :: readings us := by
  rw [readings, List.filter_cons_of_pos (by simpa using h)]
  rfl

/-- **One token**: a scan reads it with what is ahead of it, and goes on after it. -/
theorem exists_tokensOn_spaced (hw : Spaced (x :: w))
    (hs : Stands before row s ls (render (x :: w))) (hc : c.IsRegular) :
    ∃ style d s', react standard c (.token x.token) (x.ahead w) = (.ok style, d) ∧
      tokensOn row s c ls = place s' d style row :: tokensOn row s' d ls ∧
      Stands (before ++ x.token.text.toList) row s' ls (x.gap ++ render w) ∧ d.IsRegular ∧
      style ≠ "ws" := by
  have hwhole := hw.whole_head
  obtain ⟨hrest, hlines, htoken⟩ := rest_of_render hwhole hs.lines
  obtain ⟨style, d, hreact, hd⟩ := exists_react hw hc
  have hne : s.rest ≠ [] := by
    rw [hrest]
    exact List.append_ne_nil_of_left_ne_nil hwhole.toList_ne_nil _
  have hread : Chain.read standard s c = ⟨.ok style, s.take x.token.text.toList.length, d⟩ := by
    rw [read_eq standard c hne, hrest, hw.piece_ahead, List.drop_left, hreact]
  refine ⟨style, d, _, hreact, tokensOn_of_read hne hread,
    hs.take hwhole.oneLine htoken hlines, hd, ?_⟩
  rintro rfl
  cases eq_gap_of_style hc (congrArg Prod.fst hreact)

/-- **All tokens**: a scan reads them without the gaps. -/
theorem readsAs_tokensOn (hw : Spaced w) (hg : ∀ ch ∈ g, isIgnored ch = true)
    (hs : Stands before row s ls (g ++ render w)) (hc : c.IsRegular) :
    ReadsAs c w (readings (tokensOn row s c ls)) := by
  induction w generalizing before row s ls c g with
  | nil =>
    obtain ⟨ts, row', s', ls', c', ht, hs', -, -, -, -, hws⟩ :=
      exists_tokensOn_gaps (isIgnored_head_render hw.whole) hg hs hc
    rw [ht, readings_append_of_ws hws, tokensOn_eq_nil hs'.lines]
    exact .nil c
  | cons x w ih =>
    obtain ⟨ts, row', s', ls', c', ht, hs', hc', hset, -, -, hws⟩ :=
      exists_tokensOn_gaps (isIgnored_head_render hw.whole) hg hs hc
    obtain ⟨style, d, s'', hreact, ht', hs'', hd, hstyle⟩ := exists_tokensOn_spaced hw hs' hc'
    rw [ht, readings_append_of_ws hws, ht', readings_cons hstyle]
    exact .congr (.cons hreact (ih hw.of_cons hw.ignored_head hs'' hd)) hset

/-- The tokens of a document are **read one after another, without the gaps**. -/
theorem readsAs {lead : List Char} (hlead : ∀ ch ∈ lead, isIgnored ch = true) (hw : Spaced w) :
    ReadsAs .start w (readAs (lead ++ render w)) := by
  obtain ⟨l, ls, hs, htokens⟩ := Stands.start (lead ++ render w)
  rw [readAs, collected_eq, htokens]
  exact readsAs_tokensOn hw hlead hs isRegular_start

end Scan

/-- **Ignored characters carry no meaning** but at the beginnings of selections: two layouts of the
same tokens, with any ignored characters between them, before and after, are read as the same, if at
each place where a selection begins and the next token tells of what kind the gaps hide or show that
token alike. -/
theorem readAs_eq_of_seenAlike {lead lead' : List Char} {v w : List SpacedToken}
    (hlead : ∀ c ∈ lead, isIgnored c = true) (hlead' : ∀ c ∈ lead', isIgnored c = true)
    (hv : Spaced v) (hw : Spaced w) (h : SeenAlike (Scan.readAs (lead ++ render v)) v w) :
    Scan.readAs (lead ++ render v) = Scan.readAs (lead' ++ render w) :=
  ((Scan.readsAs hlead hv).of_seenAlike h hv hw Chain.isRegular_start).unique
    (Scan.readsAs hlead' hw)

/-- Some tokens **with the gaps** after them. -/
def withGaps (ts : List Token) (gaps : List String) : List SpacedToken :=
  List.zipWith (fun t g => ⟨t, g.toList⟩) ts gaps

/-- Commas, byte order marks and line breaks may stand anywhere but between an alias and its colon,
or after the dots of an inline fragment. -/
theorem readAs_eq_of_seenAlike_alias :
    let ts := [.mark "\x7b", ⟨.name, "a"⟩, .mark ":", ⟨.name, "b"⟩, .mark "...", ⟨.name, "on"⟩,
      ⟨.name, "T"⟩, .mark "\x7b", ⟨.name, "c"⟩, .mark "\x7d", .mark "\x7d"]
    let v := withGaps ts [" ", " ", " ", " ", " ", " ", " ", " ", " ", " ", ""]
    let w := withGaps ts ["\n\t", ",", "\ufeff", "\r\n", " ,", "\n", "\ufeff", "\n", ",\n", " ", "\n"]
    render v = "\x7b a : b ... on T \x7b c \x7d \x7d".toList ∧
      render w = "\x7b\n\ta,:\ufeffb\r\n... ,on\nT\ufeff\x7b\nc,\n\x7d \x7d\n".toList ∧
      Spaced v ∧ Spaced w ∧ SeenAlike (Scan.readAs (" ".toList ++ render v)) v w ∧
      Scan.readAs (" ".toList ++ render v) = Scan.readAs ("\ufeff\n".toList ++ render w) := by
  intro ts v w
  have hv : Spaced v := by decide +kernel
  have hw : Spaced w := by decide +kernel
  have h : SeenAlike (Scan.readAs (" ".toList ++ render v)) v w := by decide +kernel
  have hlead : " ".toList.all isIgnored = true := by decide +kernel
  have hlead' : "\ufeff\n".toList.all isIgnored = true := by decide +kernel
  have heq := readAs_eq_of_seenAlike (List.all_eq_true.1 hlead) (List.all_eq_true.1 hlead') hv hw h
  exact ⟨by decide +kernel, by decide +kernel, hv, hw, h, heq⟩

/-- A **line break before a colon** hides it: the name is read as a field, and not as an alias. -/
theorem readAs_ne_of_lineBreak :
    let ts := [.mark "\x7b", ⟨.name, "a"⟩, .mark ":", ⟨.name, "b"⟩, .mark "\x7d"]
    let v := withGaps ts [" ", " ", " ", " ", ""]
    let w := withGaps ts [" ", "\n", " ", " ", ""]
    render v = "\x7b a : b \x7d".toList ∧ render w = "\x7b a\n: b \x7d".toList ∧
      v.map (·.token) = w.map (·.token) ∧ Spaced v ∧ Spaced w ∧
      Scan.readAs (render v) ≠ Scan.readAs (render w) := by
  decide +kernel

end QueryAssist
