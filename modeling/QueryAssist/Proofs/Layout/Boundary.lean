import QueryAssist.Syntax.Lexer

/-! # Where a token ends

A token that is read from its own text is read from a longer text too, if an ignored character
follows it. Main definitions:

* **`isSeparator c`** — the characters that stand between tokens.
* **`EndsToken r`** — a text that is empty or begins with an ignored character.
* **`EndsWord r`** — such a text, or one that begins with a quote.
* **`Token.IsWhole`** — a token that its own text gives back.
* **`Token.IsClosed`** — a string with its closing quote, or another token.

Main statements: `Token.IsWhole.lex?_append`, and `Token.IsWhole.exists_start`, how a token
begins. -/

namespace QueryAssist

/-- A **separator** is a space, a tab, a comma or a character that breaks a line. -/
def isSeparator (c : Char) : Bool := [' ', '\t', ',', '\n', '\r'].contains c

/-- A text **ends a token** before it if it is empty or begins with an ignored character. -/
def EndsToken (r : List Char) : Prop := ∀ c ∈ r.head?, isIgnored c = true

/-- A text **ends a word** before it if it is empty or begins with an ignored character or a quote.
It ends numbers and punctuation as well, but no string. -/
def EndsWord (r : List Char) : Prop := ∀ c ∈ r.head?, isIgnored c = true ∨ c = '"'

/-- What ends a token ends a word. -/
theorem EndsToken.endsWord {r : List Char} (h : EndsToken r) : EndsWord r :=
  fun c hc => .inl (h c hc)

/-- A quote ends a word. -/
theorem endsWord_quote (r : List Char) : EndsWord ('"' :: r) := by
  rintro c hc
  exact .inr (Option.some.inj hc).symm

/-- No separator is in a class of characters that has none of the five. -/
theorem not_of_isSeparator {p : Char → Bool}
    (h : ([' ', '\t', ',', '\n', '\r'].all fun c => !p c) = true) {c : Char}
    (hc : isSeparator c = true) : p c = false := by
  have := List.all_eq_true.1 h c (by simpa [isSeparator] using hc)
  simpa using this

/-- Nor is an ignored character, if the class does not have the byte order mark either. -/
theorem not_of_isIgnored {p : Char → Bool}
    (h : ([' ', '\t', ',', '\n', '\r', '\ufeff'].all fun c => !p c) = true) {c : Char}
    (hc : isIgnored c = true) : p c = false := by
  have := List.all_eq_true.1 h c (by simpa [isIgnored, or_assoc] using hc)
  simpa using this

/-- A separator is ignored. -/
theorem isIgnored_of_isSeparator {c : Char} (h : isSeparator c = true) : isIgnored c = true := by
  have := not_of_isSeparator (p := fun c => !isIgnored c) (by decide) h
  simpa using this

/-- A lookahead passes over separators. -/
theorem isGap_of_isSeparator {c : Char} (h : isSeparator c = true) : Lexer.isGap c = true := by
  have := not_of_isSeparator (p := fun c => !Lexer.isGap c) (by decide) h
  simpa using this

/-- What is taken of a text does not change if nothing is taken of what comes after it. -/
theorem takeWhile_append_of_nil {p : Char → Bool} {r : List Char} (h : r.takeWhile p = [])
    (cs : List Char) : (cs ++ r).takeWhile p = cs.takeWhile p := by
  rw [List.takeWhile_append, h, List.append_nil]
  split
  · next hl => exact ((List.takeWhile_prefix p).eq_of_length hl).symm
  · rfl

/-- Nor is what begins a text that ends a word, if the class does not have the quote either. -/
theorem EndsWord.not_of_head {p : Char → Bool}
    (hp : ([' ', '\t', ',', '\n', '\r', '\ufeff', '"'].all fun c => !p c) = true) {c : Char}
    {r : List Char} (h : EndsWord (c :: r)) : p c = false := by
  have := List.all_eq_true.1 hp c (by simpa [isIgnored, or_assoc] using h c rfl)
  simpa using this

/-- A class without ignored characters and the quote does not reach into a text that ends a word. -/
theorem EndsWord.takeWhile_eq_nil {p : Char → Bool} {r : List Char} (h : EndsWord r)
    (hp : ([' ', '\t', ',', '\n', '\r', '\ufeff', '"'].all fun c => !p c) = true) :
    r.takeWhile p = [] := by
  cases r with
  | nil => rfl
  | cons c r => rw [List.takeWhile_cons, h.not_of_head hp]; rfl

namespace Lexer

variable {u r : List Char}

/-! ### Every other pattern than a string stops at an ignored character or a quote -/

/-- Digits end where a word ends. -/
theorem digits_append (hr : EndsWord r) (cs : List Char) : digits (cs ++ r) = digits cs :=
  takeWhile_append_of_nil (hr.takeWhile_eq_nil (by decide)) cs

/-- A name ends where a word ends. -/
theorem name?_append (hu : u ≠ []) (hr : EndsWord r) : name? (u ++ r) = name? u := by
  cases u with
  | nil => exact absurd rfl hu
  | cons c cs =>
    have := takeWhile_append_of_nil (hr.takeWhile_eq_nil (p := isNameChar) (by decide)) cs
    simp only [List.cons_append, name?, this]

/-- So does a punctuation mark. -/
theorem punctuation?_append (hu : u ≠ []) (hr : EndsWord r) :
    punctuation? (u ++ r) = punctuation? u := by
  have hdot : ∀ c ∈ r.head?, c ≠ '.' := by
    rintro c hc rfl
    exact absurd (hr '.' hc) (by decide)
  -- Three characters are looked at for the three dots, so shorter tokens see into the rest.
  match u, hu with
  | [c], _ =>
    cases r with
    | nil => rfl
    | cons d r =>
      have := hdot d rfl
      simp [punctuation?, this]
  | [c, d], _ =>
    cases r with
    | nil => rfl
    | cons e r =>
      have := hdot e rfl
      simp [punctuation?, this]
  | c :: d :: e :: cs, _ =>
    by_cases h : c = '.' ∧ d = '.' ∧ e = '.'
    · obtain ⟨rfl, rfl, rfl⟩ := h
      rfl
    · have hc : ∀ cs, punctuation? (c :: d :: e :: cs) =
          if isPunctuation c then some [c] else none := by
        intro cs
        simp only [punctuation?]
        grind
      rw [List.cons_append, List.cons_append, List.cons_append, hc, hc]

/-- So do the digits before the point. -/
theorem whole?_append (hu : u ≠ []) (hr : EndsWord r) : whole? (u ++ r) = whole? u := by
  cases u with
  | nil => exact absurd rfl hu
  | cons c cs => simp only [List.cons_append, whole?, digits_append hr]

/-- So does a fraction. -/
theorem fraction_append (hr : EndsWord r) (cs : List Char) :
    fraction (cs ++ r) = fraction cs := by
  cases cs with
  | nil =>
    cases r with
    | nil => rfl
    | cons c r =>
      have hc : c ≠ '.' := by
        rintro rfl
        exact absurd (hr '.' rfl) (by decide)
      simp [fraction, hc]
  | cons c cs =>
    by_cases hc : c = '.'
    · subst hc
      simp only [List.cons_append, fraction, digits_append hr]
    · simp [fraction, hc]

/-- So do the digits of an exponent. -/
theorem exponentDigits?_append (hr : EndsWord r) (cs : List Char) :
    exponentDigits? (cs ++ r) = exponentDigits? cs := by
  cases cs with
  | nil =>
    cases r with
    | nil => rfl
    | cons c r =>
      -- What ends the token is neither a sign nor a digit.
      have hs := hr.not_of_head (p := fun c => c == '+' || c == '-') (by decide)
      have hd := hr.not_of_head (p := Char.isDigit) (by decide)
      simp only [List.nil_append, exponentDigits?, hs, hd, Bool.false_eq_true, if_false]
  | cons c cs =>
    have := digits_append hr (c :: cs)
    rw [List.cons_append] at this
    simp only [List.cons_append, exponentDigits?, digits_append hr, this]

/-- So does an exponent. -/
theorem exponent_append (hr : EndsWord r) (cs : List Char) :
    exponent (cs ++ r) = exponent cs := by
  cases cs with
  | nil =>
    cases r with
    | nil => rfl
    | cons c r =>
      have he := hr.not_of_head (p := fun c => c == 'e' || c == 'E') (by decide)
      simp only [List.nil_append, exponent, he, Bool.false_eq_true, if_false]
  | cons c cs => simp only [List.cons_append, exponent, exponentDigits?_append hr]

/-- The digits before the point are not more than the text. -/
theorem length_whole?_le {w : List Char} (h : whole? u = some w) : w.length ≤ u.length := by
  cases u with
  | nil => cases h
  | cons c cs =>
    have := (List.takeWhile_prefix Char.isDigit (l := cs)).length_le
    simp only [whole?] at h
    split at h
    · obtain rfl := Option.some.inj h
      simp
    · split at h
      · obtain rfl := Option.some.inj h
        simpa [digits] using this
      · cases h

/-- After the fraction at most what stood after the whole part is left. -/
theorem drop_fraction_append (cs : List Char) :
    (cs ++ r).drop (fraction cs).length = cs.drop (fraction cs).length ++ r := by
  refine List.drop_append_of_le_length ?_
  unfold fraction
  split
  · next cs =>
    have := (List.takeWhile_prefix Char.isDigit (l := cs)).length_le
    simpa [digits] using this
  · exact Nat.zero_le _

/-- A number without a sign ends where a word ends. -/
theorem unsigned?_append (hu : u ≠ []) (hr : EndsWord r) : unsigned? (u ++ r) = unsigned? u := by
  unfold unsigned?
  rw [whole?_append hu hr]
  refine Option.map_congr fun w hw => ?_
  rw [List.drop_append_of_le_length (length_whole?_le hw)]
  simp only [fraction_append hr, drop_fraction_append, exponent_append hr]

/-- So does a number. -/
theorem number?_append (hu : u ≠ []) (hr : EndsWord r) : number? (u ++ r) = number? u := by
  cases u with
  | nil => exact absurd rfl hu
  | cons c cs =>
    by_cases hc : c = '-'
    · subst hc
      cases cs with
      | nil =>
        cases r with
        | nil => rfl
        | cons d r =>
          have h0 := hr.not_of_head (p := fun c => c == '0') (by decide)
          have hd := hr.not_of_head (p := Char.isDigit) (by decide)
          simp only [List.cons_append, List.nil_append, number?, unsigned?, whole?, h0, hd,
            Bool.false_eq_true, if_false, Option.map_none]
      | cons d cs =>
        have := unsigned?_append (u := d :: cs) (by simp) hr
        rw [List.cons_append] at this
        simp only [List.cons_append, number?, this]
    · have := unsigned?_append hu hr
      rw [List.cons_append] at this ⊢
      simpa [number?, hc] using this

/-- A body that is taken whole is taken whole before a closing quote. -/
theorem stringBody_append {b : List Char} (h : stringBody b = b) (r : List Char) :
    stringBody (b ++ '"' :: r) = b := by
  -- The cases are those of the function: an escaped code point, another escape, a plain character.
  fun_induction stringBody b with
  | case1 c₁ c₂ c₃ c₄ cs hx ih =>
    have hcs : stringBody cs = cs := by simpa using h
    simp [stringBody, hx, ih hcs]
  | case2 => cases h
  | case3 e cs hu he ih =>
    have hcs : stringBody cs = cs := by simpa using h
    have hne : e ≠ 'u' := by
      rintro rfl
      exact absurd he (by decide)
    simp [stringBody, he, hne, ih hcs]
  | case4 => cases h
  | case5 => cases h
  | case6 c cs hu he hc ih =>
    have hcs : stringBody cs = cs := by simpa using h
    have hc' : c ≠ '\\' := by
      rintro rfl
      exact absurd hc (by decide)
    rw [List.cons_append, stringBody]
    · simp [hc, ih hcs]
    · simp [hc']
    · simp [hc']
  | case7 => rfl

/-- A string with its closing quote is read before any text. -/
theorem string?_closed {b : List Char} (h : stringBody b = b) (r : List Char) :
    string? ('"' :: (b ++ '"' :: r)) = some ('"' :: (b ++ ['"'])) := by
  simp only [string?, stringBody_append h, List.drop_left, List.cons_append]

/-! ### How tokens begin -/

/-- The characters with which a token that is no comment begins. -/
def isStart (c : Char) : Bool :=
  isNameStart c || isPunctuation c || c == '.' || c == '-' || c.isDigit || c == '"'

/-- The lexer tries its patterns in order. -/
theorem lex?_eq (cs : List Char) :
    lex? cs = ((name? cs).map fun t => ⟨.name, String.ofList t⟩).or
      (((punctuation? cs).map fun t => ⟨.punctuation, String.ofList t⟩).or
      (((number? cs).map fun t => ⟨.number, String.ofList t⟩).or
      (((string? cs).map fun t => ⟨.string, String.ofList t⟩).or
      ((comment? cs).map fun t => ⟨.comment, String.ofList t⟩)))) := by
  simp only [lex?, TokenKind.all, List.findSome?_cons, List.findSome?_nil, pattern]
  cases name? cs <;> cases punctuation? cs <;> cases number? cs <;> cases string? cs <;>
    cases comment? cs <;> rfl

/-- A token that is no comment begins with a start. -/
theorem isStart_of_lex? {c : Char} {cs : List Char} {t : Token} (h : lex? (c :: cs) = some t)
    (ht : t.kind ≠ .comment) : isStart c = true := by
  have hn : isNameStart c = false → name? (c :: cs) = none := by
    intro hc
    simp [name?, hc]
  have hp : c ≠ '.' → isPunctuation c = false → punctuation? (c :: cs) = none := by
    intro hd hc
    simp [punctuation?, hd, hc]
  have hd : c ≠ '-' → c.isDigit = false → number? (c :: cs) = none := by
    intro hm hc
    have h0 : c ≠ '0' := by
      rintro rfl
      exact absurd hc (by decide)
    simp [number?, unsigned?, whole?, hm, hc, h0]
  have hs : c ≠ '"' → string? (c :: cs) = none := by
    intro hq
    simp [string?, hq]
  refine Decidable.byContradiction fun hc => ?_
  simp only [isStart, Bool.or_eq_true, not_or, Bool.not_eq_true, beq_eq_false_iff_ne] at hc
  obtain ⟨⟨⟨⟨⟨h1, h2⟩, h3⟩, h4⟩, h5⟩, h6⟩ := hc
  rw [lex?_eq, hn h1, hp h3 h2, hd h4 h5, hs h6] at h
  simp only [Option.map_none, Option.none_or, Option.map_eq_some_iff] at h
  obtain ⟨u, -, rfl⟩ := h
  exact ht rfl

/-- Tokens begin with ASCII characters. -/
theorem toNat_lt_of_isStart {c : Char} (h : isStart c = true) : c.toNat < 128 := by
  -- A character past ASCII is none of those that a token can begin with.
  refine Decidable.byContradiction fun hc => ?_
  have hne : ∀ d : Char, d.toNat < 128 → c ≠ d := by
    rintro d hd rfl
    exact hc hd
  have hn : isNameStart c = false := by
    have hv : c.toNat = c.val.toNat := rfl
    have hc : isNameStart c = (decide (c.val ≥ 'A'.val ∧ c.val ≤ 'Z'.val) ||
        (decide (c.val ≥ 'a'.val) && decide (c.val ≤ 'z'.val)) || c == '_') := rfl
    simp only [hc, UInt32.le_iff_toNat_le, ge_iff_le, Bool.or_eq_false_iff, Bool.and_eq_false_iff,
      decide_eq_false_iff_not, beq_eq_false_iff_ne]
    have : 'Z'.val.toNat = 90 := rfl
    have : 'z'.val.toNat = 122 := rfl
    exact ⟨⟨by omega, by omega⟩, hne '_' (by decide)⟩
  have hd : c.isDigit = false := by
    have hv : c.toNat = c.val.toNat := rfl
    simp only [Char.isDigit, UInt32.le_iff_toNat_le, ge_iff_le, Bool.and_eq_false_iff,
      decide_eq_false_iff_not]
    have : '9'.val.toNat = 57 := rfl
    omega
  have hp : isPunctuation c = false := by
    simp only [isPunctuation, List.contains_cons, List.contains_nil, Bool.or_false,
      Bool.or_eq_false_iff, beq_eq_false_iff_ne]
    refine ⟨?_, ?_, ?_, ?_, ?_, ?_, ?_, ?_, ?_, ?_, ?_, ?_⟩ <;> exact hne _ (by decide)
  have h1 := hne '.' (by decide)
  have h2 := hne '-' (by decide)
  have h3 := hne '"' (by decide)
  simp [isStart, hn, hd, hp, h1, h2, h3] at h

/-- No token begins with a character that separates tokens. -/
theorem not_isIgnored_of_isStart {c : Char} (h : isStart c = true) :
    isIgnored c = false ∧ isGap c = false := by
  -- Tokens begin with ASCII characters, so all of these can be tried.
  have hall : ∀ n < 128, isStart (Char.ofNat n) = true →
      isIgnored (Char.ofNat n) = false ∧ isGap (Char.ofNat n) = false := by decide
  have := hall c.toNat (toNat_lt_of_isStart h)
  rw [Char.ofNat_toNat] at this
  exact this h

end Lexer

/-- A token is **whole** if it is no comment, has no line break in it and is what its text is read
as. -/
structure Token.IsWhole (t : Token) : Prop where
  lexed : Lexer.lex? t.text.toList = some t
  notComment : t.kind ≠ .comment
  oneLine : '\n' ∉ t.text.toList

/-- A token is **closed** unless it is a string without its closing quote. -/
def Token.IsClosed (t : Token) : Prop :=
  t.kind = .string → ∃ b, t.text.toList = '"' :: (b ++ ['"']) ∧ Lexer.stringBody b = b

instance (t : Token) : Decidable t.IsWhole :=
  decidable_of_iff (Lexer.lex? t.text.toList = some t ∧ t.kind ≠ .comment ∧ '\n' ∉ t.text.toList)
    ⟨fun ⟨hl, hn, ho⟩ => ⟨hl, hn, ho⟩, fun h => ⟨h.lexed, h.notComment, h.oneLine⟩⟩

/-- The text between the quotes is all but the first and the last character. -/
theorem Token.isClosed_iff (t : Token) :
    t.IsClosed ↔ t.kind = .string → t.text.toList = '"' :: (t.text.toList.tail.dropLast ++ ['"']) ∧
      Lexer.stringBody t.text.toList.tail.dropLast = t.text.toList.tail.dropLast := by
  refine forall_congr' fun _ => ⟨?_, fun h => ⟨_, h⟩⟩
  rintro ⟨b, ht, hb⟩
  have hbody : t.text.toList.tail.dropLast = b := by
    rw [ht]
    simp
  rw [hbody]
  exact ⟨ht, hb⟩

instance (t : Token) : Decidable t.IsClosed := decidable_of_iff _ t.isClosed_iff.symm

namespace Token.IsWhole

variable {t : Token}

/-- A whole token has some characters. -/
theorem toList_ne_nil (h : t.IsWhole) : t.text.toList ≠ [] := by
  intro he
  have := h.lexed
  rw [he] at this
  cases this

/-- A whole token begins like one. -/
theorem exists_start (h : t.IsWhole) :
    ∃ c cs, t.text.toList = c :: cs ∧ Lexer.isStart c = true := by
  obtain ⟨c, cs, he⟩ := List.exists_cons_of_ne_nil h.toList_ne_nil
  exact ⟨c, cs, he, Lexer.isStart_of_lex? (he ▸ h.lexed) h.notComment⟩

/-- A whole token is **read before an ignored character**; one that is not closed, at the end of a
line. -/
theorem lex?_append (h : t.IsWhole) {r : List Char} (hr : EndsToken r) (hc : t.IsClosed ∨ r = []) :
    Lexer.lex? (t.text.toList ++ r) = some t := by
  obtain hc | rfl := hc
  -- The first pattern that matches gives the token, and those before it match neither text.
  · have hne := h.toList_ne_nil
    have hl := h.lexed
    rw [Lexer.lex?_eq] at hl ⊢
    rw [Lexer.name?_append hne hr.endsWord, Lexer.punctuation?_append hne hr.endsWord,
      Lexer.number?_append hne hr.endsWord]
    cases hn : Lexer.name? t.text.toList with
    | some u => rw [hn] at hl; exact hl
    | none =>
      cases hp : Lexer.punctuation? t.text.toList with
      | some u => rw [hn, hp] at hl; exact hl
      | none =>
        cases hd : Lexer.number? t.text.toList with
        | some u => rw [hn, hp, hd] at hl; exact hl
        | none =>
          rw [hn, hp, hd] at hl
          simp only [Option.map_none, Option.none_or] at hl ⊢
          cases hs : Lexer.string? t.text.toList with
          | none =>
            rw [hs] at hl
            simp only [Option.map_none, Option.none_or, Option.map_eq_some_iff] at hl
            obtain ⟨u, -, he⟩ := hl
            exact absurd (congrArg Token.kind he).symm h.notComment
          | some u =>
            rw [hs] at hl
            have he : (⟨.string, String.ofList u⟩ : Token) = t := Option.some.inj hl
            obtain ⟨b, hb, hbody⟩ := hc (congrArg Token.kind he).symm
            have := Lexer.string?_closed hbody r
            rw [hb, List.cons_append, List.append_assoc, List.singleton_append, this, ← hb]
            simp only [Option.map_some, Option.some_or, String.ofList_toList]
            rw [← he]
  · rw [List.append_nil]
    exact h.lexed

end Token.IsWhole

end QueryAssist
