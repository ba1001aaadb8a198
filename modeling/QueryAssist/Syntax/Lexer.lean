import QueryAssist.Syntax.Token
import QueryAssist.Text.Blank
import QueryAssist.Text.Word

/-! # Lexing

Each kind of token has one pattern, and each pattern is a function from the text ahead to the
characters that it takes, if it takes any. Main definitions:

* **`Lexer.name?`**, **`punctuation?`**, **`number?`**, **`string?`**, **`comment?`** — the five
  patterns, each with the longest text of its class.
* **`lex? cs`** — the first pattern that applies, in the order of `TokenKind.all`.
* **`inlineAhead cs`**, **`aliasAhead cs`** — what a selection looks ahead for.

Main statement: `lex?_length_pos`, no token is empty. -/

namespace QueryAssist.Lexer

/-- Names begin with an ASCII letter or an underscore. -/
def isNameStart (c : Char) : Bool := c.isAlpha || c == '_'

/-- Names go on with ASCII letters, digits and underscores. -/
def isNameChar (c : Char) : Bool := c.isAlphanum || c == '_'

/-- A **name** is the longest run of name characters that begins as a name may. -/
def name? : List Char → Option (List Char)
  | c :: cs => if isNameStart c then some (c :: cs.takeWhile isNameChar) else none
  | [] => none

/-- The characters that are a token of their own. -/
def isPunctuation (c : Char) : Bool :=
  ['!', '$', '(', ')', ':', '=', '@', '[', ']', '{', '|', '}'].contains c

/-- **Punctuation** is one of twelve characters, or three dots. -/
def punctuation? : List Char → Option (List Char)
  | '.' :: '.' :: '.' :: _ => some ['.', '.', '.']
  | c :: _ => if isPunctuation c then some [c] else none
  | [] => none

/-- The leading digits of a text. -/
def digits (cs : List Char) : List Char := cs.takeWhile Char.isDigit

/-- The whole part of a number: a lone zero, or digits that do not begin with zero. -/
def whole? : List Char → Option (List Char)
  | c :: cs =>
    if c == '0' then some [c]
    else if c.isDigit then some (c :: digits cs)
    else none
  | [] => none

/-- The fraction after the whole part: a point with any digits, or nothing. -/
def fraction : List Char → List Char
  | '.' :: cs => '.' :: digits cs
  | _ => []

/-- The digits of an exponent after its letter, with an optional sign; at least one digit. -/
def exponentDigits? : List Char → Option (List Char)
  | c :: cs =>
    if c == '+' || c == '-' then
      if (digits cs).isEmpty then none else some (c :: digits cs)
    else if c.isDigit then some (digits (c :: cs))
    else none
  | [] => none

/-- The exponent after the fraction: the letter `e` with its digits, or nothing. -/
def exponent : List Char → List Char
  | c :: cs =>
    if c == 'e' || c == 'E' then
      match exponentDigits? cs with
      | some ds => c :: ds
      | none => []
    else []
  | [] => []

/-- A number without its sign: whole part, fraction, exponent. -/
def unsigned? (cs : List Char) : Option (List Char) :=
  (whole? cs).map fun w =>
    let afterWhole := cs.drop w.length
    let f := fraction afterWhole
    w ++ f ++ exponent (afterWhole.drop f.length)

/-- A **number**, with an optional minus sign. -/
def number? : List Char → Option (List Char)
  | '-' :: cs => (unsigned? cs).map ('-' :: ·)
  | cs => unsigned? cs

/-- Digits of base sixteen, in either case. -/
def isHexDigit (c : Char) : Bool :=
  c.isDigit || ('a' ≤ c && c ≤ 'f') || ('A' ≤ c && c ≤ 'F')

/-- The letters that may follow a backslash on their own. -/
def isEscapeLetter (c : Char) : Bool := ['"', '/', '\\', 'b', 'f', 'n', 'r', 't'].contains c

/-- The **body** of a string literal: the longest run of plain characters and escapes. A quote, or
a backslash that begins no escape, ends it. -/
def stringBody : List Char → List Char
  | '\\' :: 'u' :: a :: b :: c :: d :: cs =>
    if isHexDigit a && isHexDigit b && isHexDigit c && isHexDigit d then
      '\\' :: 'u' :: a :: b :: c :: d :: stringBody cs
    else []
  | '\\' :: e :: cs => if isEscapeLetter e then '\\' :: e :: stringBody cs else []
  | c :: cs => if c == '"' || c == '\\' then [] else c :: stringBody cs
  | [] => []

/-- A **string**: a quote, a body, and a closing quote if one stands there. -/
def string? : List Char → Option (List Char)
  | '"' :: cs =>
    let body := stringBody cs
    match cs.drop body.length with
    | '"' :: _ => some ('"' :: body ++ ['"'])
    | _ => some ('"' :: body)
  | _ => none

/-- A **comment** runs from a hash sign to the end of the line. -/
def comment? : List Char → Option (List Char)
  | '#' :: cs => some ('#' :: cs.takeWhile (· != '\n'))
  | _ => none

/-- The pattern of each kind of token. -/
def pattern : TokenKind → List Char → Option (List Char)
  | .name => name?
  | .punctuation => punctuation?
  | .number => number?
  | .string => string?
  | .comment => comment?

/-- The **token** at the head of a text: the first kind whose pattern applies. -/
def lex? (cs : List Char) : Option Token :=
  TokenKind.all.findSome? fun k => (pattern k cs).map fun t => ⟨k, String.ofList t⟩

/-- Blanks and commas, which a lookahead passes over. -/
def isGap (c : Char) : Bool := isBlank c || c == ','

/-- After `...` an **inline fragment** is ahead if the next thing on the line is the word `on`, a
directive or an opening brace. Gives the text looked at. -/
def inlineAhead (cs : List Char) : Option (List Char) :=
  let gap := cs.takeWhile isGap
  match cs.dropWhile isGap with
  | 'o' :: 'n' :: rest => if startsBoundary rest then some (gap ++ ['o', 'n']) else none
  | c :: _ => if c == '@' || c == '{' then some (gap ++ [c]) else none
  | [] => none

/-- After a name an **alias** is ahead if the next thing on the line is a colon. Gives the text
looked at. -/
def aliasAhead (cs : List Char) : Option (List Char) :=
  match cs.dropWhile isGap with
  | ':' :: _ => some (cs.takeWhile isGap ++ [':'])
  | _ => none

/-- A run of characters that are not blank, at least one. -/
def nonBlankRun (cs : List Char) : Option (List Char) :=
  match cs.takeWhile (! isBlank ·) with
  | [] => none
  | t => some t

/-- One blank character. -/
def oneBlank : List Char → Option (List Char)
  | c :: _ => if isBlank c then some [c] else none
  | [] => none

/-! ## Every pattern takes something -/

theorem name?_ne_nil {cs t : List Char} (h : name? cs = some t) : t ≠ [] := by
  unfold name? at h; split at h <;> grind

theorem punctuation?_ne_nil {cs t : List Char} (h : punctuation? cs = some t) : t ≠ [] := by
  unfold punctuation? at h; split at h <;> grind

theorem whole?_ne_nil {cs t : List Char} (h : whole? cs = some t) : t ≠ [] := by
  unfold whole? at h; grind

theorem unsigned?_ne_nil {cs t : List Char} (h : unsigned? cs = some t) : t ≠ [] := by
  obtain ⟨w, hw, rfl⟩ := Option.map_eq_some_iff.1 h
  simp [whole?_ne_nil hw]

theorem number?_ne_nil {cs t : List Char} (h : number? cs = some t) : t ≠ [] := by
  unfold number? at h
  split at h
  · obtain ⟨u, -, rfl⟩ := Option.map_eq_some_iff.1 h
    simp
  · exact unsigned?_ne_nil h

theorem string?_ne_nil {cs t : List Char} (h : string? cs = some t) : t ≠ [] := by
  unfold string? at h; grind

theorem comment?_ne_nil {cs t : List Char} (h : comment? cs = some t) : t ≠ [] := by
  unfold comment? at h; grind

/-- A pattern that applies takes at least one character. -/
theorem pattern_ne_nil {k : TokenKind} {cs t : List Char} (h : pattern k cs = some t) : t ≠ [] := by
  cases k
  · exact name?_ne_nil h
  · exact punctuation?_ne_nil h
  · exact number?_ne_nil h
  · exact string?_ne_nil h
  · exact comment?_ne_nil h

/-- A token is not empty. -/
theorem lex?_length_pos {cs : List Char} {t : Token} (h : lex? cs = some t) :
    0 < t.text.length := by
  obtain ⟨k, -, hk⟩ := List.exists_of_findSome?_eq_some h
  obtain ⟨u, hu, rfl⟩ := Option.map_eq_some_iff.1 hk
  simpa using List.length_pos_iff.2 (pattern_ne_nil hu)

/-- Text is either a run of characters that are not blank or begins with a blank. -/
theorem oneBlank_of_nonBlankRun {cs : List Char} (h : cs ≠ []) (hn : nonBlankRun cs = none) :
    (oneBlank cs).isSome := by
  cases cs with
  | nil => exact absurd rfl h
  | cons c cs =>
    unfold nonBlankRun at hn
    unfold oneBlank
    cases hb : isBlank c <;> simp_all

end QueryAssist.Lexer
