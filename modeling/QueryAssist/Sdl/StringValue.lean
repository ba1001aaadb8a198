import QueryAssist.Text.Hexadecimal
import QueryAssist.Text.Lines

/-! # String values

The two ways to write a string in a schema definition. Main definitions:

* **`StringValue.quoted?`** — a string on one line, with escapes.
* **`StringValue.block?`** — a string over several lines, whose common indentation is not part of
  it. -/

namespace QueryAssist.StringValue

/-- The character that a backslash and a letter stand for. -/
def simpleEscape? : Char → Option Char
  | '"' => some '"'
  | '\\' => some '\\'
  | '/' => some '/'
  | 'b' => some '\x08'
  | 'f' => some '\x0c'
  | 'n' => some '\n'
  | 'r' => some '\r'
  | 't' => some '\t'
  | _ => none

/-- The character of a code point in braces, of one to eight digits, with the text after it. -/
def bracedEscape? (cs : List Char) : Option (Char × List Char) :=
  let digits := cs.takeWhile fun c => (hexValue? c).isSome
  if digits.isEmpty || 8 < digits.length then none
  else
    match cs.drop digits.length with
    | '}' :: rest => ((readHex digits).bind character?).map (·, rest)
    | _ => none

/-- The character of four digits, or of two times four that are a surrogate pair, with the text
after it. -/
def fixedEscape? (cs : List Char) : Option (Char × List Char) :=
  (readHex4 cs).bind fun (n, rest) =>
    match character? n, rest with
    | some c, _ => some (c, rest)
    | none, '\\' :: 'u' :: more =>
      (readHex4 more).bind fun (m, rest) => (pairCharacter? n m).map (·, rest)
    | none, _ => none

/-- The character that an escape stands for, with the text after it; the backslash is read
already. -/
def escape? : List Char → Option (Char × List Char)
  | 'u' :: '{' :: cs => bracedEscape? cs
  | 'u' :: cs => fixedEscape? cs
  | c :: cs => (simpleEscape? c).map (·, cs)
  | [] => none

/-- The **quoted string** whose opening quote is read already, with the text after the closing one.
It ends on its line. -/
def quoted? (cs : List Char) : Option (List Char × List Char) :=
  match cs with
  | [] => none
  | '"' :: rest => some ([], rest)
  | '\\' :: more =>
    (escape? more).bind fun (c, rest) =>
      if _h : rest.length ≤ more.length then (quoted? rest).map fun (t, r) => (c :: t, r) else none
  | c :: rest =>
    if c = '\n' ∨ c = '\r' then none else (quoted? rest).map fun (t, r) => (c :: t, r)
termination_by cs.length
decreasing_by all_goals (simp only [List.length_cons]; omega)

/-- The raw text of a block string up to its three closing quotes, with the text after them. Three
quotes after a backslash do not close it. -/
def rawBlock? : List Char → Option (List Char × List Char)
  | [] => none
  | '"' :: '"' :: '"' :: rest => some ([], rest)
  | '\\' :: '"' :: '"' :: '"' :: rest =>
    (rawBlock? rest).map fun (t, r) => ('"' :: '"' :: '"' :: t, r)
  | c :: rest => (rawBlock? rest).map fun (t, r) => (c :: t, r)

/-- The number of spaces and tabs that a line begins with. -/
def indent (l : List Char) : Nat := (l.takeWhile fun c => c == ' ' || c == '\t').length

/-- Whether a line has nothing but spaces and tabs. -/
def isVacant (l : List Char) : Bool := indent l == l.length

/-- The indentation that all lines share that have anything else. -/
def commonIndent (ls : List (List Char)) : Nat :=
  (((ls.filter fun l => !isVacant l).map indent).min?).getD 0

/-- The lines without the vacant ones at both ends. -/
def trimLines (ls : List (List Char)) : List (List Char) :=
  (((ls.dropWhile isVacant).reverse).dropWhile isVacant).reverse

/-- The lines without the indentation that all but the first share, and without the vacant ones at
both ends. -/
def dedent : List (List Char) → List (List Char)
  | [] => []
  | l :: ls => trimLines (l :: ls.map (·.drop (commonIndent ls)))

/-- The **block string** whose three opening quotes are read already, with the text after the
closing ones. -/
def block? (cs : List Char) : Option (List Char × List Char) :=
  (rawBlock? cs).map fun (t, rest) => (joinLines (dedent (splitLines (unifyBreaks t))), rest)

end QueryAssist.StringValue
