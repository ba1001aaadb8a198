import QueryAssist.Sdl.StringValue
import QueryAssist.Syntax.Token

/-! # Lexemes of a schema definition

A schema definition is read as a whole, across its lines, and a single character out of place makes
it unreadable. Main definitions:

* **`Lexeme`** — a name, a mark, a number or a string.
* **`Lexeme.all`** — the lexemes of a text, up to a place where there is none. -/

namespace QueryAssist

/-- A **lexeme** of a schema definition. -/
inductive Lexeme where
  /-- A name or keyword. -/
  | name (text : String)
  /-- A punctuation mark. -/
  | mark (text : String)
  /-- A number, whose value is of no concern. -/
  | number
  /-- A string by its value. -/
  | string (value : String)
  /-- A place where none of these can be read. -/
  | misfit
  deriving DecidableEq, Repr, Inhabited

namespace Lexeme

/-- The characters that begin a name: ASCII letters and the underscore. -/
def isNameStart (c : Char) : Bool := c.isAlpha || c == '_'

/-- The characters of a name. -/
def isNamePart (c : Char) : Bool := isNameStart c || c.isDigit

/-- Whether a text is a name. -/
def isName : List Char → Bool
  | [] => false
  | c :: cs => isNameStart c && cs.all isNamePart

/-- The marks of one character. -/
def isMark (c : Char) : Bool :=
  ['!', '$', '&', '(', ')', ':', '=', '@', '[', ']', '{', '|', '}'].contains c

/-- The text after a run of digits that is not empty. -/
def afterDigits? (cs : List Char) : Option (List Char) :=
  if cs.head?.any Char.isDigit then some (cs.dropWhile Char.isDigit) else none

/-- The text after the digits before the point: a zero stands alone. -/
def afterInteger? : List Char → Option (List Char)
  | '0' :: cs => if cs.head?.any Char.isDigit then none else some cs
  | cs => afterDigits? cs

/-- The text after a fraction, if there is one. -/
def afterFraction? : List Char → Option (List Char)
  | '.' :: cs => afterDigits? cs
  | cs => some cs

/-- The text after an exponent, if there is one. -/
def afterExponent? : List Char → Option (List Char)
  | c :: cs =>
    if c = 'e' ∨ c = 'E' then
      match cs with
      | '+' :: ds | '-' :: ds => afterDigits? ds
      | ds => afterDigits? ds
    else some (c :: cs)
  | [] => some []

/-- The text after a number. Neither a point nor a name may follow it at once. -/
def afterNumber? (cs : List Char) : Option (List Char) := do
  let unsigned := match cs with
    | '-' :: ds => ds
    | ds => ds
  let rest ← (← (← afterInteger? unsigned) |> afterFraction?) |> afterExponent?
  if rest.head?.any fun c => c == '.' || isNameStart c then none else some rest

/-- The lexeme at the start of a text that begins with no ignored character and no comment, with
the text after it. -/
def read? : List Char → Option (Lexeme × List Char)
  | '.' :: '.' :: '.' :: rest => some (.mark "...", rest)
  | '"' :: '"' :: '"' :: rest =>
    (StringValue.block? rest).map fun (t, r) => (.string (String.ofList t), r)
  | '"' :: rest => (StringValue.quoted? rest).map fun (t, r) => (.string (String.ofList t), r)
  | c :: rest =>
    if isMark c then some (.mark (String.singleton c), rest)
    else if isNameStart c then
      some (.name (String.ofList (c :: rest.takeWhile isNamePart)), rest.dropWhile isNamePart)
    else if c.isDigit || c == '-' then (afterNumber? (c :: rest)).map (.number, ·)
    else none
  | [] => none

/-- The text from the end of the line on. -/
def afterLine (cs : List Char) : List Char := cs.dropWhile fun c => !(c == '\n' || c == '\r')

/-- **All lexemes** of a text. From a misfit on nothing more is read. -/
def all (cs : List Char) : List Lexeme :=
  match cs with
  | [] => []
  | c :: rest =>
    if isIgnored c then all rest
    else if c = '#' then all (afterLine rest)
    else
      match read? (c :: rest) with
      | some (t, after) => if _h : after.length ≤ rest.length then t :: all after else [.misfit]
      | none => [.misfit]
termination_by cs.length
decreasing_by
  · simp
  · have := (List.dropWhile_sublist (fun c => !(c == '\n' || c == '\r')) (l := rest)).length_le
    simp only [afterLine, List.length_cons]
    omega
  · simp only [List.length_cons]
    omega

end Lexeme

end QueryAssist
