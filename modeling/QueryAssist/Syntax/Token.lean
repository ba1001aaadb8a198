/-! # Tokens of a query document

Main definitions:

* **`TokenKind`** — names, punctuation, numbers, strings and comments.
* **`Token`** — a kind with the exact text that was read.
* **`isIgnored c`** — the characters that only separate tokens. -/

namespace QueryAssist

/-- The **kinds** of token. -/
inductive TokenKind where
  | name
  | punctuation
  | number
  | string
  | comment
  deriving DecidableEq, Repr, Inhabited

namespace TokenKind

/-- The kinds in the order in which the lexer tries them. -/
def all : List TokenKind := [name, punctuation, number, string, comment]

/-- The written name of a kind. -/
def label : TokenKind → String
  | name => "Name"
  | punctuation => "Punctuation"
  | number => "Number"
  | string => "String"
  | comment => "Comment"

end TokenKind

/-- A **token**: its kind and its text as written. -/
structure Token where
  /-- What the text was read as. -/
  kind : TokenKind
  /-- The characters of the token. -/
  text : String
  deriving DecidableEq, Repr, Inhabited

/-- A character is **ignored** between tokens if it is a space, a tab, a comma, a line break or the
byte order mark. -/
def isIgnored (c : Char) : Bool :=
  c == ' ' || c == '\t' || c == ',' || c == '\n' || c == '\r' || c == '\ufeff'

end QueryAssist
