import QueryAssist.Text.Hexadecimal
import QueryAssist.Text.Printable

/-! # Quoted texts in messages

Messages put a text in quotes so that each character of it can be seen. Main definition:

* **`quoted s`** — the text in single quotes, or in double quotes if it has single quotes only. -/

namespace QueryAssist

/-- A number in two hexadecimal digits. -/
def hexText2 (n : Nat) : List Char := [hexDigit (n / 16 % 16), hexDigit (n % 16)]

/-- A character as it stands in quotes of a given kind: marks that would end the text, the backslash
and what cannot be printed have an escape. -/
def visible (quote : Char) (c : Char) : List Char :=
  if c = quote ∨ c = '\\' then ['\\', c]
  else if c = '\n' then ['\\', 'n']
  else if c = '\r' then ['\\', 'r']
  else if c = '\t' then ['\\', 't']
  else if isPrintable c then [c]
  else if c.toNat < 0x100 then '\\' :: 'x' :: hexText2 c.toNat
  else if c.toNat < 0x10000 then '\\' :: 'u' :: hexText4 c.toNat
  else '\\' :: 'U' :: hexText4 (c.toNat / 0x10000) ++ hexText4 c.toNat

/-- The quotes that need the fewest escapes. -/
def quoteFor (cs : List Char) : Char := if cs.contains '\'' && !cs.contains '"' then '"' else '\''

/-- A text **in quotes**. -/
def quoted (s : String) : String :=
  let q := quoteFor s.toList
  String.ofList (q :: s.toList.flatMap (visible q) ++ [q])

end QueryAssist
