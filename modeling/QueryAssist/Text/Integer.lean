import QueryAssist.Text.Blank
import QueryAssist.Text.DecimalDigit

/-! # Integers in a text

Main definition:

* **`readInteger`** — the integer that a text writes, in decimal digits of any script, with a sign
  and with single underscores between digits if wanted. -/

namespace QueryAssist

/-- The blanks that may stand around an integer. The information separators are not among them. -/
def isNumberBlank (c : Char) : Bool := isBlank c && !(28 ≤ c.toNat && c.toNat ≤ 31)

/-- The text without the blanks that may stand around an integer. -/
def stripNumber (cs : List Char) : List Char :=
  ((cs.dropWhile isNumberBlank).reverse.dropWhile isNumberBlank).reverse

/-- The digits of a number, which begins and ends with one. -/
def numberDigits : List Char → Option (List Nat)
  | [] => none
  | [c] => (digitValue? c).map ([·])
  | c :: '_' :: cs => do
    let d ← digitValue? c
    pure (d :: (← numberDigits cs))
  | c :: cs => do
    let d ← digitValue? c
    pure (d :: (← numberDigits cs))

/-- The most digits that are read. -/
def digitLimit : Nat := 4300

/-- The number of some digits. -/
def ofDigits (ds : List Nat) : Nat := ds.foldl (fun n d => 10 * n + d) 0

/-- The **integer** that a text writes. -/
def readInteger (cs : List Char) : Option Int :=
  let body := stripNumber cs
  let (negative, digits) := match body with
    | '-' :: ds => (true, ds)
    | '+' :: ds => (false, ds)
    | ds => (false, ds)
  (numberDigits digits).bind fun ds =>
    if digitLimit < ds.length then none
    else some (if negative then -(ofDigits ds : Int) else (ofDigits ds : Int))

end QueryAssist
