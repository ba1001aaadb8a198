/-! # Blank characters

The characters that count as white space. Main definitions:

* **`isBlank c`** — the 29 white space characters, the four information separators included.
* **`strip cs`** — a text without the blanks at its two ends. -/

namespace QueryAssist

/-- A **blank** is a tab, a line or page break, an information separator or a space of any width. -/
def isBlank (c : Char) : Bool :=
  let n := c.toNat
  (9 ≤ n && n ≤ 13) || (28 ≤ n && n ≤ 32) || n == 0x85 || n == 0xa0 || n == 0x1680 ||
    (0x2000 ≤ n && n ≤ 0x200a) || n == 0x2028 || n == 0x2029 || n == 0x202f || n == 0x205f ||
    n == 0x3000

/-- The text without the blanks at its end. -/
def stripEnd (cs : List Char) : List Char := (cs.reverse.dropWhile isBlank).reverse

/-- The text **stripped** of the blanks at both ends. -/
def strip (cs : List Char) : List Char := stripEnd (cs.dropWhile isBlank)

@[simp] theorem strip_nil : strip [] = [] := rfl

end QueryAssist
