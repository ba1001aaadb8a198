/-! # Hexadecimal digits and code points

Main definitions:

* **`hexValue?`** — the value of a hexadecimal digit.
* **`readHex`** — the number that a run of such digits writes.
* **`hexText4`** — a number in four hexadecimal digits.
* **`character?`** — the character of a code point.
* **`units`** — the 16 bit code units of a character: one, or a pair of surrogates.
* **`pairCharacter?`** — the character that two surrogate code units stand for together. -/

namespace QueryAssist

/-- The value of a hexadecimal digit of either case. -/
def hexValue? (c : Char) : Option Nat :=
  if '0' ≤ c && c ≤ '9' then some (c.toNat - '0'.toNat)
  else if 'a' ≤ c && c ≤ 'f' then some (c.toNat - 'a'.toNat + 10)
  else if 'A' ≤ c && c ≤ 'F' then some (c.toNat - 'A'.toNat + 10)
  else none

/-- The number that a list of hexadecimal digits writes; none if it has another character. -/
def readHex (cs : List Char) : Option Nat :=
  cs.foldl (fun n? c => n?.bind fun n => (hexValue? c).map (16 * n + ·)) (some 0)

/-- The number written by the first four characters, with the text after them. -/
def readHex4 : List Char → Option (Nat × List Char)
  | a :: b :: c :: d :: rest => (readHex [a, b, c, d]).map (·, rest)
  | _ => none

/-- The character of a code point that is one. -/
def character? (n : Nat) : Option Char := if n.isValidChar then some (Char.ofNat n) else none

/-- Whether a code unit is the first of a surrogate pair. -/
def isLeadUnit (n : Nat) : Bool := 0xd800 ≤ n && n ≤ 0xdbff

/-- Whether a code unit is the second of a surrogate pair. -/
def isTrailUnit (n : Nat) : Bool := 0xdc00 ≤ n && n ≤ 0xdfff

/-- The character that a pair of surrogates stands for. -/
def pairCharacter? (lead trail : Nat) : Option Char :=
  if isLeadUnit lead && isTrailUnit trail then
    character? (0x10000 + (lead - 0xd800) * 0x400 + (trail - 0xdc00))
  else none

/-- The digit of a value below sixteen, in lower case. -/
def hexDigit (n : Nat) : Char :=
  if n < 10 then Char.ofNat ('0'.toNat + n) else Char.ofNat ('a'.toNat + (n - 10))

/-- A number below 65536 in **four digits**. -/
def hexText4 (n : Nat) : List Char :=
  [hexDigit (n / 4096 % 16), hexDigit (n / 256 % 16), hexDigit (n / 16 % 16), hexDigit (n % 16)]

/-- The 16 bit **code units** of a character. -/
def units (c : Char) : List Nat :=
  if c.toNat < 0x10000 then [c.toNat]
  else [0xd800 + (c.toNat - 0x10000) / 0x400, 0xdc00 + (c.toNat - 0x10000) % 0x400]

end QueryAssist
