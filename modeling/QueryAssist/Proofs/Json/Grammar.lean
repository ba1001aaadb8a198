import QueryAssist.Proofs.Json.RoundTrip
import Mathlib.Data.List.TakeWhile

/-! # The texts of JSON values

Which texts write a value is told by a grammar, apart from the reader. It is that of the data format
with the three words for numbers that the reader takes besides. Main definitions:

* **`Json.IsNumber`** — the texts of numbers.
* **`Json.StringPart`** — a part of a string: a character, or a code unit that is escaped.
* **`Json.WritesParts`**, **`Json.charactersOf`** — the parts that stand between quotes, and their
  characters.
* **`Json.Writes`**, **`Json.WritesArray`**, **`Json.WritesObject`** — the texts of values, of
  arrays and of objects. The members of an object are taken as they stand: a key may come twice.
* **`Json.HoldsObject`** — a whole text with an object in it. -/

namespace QueryAssist

namespace Json

/-! ### Space and numbers -/

/-- A text of **space** alone. -/
def IsBlank (cs : List Char) : Prop := ∀ c ∈ cs, isSpace c = true

/-- A text of **digits**, at least one. -/
def IsDigits (cs : List Char) : Prop := cs ≠ [] ∧ ∀ c ∈ cs, c.isDigit = true

/-- The digits before the point. There is no zero before other digits. -/
def IsWhole (cs : List Char) : Prop := IsDigits cs ∧ (cs.head? = some '0' → cs = ['0'])

/-- A point with digits after it, or nothing. -/
def IsFraction (cs : List Char) : Prop := cs = [] ∨ ∃ ds, IsDigits ds ∧ cs = '.' :: ds

/-- A letter with digits after it, which may have a sign, or nothing. -/
def IsExponent (cs : List Char) : Prop :=
  cs = [] ∨ ∃ c sign ds, (c = 'e' ∨ c = 'E') ∧ (sign = [] ∨ sign = ['+'] ∨ sign = ['-']) ∧
    IsDigits ds ∧ cs = c :: (sign ++ ds)

/-- The text of a **number**. -/
def IsNumber (cs : List Char) : Prop :=
  ∃ sign whole fraction exponent, (sign = [] ∨ sign = ['-']) ∧ IsWhole whole ∧
    IsFraction fraction ∧ IsExponent exponent ∧ cs = sign ++ (whole ++ (fraction ++ exponent))

/-! ### Strings -/

/-- A **part of a string** as it stands between quotes. -/
inductive StringPart where
  /-- A character, which may be escaped. -/
  | char (c : Char)
  /-- A code unit of sixteen bits. -/
  | unit (n : Nat)

/-- The characters of some parts. Two code units that are a pair make one character, and a surrogate
that stands alone is replaced. -/
def charactersOf : List StringPart → List Char
  | [] => []
  | .char c :: ps => c :: charactersOf ps
  | .unit n :: .unit m :: ps =>
    match pairCharacter? n m with
    | some c => c :: charactersOf ps
    | none => (character? n).getD '\ufffd' :: charactersOf (.unit m :: ps)
  | .unit n :: ps => (character? n).getD '\ufffd' :: charactersOf ps

/-- A text between quotes **writes some parts** of a string. -/
inductive WritesParts : List Char → List StringPart → Prop
  | nil : WritesParts [] []
  | plain {c : Char} {cs : List Char} {ps : List StringPart} :
    c ≠ '"' → c ≠ '\\' → 32 ≤ c.toNat → WritesParts cs ps → WritesParts (c :: cs) (.char c :: ps)
  | escape {e c : Char} {cs : List Char} {ps : List StringPart} :
    simpleEscape? e = some c → WritesParts cs ps → WritesParts ('\\' :: e :: cs) (.char c :: ps)
  | unit {ds : List Char} {n : Nat} {cs : List Char} {ps : List StringPart} :
    readHex4 ds = some (n, []) → WritesParts cs ps →
      WritesParts ('\\' :: 'u' :: (ds ++ cs)) (.unit n :: ps)

/-- A text in quotes **writes a string**. -/
def WritesString (cs : List Char) (s : String) : Prop :=
  ∃ body ps, WritesParts body ps ∧ s = String.ofList (charactersOf ps) ∧ cs = '"' :: (body ++ ['"'])

/-! ### Values -/

mutual

/-- A text **writes a value**. What an object says of a key is what it says of it last. -/
inductive Writes : List Char → JsonValue → Prop
  | word {cs : List Char} {v : JsonValue} : (cs, v) ∈ words → Writes cs v
  | number {cs : List Char} : IsNumber cs → Writes cs (.number (String.ofList cs))
  | string {cs : List Char} {s : String} : WritesString cs s → Writes cs (.string s)
  | array {cs : List Char} {vs : List JsonValue} : WritesArray cs vs → Writes cs (.array vs)
  | object {cs : List Char} {ms : List (String × JsonValue)} :
    WritesObject cs ms → Writes cs (.object (Entries.ofPairs ms))

/-- A text **writes an array** of some items. -/
inductive WritesArray : List Char → List JsonValue → Prop
  | empty {cs : List Char} : IsBlank cs → WritesArray ('[' :: (cs ++ [']'])) []
  | items {cs : List Char} {vs : List JsonValue} :
    WritesItems cs vs → WritesArray ('[' :: (cs ++ [']'])) vs

/-- A text writes some items with commas between them. -/
inductive WritesItems : List Char → List JsonValue → Prop
  | last {a w b : List Char} {v : JsonValue} :
    IsBlank a → Writes w v → IsBlank b → WritesItems (a ++ (w ++ b)) [v]
  | cons {a w b cs : List Char} {v : JsonValue} {vs : List JsonValue} :
    IsBlank a → Writes w v → IsBlank b → WritesItems cs vs →
      WritesItems (a ++ (w ++ (b ++ ',' :: cs))) (v :: vs)

/-- A text **writes an object** with some members, as they stand. -/
inductive WritesObject : List Char → List (String × JsonValue) → Prop
  | empty {cs : List Char} : IsBlank cs → WritesObject ('\x7b' :: (cs ++ ['\x7d'])) []
  | members {cs : List Char} {ms : List (String × JsonValue)} :
    WritesMembers cs ms → WritesObject ('\x7b' :: (cs ++ ['\x7d'])) ms

/-- A text writes some members with commas between them. -/
inductive WritesMembers : List Char → List (String × JsonValue) → Prop
  | last {a k b c w d : List Char} {key : String} {v : JsonValue} :
    IsBlank a → WritesString k key → IsBlank b → IsBlank c → Writes w v → IsBlank d →
      WritesMembers (a ++ (k ++ (b ++ ':' :: (c ++ (w ++ d))))) [(key, v)]
  | cons {a k b c w d cs : List Char} {key : String} {v : JsonValue}
    {ms : List (String × JsonValue)} :
    IsBlank a → WritesString k key → IsBlank b → IsBlank c → Writes w v → IsBlank d →
      WritesMembers cs ms →
      WritesMembers (a ++ (k ++ (b ++ ':' :: (c ++ (w ++ (d ++ ',' :: cs)))))) ((key, v) :: ms)

end

/-- A whole text **holds a value**, with nothing but space around it. -/
def Holds (text : List Char) (v : JsonValue) : Prop :=
  ∃ a w b, IsBlank a ∧ Writes w v ∧ IsBlank b ∧ text = a ++ (w ++ b)

/-- A whole text **holds an object** with some members, as they stand. -/
def HoldsObject (text : List Char) (ms : List (String × JsonValue)) : Prop :=
  ∃ a w b, IsBlank a ∧ WritesObject w ms ∧ IsBlank b ∧ text = a ++ (w ++ b)

end Json

end QueryAssist
