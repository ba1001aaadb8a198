import QueryAssist.Json.Value
import QueryAssist.Text.Hexadecimal
import QueryAssist.Text.Integer

/-! # Reading JSON

A reader for JSON texts that tells where a text goes wrong. Besides the standard it takes the words
`NaN`, `Infinity` and `-Infinity` for numbers. Two things are not the format's: how deep values may
be nested, `Json.depthLimit`, is a matter of the machine, and a surrogate that stands alone in an
escape is not kept, see `Json.unitEscape`. Main definitions:

* **`JsonError`** — what is wrong, and at which character.
* **`JsonValue.read`** — the value that a text writes. -/

namespace QueryAssist

/-- What can be **wrong** with a JSON text. -/
inductive JsonFault where
  | value
  | propertyName
  | colon
  | comma
  | unterminatedString
  | controlCharacter
  | escape
  | unicodeEscape
  | extraData
  | byteOrderMark
  | tooDeep
  | tooManyDigits
  deriving DecidableEq, Repr, Inhabited

/-- The message for a fault. -/
def JsonFault.message : JsonFault → String
  | value => "Expecting value"
  | propertyName => "Expecting property name enclosed in double quotes"
  | colon => "Expecting ':' delimiter"
  | comma => "Expecting ',' delimiter"
  | unterminatedString => "Unterminated string starting at"
  | controlCharacter => "Invalid control character at"
  | escape => "Invalid \\escape"
  | unicodeEscape => "Invalid \\uXXXX escape"
  | extraData => "Extra data"
  | byteOrderMark => "Unexpected UTF-8 BOM (decode using utf-8-sig)"
  | tooDeep => "Values nested too deep"
  | tooManyDigits => "Too many digits"

/-- Whether a fault is that a text goes **beyond a limit** of the reader; it can be JSON all the
same. -/
def JsonFault.isLimit (f : JsonFault) : Bool := f == tooDeep || f == tooManyDigits

/-- A **fault** with its place. -/
structure JsonError where
  /-- What is wrong. -/
  fault : JsonFault
  /-- The line, counted from one. -/
  line : Nat
  /-- The column, counted from one. -/
  column : Nat
  /-- The number of characters before the place. -/
  offset : Nat
  deriving DecidableEq, Repr, Inhabited

namespace JsonError

/-- The fault at a place of a text. -/
def atOffset (fault : JsonFault) (text : List Char) (offset : Nat) : JsonError :=
  let before := text.take offset
  let line := before.count '\n' + 1
  let column := (before.reverse.takeWhile (· != '\n')).length + 1
  ⟨fault, line, column, offset⟩

/-- The message with the place. -/
def message (e : JsonError) : String :=
  e.fault.message ++ ": line " ++ toString e.line ++ " column " ++ toString e.column ++
    " (char " ++ toString e.offset ++ ")"

end JsonError

namespace Json

/-- Where the reader **stops**: a fault with the number of characters from its place to the end. A
part of the reader stops, or gives a value with the text after it. -/
abbrev Stop := JsonFault × Nat

/-- A fault just before a rest of the text. -/
def fail {α : Type} (fault : JsonFault) (rest : List Char) : Except Stop α :=
  .error (fault, rest.length)

/-- The characters that may stand between the parts of a value. -/
def isSpace (c : Char) : Bool := c == ' ' || c == '\t' || c == '\n' || c == '\r'

/-- The text without the space before it. -/
def skip (cs : List Char) : List Char := cs.dropWhile isSpace

/-- The character that a backslash and a letter stand for. -/
def simpleEscape? : Char → Option Char
  | '"' => some '"'
  | '\\' => some '\\'
  | '/' => some '/'
  | 'b' => some '\x08'
  | 'f' => some '\x0c'
  | 'n' => some '\n'
  | 'r' => some '\r'
  | 't' => some '\t'
  | _ => none

/-- The code unit of an escape, after its letter; at least one character must follow. The letter
itself is the place of a fault. -/
def unit (afterLetter : List Char) : Except Stop (Nat × List Char) :=
  match readHex4 afterLetter with
  | some (n, r :: rest) => .ok (n, r :: rest)
  | _ => .error (.unicodeEscape, afterLetter.length + 1)

/-- The character of an escape by code units, after its letter: one unit, or two that are a pair. A
surrogate that stands alone is no character. Texts consist of characters here, so U+FFFD stands in
for it: this is a **limitation**, since which surrogate it was is lost, and a reader whose texts
consist of code points keeps it. -/
def unitEscape (afterLetter : List Char) : Except Stop (Char × List Char) := do
  let (n, rest) ← unit afterLetter
  let alone := (character? n).getD '\ufffd'
  match rest with
  | '\\' :: 'u' :: more =>
    if isLeadUnit n && 4 < more.length then
      let (m, after) ← unit more
      match pairCharacter? n m with
      | some c => pure (c, after)
      | none => pure (alone, rest)
    else pure (alone, rest)
  | _ => pure (alone, rest)

/-- The character of an escape whose backslash is read; `fromQuote` characters stand from the
opening quote to the end. -/
def escape (fromQuote : Nat) : List Char → Except Stop (Char × List Char)
  | [] => .error (.unterminatedString, fromQuote)
  | 'u' :: cs => unitEscape cs
  | c :: cs =>
    match simpleEscape? c with
    | some d => pure (d, cs)
    | none => .error (.escape, cs.length + 2)

/-- The text of a string whose opening quote is read. -/
def stringBody (fromQuote : Nat) (cs : List Char) : Except Stop (List Char × List Char) :=
  match cs with
  | [] => .error (.unterminatedString, fromQuote)
  | '"' :: rest => pure ([], rest)
  | '\\' :: more => do
    let (c, rest) ← escape fromQuote more
    if _h : rest.length ≤ more.length then
      let (t, after) ← stringBody fromQuote rest
      pure (c :: t, after)
    else fail .escape rest
  | c :: rest => do
    if c.toNat < 32 then fail .controlCharacter (c :: rest)
    else
      let (t, after) ← stringBody fromQuote rest
      pure (c :: t, after)
termination_by cs.length
decreasing_by all_goals (simp only [List.length_cons]; omega)

/-- A string, after its opening quote. -/
def string (cs : List Char) : Except Stop (String × List Char) := do
  let (t, rest) ← stringBody (cs.length + 1) cs
  pure (String.ofList t, rest)

/-- The digits of a fraction with their point, if a digit follows the point. -/
def fraction (cs : List Char) : List Char :=
  match cs with
  | '.' :: ds =>
    if ds.head?.any Char.isDigit then '.' :: ds.takeWhile Char.isDigit else []
  | _ => []

/-- The digits of an exponent with its letter and sign, if there is a digit. -/
def exponent (cs : List Char) : List Char :=
  match cs with
  | c :: ds =>
    if c == 'e' || c == 'E' then
      let sign := match ds with
        | '+' :: _ => ['+']
        | '-' :: _ => ['-']
        | _ => []
      let digits := (ds.drop sign.length).takeWhile Char.isDigit
      if digits.isEmpty then [] else c :: sign ++ digits
    else []
  | [] => []

/-- The digits before the point: a zero stands alone. -/
def integer (cs : List Char) : List Char :=
  match cs with
  | '0' :: _ => ['0']
  | _ => cs.takeWhile Char.isDigit

/-- The characters of the number that a text begins with; none if there is no number. -/
def numberText (cs : List Char) : List Char :=
  let sign := if cs.head? == some '-' then ['-'] else []
  let whole := integer (cs.drop sign.length)
  if whole.isEmpty then []
  else
    let rest := cs.drop (sign.length + whole.length)
    let frac := fraction rest
    sign ++ whole ++ frac ++ exponent (rest.drop frac.length)

/-- How deep arrays and objects may be **nested**. The format has no such limit. The reader goes on
until its stack gives out, and the number is what a stack of 1000 calls leaves to it where a run
reads its files; so it belongs to that machine, and with another stack it is another one. -/
def depthLimit : Nat := 985

/-- The words that stand for values. -/
def words : List (List Char × JsonValue) :=
  [("null".toList, .null), ("true".toList, .bool true), ("false".toList, .bool false),
    ("NaN".toList, .number "NaN"), ("Infinity".toList, .number "Infinity"),
    ("-Infinity".toList, .number "-Infinity")]

/-- A word or a number. -/
def atom (cs : List Char) : Except Stop (JsonValue × List Char) :=
  match words.find? fun (w, _) => w.isPrefixOf cs with
  | some (w, v) => .ok (v, cs.drop w.length)
  | none =>
    match numberText cs with
    | [] => fail .value cs
    | t =>
      if t.all (fun c => c.isDigit || c == '-') && digitLimit < (t.filter Char.isDigit).length then
        fail .tooManyDigits cs
      else .ok (.number (String.ofList t), cs.drop t.length)

mutual

/-- A value, in at most the given number of steps, where arrays and objects have some room left. -/
def value (room : Nat) : Nat → List Char → Except Stop (JsonValue × List Char)
  | 0, cs => fail .value cs
  | n + 1, cs =>
    match cs with
    | '"' :: rest => do
      let (t, after) ← string rest
      pure (.string t, after)
    | '{' :: rest =>
      if room = 0 then fail .tooDeep cs
      else
        match skip rest with
        | '}' :: after => pure (.object [], after)
        | rest => do
          let (ms, after) ← members (room - 1) n rest
          pure (.object (Entries.ofPairs ms), after)
    | '[' :: rest =>
      if room = 0 then fail .tooDeep cs
      else
        match skip rest with
        | ']' :: after => pure (.array [], after)
        | rest => do
          let (vs, after) ← items (room - 1) n rest
          pure (.array vs, after)
    | cs => atom cs

/-- The members of an object up to its end, at least one. -/
def members (room : Nat) :
    Nat → List Char → Except Stop (List (String × JsonValue) × List Char)
  | 0, cs => fail .value cs
  | n + 1, cs =>
    match cs with
    | '"' :: rest => do
      let (key, rest) ← string rest
      match skip rest with
      | ':' :: rest => do
        let (v, rest) ← value room n (skip rest)
        match skip rest with
        | '}' :: after => pure ([(key, v)], after)
        | ',' :: rest => do
          let (ms, after) ← members room n (skip rest)
          pure ((key, v) :: ms, after)
        | rest => fail .comma rest
      | rest => fail .colon rest
    | cs => fail .propertyName cs

/-- The items of an array up to its end, at least one. -/
def items (room : Nat) : Nat → List Char → Except Stop (List JsonValue × List Char)
  | 0, cs => fail .value cs
  | n + 1, cs => do
    let (v, rest) ← value room n cs
    match skip rest with
    | ']' :: after => pure ([v], after)
    | ',' :: rest => do
      let (vs, after) ← items room n (skip rest)
      pure (v :: vs, after)
    | rest => fail .comma rest

end

end Json

/-- The value that a text **writes**, or the fault that is met first. Each step of the reader takes
a character, so that twice as many steps as characters are enough. -/
def JsonValue.read (text : List Char) : Except JsonError JsonValue :=
  let locate (e : JsonFault × Nat) : JsonError := JsonError.atOffset e.1 text (text.length - e.2)
  if text.head? == some '\ufeff' then .error (JsonError.atOffset .byteOrderMark text 0)
  else
    match Json.value Json.depthLimit (2 * text.length + 2) (Json.skip text) with
    | .error e => .error (locate e)
    | .ok (v, rest) =>
      match Json.skip rest with
      | [] => .ok v
      | rest => .error (locate (.extraData, rest.length))

end QueryAssist
