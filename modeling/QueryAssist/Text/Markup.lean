import QueryAssist.Text.Blank
import QueryAssist.Text.Emoji

/-! # Markup in a text

A text that is shown may hold tags in brackets, which tell how it looks. They are no part of what it
says. Main definitions:

* **`MarkupPiece.ofText`** — the texts and tags that a text is made of.
* **`closeTags`** — the tags that are open after a piece; a closing tag needs an open one.
* **`plainText`** — the text without its tags, with the emoji that it names. -/

namespace QueryAssist

/-- A **piece** of a text with markup. -/
inductive MarkupPiece where
  /-- A text that is shown. -/
  | text (cs : List Char)
  /-- A tag, without its brackets. -/
  | tag (body : List Char)
  deriving DecidableEq, Repr, Inhabited

/-- Whether a character can begin a tag. -/
def opensTag (c : Char) : Bool := ('a' ≤ c && c ≤ 'z') || c == '#' || c == '/' || c == '@'

/-- Whether a character can stand inside a tag. -/
def isInTag (c : Char) : Bool := c ≠ '[' && c ≠ ']'

/-- The tag after an opening bracket, with the text after it. No bracket opens inside a tag. -/
def tagAhead (cs : List Char) : Option (List Char × List Char) :=
  match cs.takeWhile isInTag, cs.dropWhile isInTag with
  | c :: body, ']' :: rest => if opensTag c then some (c :: body, rest) else none
  | _, _ => none

/-- The text after a tag is shorter. -/
theorem length_tagAhead_lt {cs body rest : List Char} (h : tagAhead cs = some (body, rest)) :
    rest.length < cs.length := by
  unfold tagAhead at h
  split at h
  · next c b r _ hd =>
    split at h
    · obtain ⟨_, rfl⟩ := Prod.mk.inj (Option.some.inj h)
      have := (List.dropWhile_sublist isInTag (l := cs)).length_le
      rw [hd] at this
      simp only [List.length_cons] at this
      omega
    · simp at h
  · simp at h

namespace MarkupPiece

/-- Some backslashes. -/
def slashes (n : Nat) : List Char := List.replicate n '\\'

/-- The pieces with some characters before them. They become part of the first text. -/
def precede (cs : List Char) : List MarkupPiece → List MarkupPiece
  | text ds :: pieces => text (cs ++ ds) :: pieces
  | pieces => text cs :: pieces

/-- The pieces of a text that follows some backslashes. Before a tag two backslashes stand for one,
and one that is left over makes the tag plain text, a piece of its own; before another bracket the
last one is lost. -/
def ofTextAfter (n : Nat) : List Char → List MarkupPiece
  | [] => [text (slashes n)]
  | c :: cs =>
    if c = '\\' then ofTextAfter (n + 1) cs
    else if c = '[' then
      match h : tagAhead cs with
      | some (body, rest) =>
        have := length_tagAhead_lt h
        text [] :: text (slashes (n / 2)) ::
          (if n % 2 = 0 then tag body else text (('[' :: body) ++ [']'])) ::
          ofTextAfter 0 rest
      | none => precede (slashes (n - 1) ++ ['[']) (ofTextAfter 0 cs)
    else precede (slashes n ++ [c]) (ofTextAfter 0 cs)
termination_by cs => cs.length

/-- The **pieces** of a text. -/
def ofText (cs : List Char) : List MarkupPiece := ofTextAfter 0 cs

/-- What is shown of a piece: a text with the emoji that it names. -/
def shown : MarkupPiece → List Char
  | text cs => expandEmoji cs
  | tag _ => []

end MarkupPiece

/-- The name of a tag: what stands before an equals sign. -/
def tagName (body : List Char) : List Char :=
  (strip (body.takeWhile (· ≠ '='))).map Char.toLower

/-- The tags that are **open** after a piece, the last opened first. A closing tag closes the last
open one of its name; without a name it closes the last one. -/
def closeTags (opened : List (List Char)) : MarkupPiece → Option (List (List Char))
  | .text _ => some opened
  | .tag ('/' :: body) =>
    match tagName body, opened with
    | [], _ :: opened => some opened
    | [], [] => none
    | name, _ => if opened.contains name then some (opened.erase name) else none
  | .tag body => some (tagName body :: opened)

/-- The text **without its tags** and with its emoji, if each closing tag closes one. -/
def plainText (cs : List Char) : Option (List Char) :=
  let pieces := MarkupPiece.ofText cs
  (pieces.foldlM closeTags []).map fun _ => pieces.flatMap MarkupPiece.shown

end QueryAssist
