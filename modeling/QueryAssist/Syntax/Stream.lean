import QueryAssist.Syntax.Lexer

/-! # Character streams

A line of text that is read from left to right. Main definitions:

* **`Stream`** — the token read last, where it starts, and the text still ahead.
* **`Stream.take n`** — the stream after the next `n` characters are read as one token.
* **`Stream.skipWhile p`** — the stream after a run of characters of a class, if there is one.
* **`Stream.next?`** — the next token and the stream after it. -/

namespace QueryAssist

/-- A **stream** over one line. The text before the last token is behind it and not kept. -/
structure Stream where
  /-- The column at which the last token starts. -/
  start : Nat
  /-- The characters of the last token. -/
  token : List Char
  /-- The characters not read yet. -/
  rest : List Char
  deriving DecidableEq, Repr, Inhabited

namespace Stream

/-- The stream at the start of a line. -/
def ofLine (line : List Char) : Stream := ⟨0, [], line⟩

/-- The **position** is the column of the next character. -/
def position (s : Stream) : Nat := s.start + s.token.length

/-- Whether the line is read to its end. -/
def atEnd (s : Stream) : Bool := s.rest.isEmpty

/-- The text of the last token. -/
def current (s : Stream) : String := String.ofList s.token

/-- Read the next `n` characters as one token. -/
def take (s : Stream) (n : Nat) : Stream := ⟨s.position, s.rest.take n, s.rest.drop n⟩

/-- Read what a pattern matches ahead, if it matches. -/
def read? (s : Stream) (pattern : List Char → Option (List Char)) : Option (List Char × Stream) :=
  (pattern s.rest).map fun t => (t, s.take t.length)

/-- Read a given text, if it stands ahead. -/
def literal (text : List Char) (cs : List Char) : Option (List Char) :=
  if text.isPrefixOf cs then some text else none

/-- Read the longest run of characters of a class as one token, if it is not empty. -/
def skipWhile (s : Stream) (p : Char → Bool) : Option Stream :=
  match s.rest.takeWhile p with
  | [] => none
  | t => some (s.take t.length)

/-- The next **token** and the stream after it, if a token stands ahead. -/
def next? (s : Stream) : Option (Token × Stream) :=
  (Lexer.lex? s.rest).map fun t => (t, s.take t.text.length)

@[simp] theorem position_ofLine (line : List Char) : (ofLine line).position = 0 := rfl

@[simp] theorem rest_ofLine (line : List Char) : (ofLine line).rest = line := rfl

@[simp] theorem start_take (s : Stream) (n : Nat) : (s.take n).start = s.position := rfl

@[simp] theorem token_take (s : Stream) (n : Nat) : (s.take n).token = s.rest.take n := rfl

@[simp] theorem rest_take (s : Stream) (n : Nat) : (s.take n).rest = s.rest.drop n := rfl

/-- Reading moves the position by what is read. -/
theorem position_take (s : Stream) (n : Nat) :
    (s.take n).position = s.position + min n s.rest.length := by
  simp [position]

/-- Reading within the front of what is ahead: the position, what is left, and the text. -/
theorem position_take_of_append {s : Stream} {v w : List Char} {n : Nat} (hs : s.rest = v ++ w)
    (hn : n ≤ v.length) : (s.take n).position = s.position + n := by
  rw [position_take, hs, List.length_append]
  omega

theorem rest_take_of_append {s : Stream} {v w : List Char} {n : Nat} (hs : s.rest = v ++ w)
    (hn : n ≤ v.length) : (s.take n).rest = v.drop n ++ w := by
  rw [rest_take, hs, List.drop_append_of_le_length hn]

theorem current_take_of_append {s : Stream} {v w : List Char} {n : Nat} (hs : s.rest = v ++ w)
    (hn : n ≤ v.length) : (s.take n).current = String.ofList (v.take n) := by
  rw [current, token_take, hs, List.take_append_of_le_length hn]

/-- Reading at least one character leaves less ahead. -/
theorem length_rest_take_lt {s : Stream} {n : Nat} (hn : 0 < n) (hs : s.rest ≠ []) :
    (s.take n).rest.length < s.rest.length := by
  have := List.length_pos_iff.2 hs
  simp only [rest_take, List.length_drop]
  omega

/-- Skipping a run leaves less ahead. -/
theorem length_rest_skipWhile_lt {s s' : Stream} {p : Char → Bool} (h : s.skipWhile p = some s') :
    s'.rest.length < s.rest.length := by
  unfold skipWhile at h
  split at h
  · simp at h
  · next t ht =>
    obtain rfl := Option.some.inj h
    refine length_rest_take_lt (List.length_pos_iff.2 ht) fun hs => ?_
    simp [hs] at ht

/-- Reading a token leaves less ahead. -/
theorem length_rest_next?_lt {s s' : Stream} {t : Token} (h : s.next? = some (t, s'))
    (hs : s.rest ≠ []) : s'.rest.length < s.rest.length := by
  obtain ⟨u, hu, he⟩ := Option.map_eq_some_iff.1 h
  obtain ⟨rfl, rfl⟩ := Prod.mk.inj he
  exact length_rest_take_lt (Lexer.lex?_length_pos hu) hs

end Stream

end QueryAssist
