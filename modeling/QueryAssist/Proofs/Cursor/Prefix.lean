import Mathlib.Data.List.TakeWhile
import QueryAssist.Proofs.Layout.Boundary
import QueryAssist.Parse.Reading

/-! # Reading the front of a line

What is read next of a line depends on the line and not on the chain, and it is read in the same way
from a front of the line that it does not reach out of. Main definitions:

* **`Lexer.IsLocal`** — a pattern that takes from a front of a text what it takes from the text.
* **`Lexer.TakesAlike`** — a pattern that takes the same of two texts with a common front.
* **`Piece`** — ignored characters, a token, or text that is no token.
* **`Lexer.piece`** — what is read next, with its length.
* **`Chain.react`** — what a chain makes of it.

Main statements: `Lexer.piece_of_append`, and `Chain.read_eq`, a reading is the next piece with
the reaction to it. -/

namespace QueryAssist

/-- A run that ends within the front of a text is the run of the front. -/
theorem takeWhile_of_append {p : Char → Bool} {v w : List Char}
    (h : ((v ++ w).takeWhile p).length ≤ v.length) : (v ++ w).takeWhile p = v.takeWhile p := by
  rw [List.takeWhile_append] at h ⊢
  split at h
  · next hl =>
    have hw : w.takeWhile p = [] := by
      rw [List.length_append] at h
      exact List.length_eq_zero_iff.1 (by omega)
    rw [if_pos hl, hw, List.append_nil]
    exact ((List.takeWhile_prefix p).eq_of_length hl).symm
  · next hl => rw [if_neg hl]

/-- A run of a class of characters ends before a text that does not begin with one of them. -/
theorem length_takeWhile_append_le {q : Char → Bool} {p : List Char}
    (hp : ∀ c ∈ p.head?, q c = false) (v : List Char) :
    ((v ++ p).takeWhile q).length ≤ v.length := by
  have hnil : p.takeWhile q = [] := by
    cases p with
    | nil => rfl
    | cons c r => exact List.takeWhile_cons_of_neg (by simpa using hp c rfl)
  rw [List.takeWhile_append]
  split
  · rw [hnil, List.append_nil]
  · exact (List.takeWhile_prefix q).length_le

/-- After part of a leading run of characters comes what comes after all of the run. -/
theorem dropWhile_drop {q : Char → Bool} {cs : List Char} {n : Nat}
    (hn : n ≤ (cs.takeWhile q).length) : (cs.drop n).dropWhile q = cs.dropWhile q := by
  induction cs generalizing n with
  | nil => rw [List.drop_nil]
  | cons c cs ih =>
    cases n with
    | zero => rfl
    | succ n =>
      by_cases hc : q c = true
      · rw [List.takeWhile_cons_of_pos hc] at hn
        rw [List.drop_succ_cons, List.dropWhile_cons_of_pos hc, ih (Nat.le_of_succ_le_succ hn)]
      · rw [List.takeWhile_cons_of_neg hc] at hn
        cases hn

namespace Lexer

/-- A pattern is **local** if it takes from the front of a text what it takes from the whole text,
provided that it lies in the front, and nothing if it takes nothing from the whole text. -/
structure IsLocal (f : List Char → Option (List Char)) : Prop where
  some : ∀ {v w u : List Char}, f (v ++ w) = some u → u.length ≤ v.length → f v = some u
  none : ∀ {v w : List Char}, f (v ++ w) = none → f v = none

/-- A part of a pattern that may be empty is **local** in the same sense. -/
def IsLocalPart (f : List Char → List Char) : Prop :=
  ∀ {v w : List Char}, (f (v ++ w)).length ≤ v.length → f (v ++ w) = f v

/-- A pattern that takes at least one character is looked at from the first one on. -/
theorem IsLocal.of_cons {f : List Char → Option (List Char)} (hnil : f [] = Option.none)
    (hne : ∀ {cs u : List Char}, f cs = Option.some u → u ≠ [])
    (hsome : ∀ {c : Char} {cs w u : List Char}, f (c :: (cs ++ w)) = Option.some u →
      u.length ≤ cs.length + 1 → f (c :: cs) = Option.some u)
    (hnone : ∀ {c : Char} {cs w : List Char}, f (c :: (cs ++ w)) = Option.none →
      f (c :: cs) = Option.none) : IsLocal f where
  some {v w u} h hu := by
    cases v with
    | nil => exact absurd (List.length_eq_zero_iff.1 (Nat.le_zero.1 hu)) (hne h)
    | cons c cs => exact hsome h hu
  none {v w} h := by
    cases v with
    | nil => exact hnil
    | cons c cs => exact hnone h

/-- A local part that takes nothing of the whole text takes nothing of its front. -/
theorem IsLocalPart.of_nil {f : List Char → List Char} (hf : IsLocalPart f) {cs w : List Char}
    (h : f (cs ++ w) = []) : f cs = [] := by
  rw [← hf (by rw [h]; exact Nat.zero_le _), h]

/-! ### The patterns -/

/-- Names are local. -/
theorem isLocal_name? : IsLocal name? := by
  refine .of_cons rfl name?_ne_nil ?_ ?_
  · intro c cs w u h hu
    simp only [name?] at h ⊢
    split at h
    · next hc =>
      obtain rfl := Option.some.inj h
      rw [if_pos hc, takeWhile_of_append (Nat.le_of_succ_le_succ hu)]
    · cases h
  · intro c cs w h
    simp only [name?] at h ⊢
    split at h
    · cases h
    · next hc => rw [if_neg hc]

/-- Three dots are next, or one character decides. -/
theorem punctuation?_cons (c : Char) (cs : List Char) :
    punctuation? (c :: cs) = if ['.', '.', '.'] <+: c :: cs then some ['.', '.', '.']
      else if isPunctuation c then some [c] else none := by
  by_cases hd : ['.', '.', '.'] <+: c :: cs
  · obtain ⟨ds, hds⟩ := hd
    rw [← hds, if_pos (List.prefix_append _ _)]
    rfl
  · rw [if_neg hd, punctuation?]
    rintro ds rfl rfl
    exact hd ⟨ds, rfl⟩

/-- Punctuation marks are local. -/
theorem isLocal_punctuation? : IsLocal punctuation? := by
  have hdots : ∀ {c : Char} {cs : List Char} (w : List Char), ['.', '.', '.'] <+: c :: cs →
      ['.', '.', '.'] <+: c :: (cs ++ w) := fun w h => h.trans (List.prefix_append (_ :: _) w)
  refine .of_cons rfl punctuation?_ne_nil ?_ ?_
  · intro c cs w u h hu
    rw [punctuation?_cons] at h ⊢
    split at h
    · next hd =>
      obtain rfl := Option.some.inj h
      rw [if_pos (List.prefix_of_prefix_length_le hd (List.prefix_append (c :: cs) w) hu)]
    · next hd => rwa [if_neg (mt (hdots w) hd)]
  · intro c cs w h
    rw [punctuation?_cons] at h ⊢
    split at h
    · cases h
    · next hd => rwa [if_neg (mt (hdots w) hd)]

/-- A run of digits is local. -/
theorem isLocalPart_digits : IsLocalPart digits := takeWhile_of_append

/-- The digits before the point are local. -/
theorem isLocal_whole? : IsLocal whole? := by
  refine .of_cons rfl whole?_ne_nil ?_ ?_
  · intro c cs w u h hu
    simp only [whole?] at h ⊢
    split at h
    · next hc => rw [if_pos hc, h]
    · next hc =>
      rw [if_neg hc]
      split at h
      · next hd =>
        obtain rfl := Option.some.inj h
        rw [if_pos hd, isLocalPart_digits (Nat.le_of_succ_le_succ hu)]
      · cases h
  · intro c cs w h
    simp only [whole?] at h ⊢
    split at h
    · cases h
    · next hc =>
      rw [if_neg hc]
      split at h
      · cases h
      · next hd => rw [if_neg hd]

/-- A fraction is local. -/
theorem isLocalPart_fraction : IsLocalPart fraction := by
  intro v w h
  cases v with
  | nil => exact List.length_eq_zero_iff.1 (Nat.le_zero.1 h)
  | cons c cs =>
    by_cases hc : c = '.'
    · subst hc
      exact congrArg (List.cons '.') (isLocalPart_digits (Nat.le_of_succ_le_succ h))
    · simp [fraction, hc]

/-- An exponent has digits. -/
theorem exponentDigits?_ne_nil {cs ds : List Char} (h : exponentDigits? cs = some ds) :
    ds ≠ [] := by
  unfold exponentDigits? at h
  split at h
  · next c cs =>
    split at h
    · split at h
      · cases h
      · obtain rfl := Option.some.inj h
        exact List.cons_ne_nil _ _
    · split at h
      · next hd =>
        obtain rfl := Option.some.inj h
        simp [digits, hd]
      · cases h
  · cases h

/-- The digits of an exponent, with its sign, are local. -/
theorem isLocal_exponentDigits? : IsLocal exponentDigits? := by
  refine .of_cons rfl exponentDigits?_ne_nil ?_ ?_
  -- What is taken are digits, with a sign before them or without.
  · intro c cs w u h hu
    simp only [exponentDigits?] at h ⊢
    split at h
    · next hc =>
      rw [if_pos hc]
      split at h
      · cases h
      · next hd =>
        obtain rfl := Option.some.inj h
        rw [isLocalPart_digits (Nat.le_of_succ_le_succ hu)] at hd ⊢
        rw [if_neg hd]
    · next hc =>
      rw [if_neg hc]
      split at h
      · next hd =>
        obtain rfl := Option.some.inj h
        have hcs : digits (c :: cs ++ w) = digits (c :: cs) := isLocalPart_digits hu
        rw [if_pos hd, ← List.cons_append, hcs]
      · cases h
  -- Where nothing is taken there is no digit, after a sign or without one.
  · intro c cs w h
    simp only [exponentDigits?] at h ⊢
    split at h
    · next hc =>
      rw [if_pos hc]
      split at h
      · next hd =>
        rw [if_pos (List.isEmpty_iff.2 (isLocalPart_digits.of_nil (List.isEmpty_iff.1 hd)))]
      · cases h
    · next hc =>
      rw [if_neg hc]
      split at h
      · cases h
      · next hd => rw [if_neg hd]

/-- An exponent is local. -/
theorem isLocalPart_exponent : IsLocalPart exponent := by
  intro v w h
  cases v with
  | nil => exact List.length_eq_zero_iff.1 (Nat.le_zero.1 h)
  | cons c cs =>
    simp only [List.cons_append, exponent] at h ⊢
    split at h
    · next hc =>
      rw [if_pos hc, if_pos hc]
      cases hd : exponentDigits? (cs ++ w) with
      | none => rw [isLocal_exponentDigits?.none hd]
      | some ds =>
        rw [hd] at h
        rw [isLocal_exponentDigits?.some hd (Nat.le_of_succ_le_succ h)]
    · next hc => rw [if_neg hc, if_neg hc]

/-- Numbers without a sign are local. -/
theorem isLocal_unsigned? : IsLocal unsigned? where
  some {v w u} h hu := by
    obtain ⟨a, ha, rfl⟩ := Option.map_eq_some_iff.1 h
    dsimp only at hu ⊢
    simp only [List.length_append] at hu
    have hle : a.length ≤ v.length := by omega
    -- The three parts are read one after another, each in what the one before leaves of the front.
    rw [List.drop_append_of_le_length hle] at hu ⊢
    obtain ⟨x, hx⟩ : ∃ x, v.drop a.length = x := ⟨_, rfl⟩
    have hlen : x.length = v.length - a.length := hx ▸ List.length_drop
    rw [hx] at hu ⊢
    have hf : fraction (x ++ w) = fraction x := isLocalPart_fraction (by omega)
    rw [hf, List.drop_append_of_le_length (by omega)] at hu ⊢
    have he : exponent (x.drop (fraction x).length ++ w) = exponent (x.drop (fraction x).length) :=
      isLocalPart_exponent (by rw [List.length_drop]; omega)
    rw [he, unsigned?, isLocal_whole?.some ha hle, Option.map_some, hx]
  none {v w} h := by
    rw [unsigned?, isLocal_whole?.none (Option.map_eq_none_iff.1 h)]
    rfl

/-- A minus sign is followed by a number, and any other character begins one. -/
theorem number?_cons (c : Char) (cs : List Char) :
    number? (c :: cs) = if c = '-' then (unsigned? cs).map ('-' :: ·) else unsigned? (c :: cs) := by
  split
  · next hc => rw [hc, number?]
  · next hc => simp [number?, hc]

/-- Numbers are local. -/
theorem isLocal_number? : IsLocal number? := by
  refine .of_cons rfl number?_ne_nil ?_ ?_
  · intro c cs w u h hu
    rw [number?_cons] at h ⊢
    split at h
    · next hc =>
      obtain ⟨a, ha, rfl⟩ := Option.map_eq_some_iff.1 h
      rw [if_pos hc, isLocal_unsigned?.some ha (Nat.le_of_succ_le_succ hu), Option.map_some]
    · next hc =>
      rw [if_neg hc]
      exact isLocal_unsigned?.some h hu
  · intro c cs w h
    rw [number?_cons] at h ⊢
    split at h
    · next hc =>
      rw [if_pos hc, isLocal_unsigned?.none (Option.map_eq_none_iff.1 h), Option.map_none]
    · next hc =>
      rw [if_neg hc]
      exact isLocal_unsigned?.none h

/-- A character of a body that is neither a quote nor a backslash stands for itself. -/
theorem stringBody_plain {c : Char} (hq : c ≠ '"') (hb : c ≠ '\\') (cs : List Char) :
    stringBody (c :: cs) = c :: stringBody cs := by
  rw [stringBody]
  · simp [hq, hb]
  · simp [hb]
  · simp [hb]

/-- After a backslash a body ends, or goes on after one letter or four digits. -/
theorem stringBody_backslash (cs : List Char) :
    stringBody ('\\' :: cs) = [] ∨
    (∃ e r, cs = e :: r ∧ isEscapeLetter e = true ∧
      stringBody ('\\' :: cs) = '\\' :: e :: stringBody r) ∨
    ∃ a b c d r, cs = 'u' :: a :: b :: c :: d :: r ∧ (∀ x ∈ [a, b, c, d], isHexDigit x = true) ∧
      stringBody ('\\' :: cs) = '\\' :: 'u' :: a :: b :: c :: d :: stringBody r := by
  generalize hbody : stringBody ('\\' :: cs) = body
  rw [stringBody.eq_def] at hbody
  split at hbody
  · next a b c d r heq =>
    obtain ⟨-, rfl⟩ := List.cons.inj heq
    split at hbody
    · next hx => exact .inr (.inr ⟨a, b, c, d, r, rfl, by simpa [and_assoc] using hx, hbody.symm⟩)
    · exact .inl hbody.symm
  · next e r _ heq =>
    obtain ⟨-, rfl⟩ := List.cons.inj heq
    split at hbody
    · next he => exact .inr (.inl ⟨e, r, rfl, he, hbody.symm⟩)
    · exact .inl hbody.symm
  · next c r _ _ heq =>
    obtain ⟨rfl, -⟩ := List.cons.inj heq
    exact .inl hbody.symm
  · next heq => cases heq

/-- Four items and more begin with four items. -/
theorem exists_eq_cons_of_four_le {α : Type} :
    ∀ {as : List α}, 4 ≤ as.length → ∃ a b c d bs, as = a :: b :: c :: d :: bs
  | a :: b :: c :: d :: bs, _ => ⟨a, b, c, d, bs, rfl⟩

/-- What is inside of a string is local. -/
theorem isLocalPart_stringBody : IsLocalPart stringBody := by
  intro v w h
  -- The cases are those of the function on the front. One that ends inside an escape goes on in the
  -- whole text, if it does, past its end.
  fun_induction stringBody v with
  | case1 a b c d cs hx ih =>
    simp only [List.cons_append, stringBody, hx, if_true] at h ⊢
    rw [ih (by simpa using h)]
  | case2 a b c d cs hx => simp [stringBody, hx]
  | case3 e cs hu he ih =>
    have hne : e ≠ 'u' := by
      rintro rfl
      exact absurd he (by decide)
    simp only [List.cons_append] at h ⊢
    rw [stringBody, if_pos he] at h ⊢
    · rw [ih (by simpa using h)]
    all_goals simp [hne]
  | case4 e cs hu he =>
    obtain hb | ⟨e', r, hr, he', -⟩ | ⟨a, b, c, d, r, hr, -, hb⟩ :=
      stringBody_backslash (e :: (cs ++ w))
    · exact hb
    · obtain ⟨rfl, -⟩ := List.cons.inj hr
      exact absurd he' he
    · obtain ⟨rfl, hcs⟩ := List.cons.inj hr
      simp only [List.cons_append, hb, List.length_cons] at h
      by_cases hlen : 4 ≤ cs.length
      · obtain ⟨a', b', c', d', r', rfl⟩ := exists_eq_cons_of_four_le hlen
        exact absurd rfl (hu a' b' c' d' r' rfl)
      · omega
  | case5 c cs hu he hc =>
    by_cases hq : c = '"'
    · subst hq
      simp [stringBody]
    · obtain rfl : c = '\\' := by simpa [hq] using hc
      obtain rfl : cs = [] := by
        cases cs with
        | nil => rfl
        | cons e r => exact (he e r rfl rfl).elim
      obtain hb | ⟨e', r, rfl, -, hb⟩ | ⟨a, b, c, d, r, rfl, -, hb⟩ := stringBody_backslash w
      · exact hb
      · simp [hb] at h
      · simp [hb] at h
  | case6 c cs hu he hc ih =>
    simp only [Bool.or_eq_true, beq_iff_eq, not_or] at hc
    rw [List.cons_append, stringBody_plain hc.1 hc.2] at h ⊢
    rw [ih (by simpa using h)]
  | case7 => exact List.length_eq_zero_iff.1 (Nat.le_zero.1 h)

/-- A string takes its closing quote if one follows the body. -/
theorem string?_cons (c : Char) (cs : List Char) :
    string? (c :: cs) = if c = '"' then
      if (cs.drop (stringBody cs).length).head? = some '"' then some ('"' :: stringBody cs ++ ['"'])
      else some ('"' :: stringBody cs)
    else none := by
  split
  · next hc =>
    subst hc
    simp only [string?]
    cases cs.drop (stringBody cs).length with
    | nil => rfl
    | cons d r => by_cases hd : d = '"' <;> simp [hd]
  · next hc => simp [string?, hc]

/-- Strings are local. -/
theorem isLocal_string? : IsLocal string? := by
  refine .of_cons rfl string?_ne_nil ?_ ?_
  · intro c cs w u h hu
    rw [string?_cons] at h ⊢
    split at h
    · next hc =>
      rw [if_pos hc]
      have hle : (stringBody (cs ++ w)).length ≤ cs.length := by
        split at h <;> obtain rfl := Option.some.inj h <;>
          simp only [List.cons_append, List.length_cons, List.length_append] at hu <;> omega
      rw [isLocalPart_stringBody hle] at h hle
      rw [List.drop_append_of_le_length hle, List.head?_append] at h
      split at h
      · next hq =>
        obtain rfl := Option.some.inj h
        -- The closing quote lies in the front too.
        rw [if_pos]
        simp only [List.cons_append, List.length_cons, List.length_append] at hu
        have hne : cs.drop (stringBody cs).length ≠ [] := by
          rw [ne_eq, List.drop_eq_nil_iff]
          omega
        rwa [Option.or_of_isSome (List.isSome_head?.2 hne)] at hq
      · next hq =>
        rw [if_neg, h]
        intro hq'
        rw [hq'] at hq
        exact hq rfl
    · cases h
  · intro c cs w h
    rw [string?_cons] at h ⊢
    split at h
    · split at h <;> cases h
    · next hc => rw [if_neg hc]

/-- Comments are local. -/
theorem isLocal_comment? : IsLocal comment? := by
  have hcons : ∀ c cs, comment? (c :: cs) =
      if c = '#' then some ('#' :: cs.takeWhile (· != '\n')) else none := by
    intro c cs
    split
    · next hc => rw [hc, comment?]
    · next hc => simp [comment?, hc]
  refine .of_cons rfl comment?_ne_nil ?_ ?_
  · intro c cs w u h hu
    rw [hcons] at h ⊢
    split at h
    · next hc =>
      obtain rfl := Option.some.inj h
      rw [if_pos hc, takeWhile_of_append (Nat.le_of_succ_le_succ hu)]
    · cases h
  · intro c cs w h
    rw [hcons] at h ⊢
    split at h
    · cases h
    · next hc => rw [if_neg hc]

/-- **The patterns of all kinds** of token are local. -/
theorem isLocal_pattern (k : TokenKind) : IsLocal (pattern k) := by
  cases k
  · exact isLocal_name?
  · exact isLocal_punctuation?
  · exact isLocal_number?
  · exact isLocal_string?
  · exact isLocal_comment?

/-! ### A pattern takes the front of a text -/

/-- A name is taken from the front of a text. -/
theorem name?_prefix {cs u : List Char} (h : name? cs = some u) : u <+: cs := by
  unfold name? at h
  split at h
  · split at h
    · obtain rfl := Option.some.inj h
      exact List.cons_prefix_cons.2 ⟨rfl, List.takeWhile_prefix _⟩
    · cases h
  · cases h

/-- So is a punctuation mark. -/
theorem punctuation?_prefix {cs u : List Char} (h : punctuation? cs = some u) : u <+: cs := by
  cases cs with
  | nil => cases h
  | cons c cs =>
    rw [punctuation?_cons] at h
    split at h
    · next hd => exact Option.some.inj h ▸ hd
    · split at h
      · obtain rfl := Option.some.inj h
        exact ⟨cs, rfl⟩
      · cases h

/-- So are the digits before the point. -/
theorem whole?_prefix {cs u : List Char} (h : whole? cs = some u) : u <+: cs := by
  unfold whole? at h
  split at h
  · next c cs =>
    split at h
    · obtain rfl := Option.some.inj h
      exact ⟨cs, rfl⟩
    · split at h
      · obtain rfl := Option.some.inj h
        exact List.cons_prefix_cons.2 ⟨rfl, List.takeWhile_prefix _⟩
      · cases h
  · cases h

/-- So is a fraction. -/
theorem fraction_prefix (cs : List Char) : fraction cs <+: cs := by
  unfold fraction
  split
  · exact List.cons_prefix_cons.2 ⟨rfl, List.takeWhile_prefix _⟩
  · exact List.nil_prefix

/-- So are the digits of an exponent, with its sign. -/
theorem exponentDigits?_prefix {cs u : List Char} (h : exponentDigits? cs = some u) :
    u <+: cs := by
  unfold exponentDigits? at h
  split at h
  · split at h
    · split at h
      · cases h
      · obtain rfl := Option.some.inj h
        exact List.cons_prefix_cons.2 ⟨rfl, List.takeWhile_prefix _⟩
    · split at h
      · obtain rfl := Option.some.inj h
        exact List.takeWhile_prefix _
      · cases h
  · cases h

/-- So is an exponent. -/
theorem exponent_prefix (cs : List Char) : exponent cs <+: cs := by
  unfold exponent
  split
  · split
    · split
      · next hd => exact List.cons_prefix_cons.2 ⟨rfl, exponentDigits?_prefix hd⟩
      · exact List.nil_prefix
    · exact List.nil_prefix
  · exact List.nil_prefix

/-- So is a number without a sign. -/
theorem unsigned?_prefix {cs u : List Char} (h : unsigned? cs = some u) : u <+: cs := by
  obtain ⟨a, ha, rfl⟩ := Option.map_eq_some_iff.1 h
  obtain ⟨x, rfl⟩ := whole?_prefix ha
  rw [List.drop_left]
  obtain ⟨y, hy⟩ := fraction_prefix x
  obtain ⟨z, hz⟩ := exponent_prefix y
  refine ⟨z, ?_⟩
  have hdrop : (fraction x ++ y).drop (fraction x).length = y := List.drop_left
  rw [hy] at hdrop
  dsimp only
  rw [hdrop, List.append_assoc, hz, List.append_assoc, hy]

/-- So is a number. -/
theorem number?_prefix {cs u : List Char} (h : number? cs = some u) : u <+: cs := by
  cases cs with
  | nil => cases h
  | cons c cs =>
    rw [number?_cons] at h
    split at h
    · next hc =>
      obtain ⟨a, ha, rfl⟩ := Option.map_eq_some_iff.1 h
      exact List.cons_prefix_cons.2 ⟨hc.symm, unsigned?_prefix ha⟩
    · exact unsigned?_prefix h

/-- So is what is inside of a string. -/
theorem stringBody_prefix (cs : List Char) : stringBody cs <+: cs := by
  fun_induction stringBody cs with
  | case1 a b c d cs hx ih => simpa [List.cons_prefix_cons] using ih
  | case2 => exact List.nil_prefix
  | case3 e cs hu he ih => simpa [List.cons_prefix_cons] using ih
  | case4 => exact List.nil_prefix
  | case5 => exact List.nil_prefix
  | case6 c cs hu he hc ih => simpa [List.cons_prefix_cons] using ih
  | case7 => exact List.nil_prefix

/-- So is a string. -/
theorem string?_prefix {cs u : List Char} (h : string? cs = some u) : u <+: cs := by
  cases cs with
  | nil => cases h
  | cons c cs =>
    rw [string?_cons] at h
    obtain ⟨x, hx⟩ := stringBody_prefix cs
    split at h
    · next hc =>
      subst hc
      split at h
      · next hq =>
        obtain rfl := Option.some.inj h
        have hdrop : (stringBody cs ++ x).drop (stringBody cs).length = x := List.drop_left
        rw [hx] at hdrop
        rw [hdrop] at hq
        obtain ⟨y, rfl⟩ := List.head?_eq_some_iff.1 hq
        refine ⟨y, ?_⟩
        rw [List.cons_append, List.cons_append, List.append_assoc, List.singleton_append, hx]
      · obtain rfl := Option.some.inj h
        exact List.cons_prefix_cons.2 ⟨rfl, ⟨x, hx⟩⟩
    · cases h

/-- So is a comment. -/
theorem comment?_prefix {cs u : List Char} (h : comment? cs = some u) : u <+: cs := by
  unfold comment? at h
  split at h
  · obtain rfl := Option.some.inj h
    exact List.cons_prefix_cons.2 ⟨rfl, List.takeWhile_prefix _⟩
  · cases h

/-- A token is the **front of the text** that it is read from. -/
theorem prefix_of_lex? {cs : List Char} {t : Token} (h : lex? cs = some t) :
    t.text.toList <+: cs := by
  obtain ⟨k, -, hk⟩ := List.exists_of_findSome?_eq_some h
  obtain ⟨u, hu, rfl⟩ := Option.map_eq_some_iff.1 hk
  rw [String.toList_ofList]
  cases k
  · exact name?_prefix hu
  · exact punctuation?_prefix hu
  · exact number?_prefix hu
  · exact string?_prefix hu
  · exact comment?_prefix hu

/-! ### Tokens -/

/-- A run without blanks is local. -/
theorem isLocal_nonBlankRun : IsLocal nonBlankRun where
  some {v w u} h hu := by
    unfold nonBlankRun at h ⊢
    split at h
    · cases h
    · next ht =>
      obtain rfl := Option.some.inj h
      rw [takeWhile_of_append hu] at ht
      split
      · next hnil => exact absurd hnil ht
      · rw [takeWhile_of_append hu]
  none {v w} h := by
    unfold nonBlankRun at h ⊢
    split at h
    · next ht =>
      have hle : ((v ++ w).takeWhile (! isBlank ·)).length ≤ v.length := by
        rw [ht]
        exact Nat.zero_le _
      rw [← takeWhile_of_append hle, ht]
    · cases h

/-- A pattern **takes alike** of two texts with a common front if it takes the same of both, provided
that it lies in the front of the first one, or nothing of both. -/
structure TakesAlike (f : List Char → Option (List Char)) (v w w' : List Char) : Prop where
  some : ∀ {u : List Char}, f (v ++ w) = some u → u.length ≤ v.length → f (v ++ w') = some u
  none : f (v ++ w) = none → f (v ++ w') = none

/-- A local pattern takes alike of a text and of its front. -/
theorem IsLocal.takesAlike {f : List Char → Option (List Char)} (h : IsLocal f)
    (v w : List Char) : TakesAlike f v w [] where
  some hf hu := by rw [List.append_nil, h.some hf hu]
  none hf := by rw [List.append_nil, h.none hf]

section TakesAlike

variable {v w w' : List Char}

/-- A token that lies in a common front is a token of both texts. -/
theorem lex?_of_takesAlike (h : ∀ k, TakesAlike (pattern k) v w w') {t : Token}
    (ht : lex? (v ++ w) = some t) (hle : t.text.length ≤ v.length) : lex? (v ++ w') = some t := by
  unfold lex? at ht ⊢
  generalize TokenKind.all = ks at ht ⊢
  induction ks with
  | nil => cases ht
  | cons k ks ih =>
    rw [List.findSome?_cons] at ht ⊢
    cases hk : pattern k (v ++ w) with
    | none =>
      rw [hk] at ht
      rw [(h k).none hk]
      exact ih ht
    | some u =>
      rw [hk] at ht
      obtain rfl := Option.some.inj ht
      rw [(h k).some hk (by simpa using hle)]
      rfl

/-- Where no pattern takes anything of the one text, there is no token in the other either. -/
theorem lex?_eq_none_of_takesAlike (h : ∀ k, TakesAlike (pattern k) v w w')
    (ht : lex? (v ++ w) = none) : lex? (v ++ w') = none := by
  simp only [lex?, List.findSome?_eq_none_iff, Option.map_eq_none_iff] at ht ⊢
  exact fun k hk => (h k).none (ht k hk)

end TakesAlike

/-- The token at the head of a text is that of a front in which it lies. -/
theorem lex?_of_append {v w : List Char} {t : Token} (h : lex? (v ++ w) = some t)
    (ht : t.text.length ≤ v.length) : lex? v = some t := by
  simpa using lex?_of_takesAlike (fun k => (isLocal_pattern k).takesAlike v w) h ht

/-- Where a text begins with no token, no front of it does. -/
theorem lex?_eq_none_of_append {v w : List Char} (h : lex? (v ++ w) = none) : lex? v = none := by
  simpa using lex?_eq_none_of_takesAlike (fun k => (isLocal_pattern k).takesAlike v w) h

end Lexer

/-! ### What is read next -/

/-- A **piece** is what is read next of a line. -/
inductive Piece where
  /-- Ignored characters. -/
  | gap
  /-- A token. -/
  | token (t : Token)
  /-- Text that is no token. -/
  | unknown
  deriving DecidableEq, Repr, Inhabited

namespace Lexer

/-- The **next piece** of a text, with its length. -/
def piece (cs : List Char) : Piece × Nat :=
  match cs.takeWhile isIgnored with
  | c :: t => (.gap, (c :: t).length)
  | [] =>
    match lex? cs with
    | some t => (.token t, t.text.length)
    | none => (.unknown, ((nonBlankRun cs).map List.length).getD 1)

/-- A piece has at least one character. -/
theorem piece_length_pos (cs : List Char) : 0 < (piece cs).2 := by
  unfold piece
  split
  · exact Nat.succ_pos _
  · split
    · next ht => exact lex?_length_pos ht
    · cases hr : nonBlankRun cs with
      | none => exact Nat.one_pos
      | some u =>
        refine List.length_pos_iff.2 ?_
        unfold nonBlankRun at hr
        grind

/-- Ignored characters come first, all that there are. -/
theorem piece_of_takeWhile {cs t : List Char} {c : Char} (h : cs.takeWhile isIgnored = c :: t) :
    piece cs = (.gap, (c :: t).length) := by
  rw [piece, h]

/-- A token that nothing is ignored before is the next piece. -/
theorem piece_of_lex? {cs : List Char} {t : Token} (h : cs.takeWhile isIgnored = [])
    (ht : lex? cs = some t) : piece cs = (.token t, t.text.length) := by
  simp only [piece, h, ht]

/-- Where there is neither, the piece is a run without blanks, or one character. -/
theorem piece_of_lex?_eq_none {cs : List Char} (h : cs.takeWhile isIgnored = [])
    (ht : lex? cs = none) :
    piece cs = (.unknown, ((nonBlankRun cs).map List.length).getD 1) := by
  simp only [piece, h, ht]

/-- A piece does not go beyond the text. -/
theorem piece_length_le {cs : List Char} (h : cs ≠ []) : (piece cs).2 ≤ cs.length := by
  unfold piece
  split
  · next hg => exact hg ▸ (List.takeWhile_prefix isIgnored).length_le
  · split
    · next t ht => exact String.length_toList ▸ (prefix_of_lex? ht).length_le
    · cases hr : nonBlankRun cs with
      | none => exact List.length_pos_iff.2 h
      | some u =>
        unfold nonBlankRun at hr
        split at hr
        · cases hr
        · obtain rfl := Option.some.inj hr
          exact (List.takeWhile_prefix _).length_le

/-- A piece that lies in a common front is a piece of both texts. -/
theorem piece_of_takesAlike {v w w' : List Char} (hp : ∀ k, TakesAlike (pattern k) v w w')
    (hb : TakesAlike nonBlankRun v w w')
    (hi : ((v ++ w).takeWhile isIgnored).length ≤ v.length →
      (v ++ w').takeWhile isIgnored = (v ++ w).takeWhile isIgnored)
    (h : (piece (v ++ w)).2 ≤ v.length) : piece (v ++ w') = piece (v ++ w) := by
  -- Ignored characters come first, then tokens, then what is neither: the order in which a piece is
  -- cut.
  cases hg : (v ++ w).takeWhile isIgnored with
  | cons c t =>
    rw [piece_of_takeWhile hg] at h ⊢
    rw [piece_of_takeWhile (hi (hg ▸ h) ▸ hg)]
  | nil =>
    have hg' : (v ++ w').takeWhile isIgnored = [] := hi (hg ▸ Nat.zero_le _) ▸ hg
    cases ht : lex? (v ++ w) with
    | some t =>
      rw [piece_of_lex? hg ht] at h ⊢
      rw [piece_of_lex? hg' (lex?_of_takesAlike hp ht h)]
    | none =>
      rw [piece_of_lex?_eq_none hg ht] at h ⊢
      rw [piece_of_lex?_eq_none hg' (lex?_eq_none_of_takesAlike hp ht)]
      cases hr : nonBlankRun (v ++ w) with
      | some u =>
        rw [hr] at h
        rw [hb.some hr h]
      | none => rw [hb.none hr]

/-- The next piece of a text is that of a front in which it lies. -/
theorem piece_of_append {v w : List Char} (h : (piece (v ++ w)).2 ≤ v.length) :
    piece (v ++ w) = piece v := by
  have := piece_of_takesAlike (fun k => (isLocal_pattern k).takesAlike v w)
    (isLocal_nonBlankRun.takesAlike v w)
    (fun hle => by rw [List.append_nil, takeWhile_of_append hle]) h
  rw [← this, List.append_nil]

/-- A name that is next is taken whole. -/
theorem piece_name {c : Char} (hc : isNameStart c = true) (cs : List Char) :
    piece (c :: cs) = (.token ⟨.name, String.ofList (c :: cs.takeWhile isNameChar)⟩,
      (c :: cs.takeWhile isNameChar).length) := by
  have hstart : isStart c = true := by simp [isStart, hc]
  rw [piece_of_lex? (t := ⟨.name, String.ofList (c :: cs.takeWhile isNameChar)⟩)]
  · simp [Nat.add_comm]
  · rw [List.takeWhile_cons, (not_isIgnored_of_isStart hstart).1]
    rfl
  · rw [lex?_eq, name?, if_pos hc]
    rfl

/-- No token begins with a gap. -/
theorem lex?_eq_none_of_isGap {c : Char} (hc : isGap c = true) (cs : List Char) :
    lex? (c :: cs) = none := by
  refine Option.eq_none_iff_forall_ne_some.2 fun t ht => ?_
  by_cases hk : t.kind = .comment
  · obtain ⟨k, -, hp⟩ := List.exists_of_findSome?_eq_some ht
    obtain ⟨u, hu, rfl⟩ := Option.map_eq_some_iff.1 hp
    obtain rfl : k = .comment := hk
    have hne : c ≠ '#' := by
      rintro rfl
      exact absurd hc (by decide)
    simp [pattern, comment?, hne] at hu
  · rw [(not_isIgnored_of_isStart (isStart_of_lex? ht hk)).2] at hc
    cases hc

/-- A gap that is not ignored is read by one character at a time. -/
theorem piece_of_isGap {c : Char} {cs : List Char} (hc : isGap c = true)
    (hg : (c :: cs).takeWhile isIgnored = []) : piece (c :: cs) = (.unknown, 1) := by
  have hi : isIgnored c = false := by
    refine Bool.eq_false_iff.2 fun hi => ?_
    rw [List.takeWhile_cons_of_pos hi] at hg
    cases hg
  have hb : isBlank c = true := by
    have hcomma : c ≠ ',' := by
      rintro rfl
      exact absurd hi (by decide)
    simpa [isGap, hcomma] using hc
  have hr : nonBlankRun (c :: cs) = none := by simp [nonBlankRun, hb]
  rw [piece_of_lex?_eq_none hg (lex?_eq_none_of_isGap hc cs), hr]
  rfl

/-- Where a gap is next, what is read is no token. -/
theorem piece_ne_token {c : Char} (hc : isGap c = true) (cs : List Char) (t : Token) :
    (piece (c :: cs)).1 ≠ .token t := by
  cases hg : (c :: cs).takeWhile isIgnored with
  | cons d r =>
    rw [piece_of_takeWhile hg]
    nofun
  | nil =>
    rw [piece_of_isGap hc hg]
    nofun

/-- Where a gap is next, what is read lies in the gap, unless an ignored character follows it. -/
theorem piece_length_le_of_isGap {c : Char} (hc : isGap c = true) {cs : List Char}
    (hcs : ∀ d ∈ ((c :: cs).dropWhile isGap).head?, isIgnored d = false) :
    (piece (c :: cs)).2 ≤ ((c :: cs).takeWhile isGap).length := by
  cases hg : (c :: cs).takeWhile isIgnored with
  | cons d t =>
    rw [piece_of_takeWhile hg]
    have := length_takeWhile_append_le hcs ((c :: cs).takeWhile isGap)
    rwa [List.takeWhile_append_dropWhile, hg] at this
  | nil =>
    rw [piece_of_isGap hc hg, List.takeWhile_cons_of_pos hc]
    exact Nat.succ_pos _

/-- So what comes after the gap stays the same. -/
theorem dropWhile_drop_piece {c : Char} (hc : isGap c = true) {cs : List Char}
    (hcs : ∀ d ∈ ((c :: cs).dropWhile isGap).head?, isIgnored d = false) :
    ((c :: cs).drop (piece (c :: cs)).2).dropWhile isGap = (c :: cs).dropWhile isGap :=
  dropWhile_drop (piece_length_le_of_isGap hc hcs)

end Lexer

namespace Chain

/-- What a chain makes of a piece with the text after it: the style, and the chain after it. -/
def react (g : Grammar) (c : Chain) (x : Piece) (ahead : List Char) :
    Except RuleKind String × Chain :=
  match x with
  | .gap => (.ok "ws", c.settle)
  | .unknown => (.ok "invalidchar", c.settle.enterInvalid)
  | .token t =>
    if t.kind = .comment then (.ok "comment", c.settle.enterComment)
    else
      match match? g t ahead c.settle.budget c.settle with
      | .accepted style d => (.ok style, d)
      | .unknownRule k d => (.error k, d)
      | .misfit | .exhausted => (.ok "invalidchar", c.settle.enterInvalid)

/-- What a chain makes of a piece depends on what it settles to only. -/
theorem react_congr {g : Grammar} {c d : Chain} (h : c.settle = d.settle) (x : Piece)
    (a : List Char) : react g c x a = react g d x a := by
  unfold react
  rw [h]

/-- A **reading** is the next piece with the reaction to it. -/
theorem read_eq (g : Grammar) {s : Stream} (c : Chain) (hs : s.rest ≠ []) :
    Chain.read g s c =
      ⟨(react g c (Lexer.piece s.rest).1 (s.rest.drop (Lexer.piece s.rest).2)).1,
        s.take (Lexer.piece s.rest).2,
        (react g c (Lexer.piece s.rest).1 (s.rest.drop (Lexer.piece s.rest).2)).2⟩ := by
  unfold Chain.read Lexer.piece Stream.skipWhile Stream.next?
  dsimp only
  cases s.rest.takeWhile isIgnored with
  | cons c t => rfl
  | nil =>
    cases ht : Lexer.lex? s.rest with
    | some t =>
      simp only [Option.map_some, react]
      split
      · rfl
      · split <;> simp_all
    | none =>
      simp only [Option.map_none, react]
      unfold skipUnknown Stream.read?
      cases hr : Lexer.nonBlankRun s.rest with
      | some u => rfl
      | none =>
        -- What is no run of other characters is a single blank.
        obtain ⟨b, hb⟩ := Option.isSome_iff_exists.1 (Lexer.oneBlank_of_nonBlankRun hs hr)
        have hlen : b.length = 1 := by
          unfold Lexer.oneBlank at hb
          grind
        simp only [hb, Option.map_some, Option.map_none, Option.getD_none, hlen]

end Chain

end QueryAssist
