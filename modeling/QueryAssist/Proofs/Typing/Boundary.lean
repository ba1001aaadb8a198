import Mathlib.Data.List.Basic
import QueryAssist.Proofs.Cursor.Prefix

/-! # Names after a boundary

A name that stands right after ignored characters or punctuation is read on its own, and the text
before it is read as it was without the name. Main definitions:

* **`IsName`** — a text that the lexer takes whole as a name.
* **`EndsAtBoundary`** — a text of which the last piece is ignored or punctuation.

Main statement: `EndsAtBoundary.piece_append`, no piece of such a text reaches into a name after
it. -/

namespace QueryAssist

open Lexer

/-- A text is a **name** if the lexer takes all of it as one. -/
def IsName (cs : List Char) : Prop := name? cs = some cs

instance (cs : List Char) : Decidable (IsName cs) := inferInstanceAs (Decidable (_ = _))

theorem not_isName_nil : ¬IsName [] := nofun

/-- A name is a character that begins one, and characters that go on with it. -/
theorem isName_cons {c : Char} {cs : List Char} :
    IsName (c :: cs) ↔ isNameStart c = true ∧ ∀ d ∈ cs, isNameChar d = true := by
  simp only [IsName, name?]
  split
  · next hc => simp [hc, List.takeWhile_eq_self_iff]
  · next hc => simp [hc]

/-- A name is no other text. -/
theorem IsName.ne {n m : String} (h : IsName n.toList) (hm : ¬IsName m.toList) : n ≠ m := by
  rintro rfl
  exact hm h

/-- The first characters of a name are a name. -/
theorem IsName.of_isPrefix {u v : List Char} (h : IsName u) (hv : v <+: u) (hne : v ≠ []) :
    IsName v := by
  obtain ⟨c, cs, rfl⟩ := List.exists_cons_of_ne_nil hne
  obtain ⟨w, rfl⟩ := hv
  obtain ⟨hc, hcs⟩ := isName_cons.1 h
  exact isName_cons.2 ⟨hc, fun d hd => hcs d (List.mem_append_left w hd)⟩

/-- What holds of the ASCII characters that begin a name holds of all that do. -/
theorem of_isNameStart {q : Char → Prop}
    (hq : ∀ n < 128, isNameStart (Char.ofNat n) = true → q (Char.ofNat n)) {c : Char}
    (hc : isNameStart c = true) : q c := by
  have hs : isStart c = true := by simp [isStart, hc]
  have := hq c.toNat (toNat_lt_of_isStart hs)
  rw [Char.ofNat_toNat] at this
  exact this hc

/-- A run that reaches past a text takes all of it. -/
theorem takeWhile_eq_self_of_lt {q : Char → Bool} {v w : List Char}
    (h : v.length < ((v ++ w).takeWhile q).length) : v.takeWhile q = v := by
  rw [List.takeWhile_append] at h
  split at h
  · next hl => exact (List.takeWhile_prefix q).eq_of_length hl
  · exact absurd (List.takeWhile_prefix q).length_le (Nat.not_le.2 h)

namespace IsName

variable {p : List Char}

/-- What does not hold of any character that begins a name does not hold of the first one. -/
theorem head?_eq_false {q : Char → Bool} (h : IsName p)
    (hq : ∀ n < 128, isNameStart (Char.ofNat n) = true → q (Char.ofNat n) = false) :
    ∀ c ∈ p.head?, q c = false := by
  cases p with
  | nil => nofun
  | cons c r =>
    rintro d hd
    obtain rfl := Option.some.inj hd
    exact of_isNameStart (q := fun c => q c = false) hq (isName_cons.1 h).1

/-- A name does not begin with a character that begins none. -/
theorem head?_ne {c : Char} (h : IsName p) (hc : isNameStart c = false) : p.head? ≠ some c := by
  cases p with
  | nil => nofun
  | cons d r =>
    intro hd
    obtain rfl := Option.some.inj hd
    rw [(isName_cons.1 h).1] at hc
    cases hc

/-- Digits end before a name. -/
theorem length_digits_le (h : IsName p) (v : List Char) : (digits (v ++ p)).length ≤ v.length :=
  length_takeWhile_append_le (h.head?_eq_false (by decide)) v

end IsName

/-! ### Tokens that reach into a name -/

namespace Lexer

variable {v p u : List Char}

/-- A name that is read over a boundary is read up to there without what follows. -/
theorem name?_of_lt (hv : v ≠ []) (h : name? (v ++ p) = some u) (hu : v.length < u.length) :
    name? v = some v := by
  obtain ⟨c, cs, rfl⟩ := List.exists_cons_of_ne_nil hv
  simp only [List.cons_append, name?] at h ⊢
  split at h
  · next hc =>
    obtain rfl := Option.some.inj h
    rw [if_pos hc, takeWhile_eq_self_of_lt (Nat.lt_of_succ_lt_succ hu)]
  · cases h

/-- A comment that is read over a boundary is read up to there without what follows. -/
theorem comment?_of_lt (hv : v ≠ []) (h : comment? (v ++ p) = some u) (hu : v.length < u.length) :
    comment? v = some v := by
  obtain ⟨c, cs, rfl⟩ := List.exists_cons_of_ne_nil hv
  by_cases hc : c = '#'
  · subst hc
    obtain rfl := Option.some.inj h
    rw [comment?, takeWhile_eq_self_of_lt (Nat.lt_of_succ_lt_succ hu)]
  · simp [comment?, hc] at h

/-- Punctuation does not reach into a name. -/
theorem length_punctuation?_le (hp : IsName p) (hv : v ≠ []) (h : punctuation? (v ++ p) = some u) :
    u.length ≤ v.length := by
  have hpos := List.length_pos_iff.2 hv
  obtain ⟨c, cs, rfl⟩ := List.exists_cons_of_ne_nil hv
  rw [List.cons_append, punctuation?_cons] at h
  split at h
  · next hd =>
    obtain rfl := Option.some.inj h
    -- None of the three dots is the first character of the name.
    have hdot : p.head? ≠ some '.' := hp.head?_ne (by decide)
    obtain ⟨ds, hds⟩ := hd
    match cs, hds with
    | _ :: _ :: _, _ => simp
    | [], hds => exact absurd (congrArg List.head? (List.cons.inj hds).2).symm hdot
    | [_], hds =>
      exact absurd (congrArg List.head? (List.cons.inj (List.cons.inj hds).2).2).symm hdot
  · split at h
    · obtain rfl := Option.some.inj h
      exact hpos
    · cases h

/-- The whole part of a number does not reach into a name. -/
theorem length_whole?_append_le (hp : IsName p) (hv : v ≠ []) (h : whole? (v ++ p) = some u) :
    u.length ≤ v.length := by
  obtain ⟨c, cs, rfl⟩ := List.exists_cons_of_ne_nil hv
  simp only [List.cons_append, whole?] at h
  split at h
  · obtain rfl := Option.some.inj h
    simp
  · split at h
    · obtain rfl := Option.some.inj h
      simpa using hp.length_digits_le cs
    · cases h

/-- The fraction of a number does not reach into a name, which begins with no dot. -/
theorem length_fraction_append_le (hp : IsName p) (v : List Char) :
    (fraction (v ++ p)).length ≤ v.length := by
  have hdot : p.head? ≠ some '.' := hp.head?_ne (by decide)
  match v with
  | [] =>
    obtain ⟨c, r, rfl⟩ := List.exists_cons_of_ne_nil (mt (· ▸ hp) not_isName_nil)
    have hc : c ≠ '.' := fun hc => hdot (congrArg some hc)
    simp [fraction, hc]
  | c :: cs =>
    by_cases hc : c = '.'
    · subst hc
      simpa [fraction] using hp.length_digits_le cs
    · simp [fraction, hc]

/-- An exponent only reaches into a name that has its letter. -/
theorem length_exponent_append_le (hp : IsName p) (hv : v ≠ []) :
    (exponent (v ++ p)).length ≤ v.length := by
  obtain ⟨c, cs, rfl⟩ := List.exists_cons_of_ne_nil hv
  simp only [List.cons_append, exponent]
  split
  · split
    · next ds hds =>
      refine Nat.succ_le_succ ?_
      cases cs with
      | nil =>
        -- Neither a sign nor a digit begins a name.
        have hs := hp.head?_eq_false (q := fun c => c == '+' || c == '-' || c.isDigit) (by decide)
        obtain ⟨d, r, rfl⟩ := List.exists_cons_of_ne_nil (mt (· ▸ hp) not_isName_nil)
        have hd := hs d rfl
        simp only [Bool.or_eq_false_iff] at hd
        simp [exponentDigits?, hd] at hds
      | cons d r =>
        simp only [List.cons_append, exponentDigits?] at hds
        have hr := hp.length_digits_le r
        have hdr := hp.length_digits_le (d :: r)
        split at hds
        · split at hds
          · cases hds
          · obtain rfl := Option.some.inj hds
            exact Nat.succ_le_succ hr
        · split at hds
          · obtain rfl := Option.some.inj hds
            exact hdr
          · cases hds
    · exact Nat.zero_le _
  · exact Nat.zero_le _

/-- A number that reaches into a name takes its exponent from there, and is whole without it. -/
theorem unsigned?_of_lt (hp : IsName p) (hv : v ≠ []) (h : unsigned? (v ++ p) = some u)
    (hu : v.length < u.length) : unsigned? v = some v := by
  obtain ⟨w, hw, rfl⟩ := Option.map_eq_some_iff.1 h
  have hle := length_whole?_append_le hp hv hw
  have hwv := isLocal_whole?.some hw hle
  obtain ⟨x, rfl⟩ := whole?_prefix hwv
  simp only [List.append_assoc, List.drop_left] at hu
  have hf := isLocalPart_fraction (length_fraction_append_le hp x)
  have hfr : fraction x <+: x := fraction_prefix x
  have hfx := hfr.length_le
  rw [hf, List.drop_append_of_le_length hfx] at hu
  simp only [List.length_append] at hu
  -- What is left for the exponent can only be empty.
  have hnil : x.drop (fraction x).length = [] := by
    refine Decidable.byContradiction fun hne => ?_
    have := length_exponent_append_le hp hne
    rw [List.length_drop] at this
    omega
  have hx := hfr.eq_of_length_le (List.drop_eq_nil_iff.1 hnil)
  simp only [unsigned?, hwv, Option.map_some, List.drop_left, hx, List.drop_length]
  simp [exponent]

/-- A number that is read over a boundary before a name is read up to there without the name. -/
theorem number?_of_lt (hp : IsName p) (hv : v ≠ []) (h : number? (v ++ p) = some u)
    (hu : v.length < u.length) : number? v = some v := by
  obtain ⟨c, cs, rfl⟩ := List.exists_cons_of_ne_nil hv
  rw [List.cons_append, number?_cons] at h
  rw [number?_cons]
  split at h
  · next hc =>
    obtain ⟨a, ha, rfl⟩ := Option.map_eq_some_iff.1 h
    have hcs : cs ≠ [] := by
      rintro rfl
      -- A name begins with no digit.
      have hd := hp.head?_eq_false (q := fun c => c == '0' || c.isDigit) (by decide)
      obtain ⟨d, r, rfl⟩ := List.exists_cons_of_ne_nil (mt (· ▸ hp) not_isName_nil)
      have hd := hd d rfl
      simp only [Bool.or_eq_false_iff] at hd
      simp [unsigned?, whole?, hd] at ha
    rw [if_pos hc, unsigned?_of_lt hp hcs ha (Nat.lt_of_succ_lt_succ hu), hc]
    rfl
  · next hc =>
    rw [if_neg hc]
    exact unsigned?_of_lt hp hv h hu

/-- A hexadecimal digit is not blank. -/
theorem isBlank_of_isHexDigit {c : Char} (h : isHexDigit c = true) : isBlank c = false := by
  have hv : c.toNat = c.val.toNat := rfl
  have hrange : (48 ≤ c.toNat ∧ c.toNat ≤ 57) ∨ (97 ≤ c.toNat ∧ c.toNat ≤ 102) ∨
      (65 ≤ c.toNat ∧ c.toNat ≤ 70) := by
    simpa [isHexDigit, Char.isDigit, Char.le_def, UInt32.le_iff_toNat_le, ← hv, or_assoc] using h
  simp only [isBlank, Bool.or_eq_false_iff, Bool.and_eq_false_iff, beq_eq_false_iff_ne,
    decide_eq_false_iff_not]
  omega

/-- A string that reaches into what comes after a text has all of the text in its body, or all up to
part of an escape. -/
theorem stringBody_of_lt (h : v.length < (stringBody (v ++ p)).length) :
    stringBody v = v ∨ ∃ y, v = stringBody v ++ '\\' :: y ∧ ∀ c ∈ y, isBlank c = false := by
  -- The cases are those of the function on the text.
  fun_induction stringBody v with
  | case1 a b c d cs hx ih =>
    simp only [List.cons_append, stringBody, hx, if_true, List.length_cons] at h
    obtain hi | ⟨y, hy, hblank⟩ := ih (by omega)
    · exact .inl (by rw [hi])
    · exact .inr ⟨y, by simpa using hy, hblank⟩
  | case2 a b c d cs hx => simp [stringBody, hx] at h
  | case3 e cs hu he ih =>
    have hne : e ≠ 'u' := by
      rintro rfl
      exact absurd he (by decide)
    rw [List.cons_append, List.cons_append, stringBody, if_pos he] at h
    · obtain hi | ⟨y, hy, hblank⟩ := ih (by simpa using h)
      · exact .inl (by rw [hi])
      · exact .inr ⟨y, by simpa using hy, hblank⟩
    all_goals simp [hne]
  | case4 e cs hu he =>
    obtain hb | ⟨e', r, hr, he', -⟩ | ⟨a, b, c, d, r, hr, hx, -⟩ :=
      stringBody_backslash (e :: (cs ++ p))
    · simp [hb] at h
    · obtain ⟨rfl, -⟩ := List.cons.inj hr
      exact absurd he' he
    · obtain ⟨rfl, hcs⟩ := List.cons.inj hr
      have hfour : cs <+: [a, b, c, d] := by
        have hlt : cs.length ≤ 4 := by
          refine Nat.le_of_not_lt fun hlt => ?_
          obtain ⟨a', b', c', d', r', rfl⟩ := exists_eq_cons_of_four_le hlt.le
          exact hu a' b' c' d' r' rfl rfl
        exact List.prefix_of_prefix_length_le (List.prefix_append cs p)
          (hcs ▸ List.prefix_append [a, b, c, d] r) hlt
      refine .inr ⟨'u' :: cs, rfl, List.forall_mem_cons.2 ⟨by decide, fun x hmem => ?_⟩⟩
      exact isBlank_of_isHexDigit (hx x (hfour.subset hmem))
  | case5 c cs hu he hc =>
    by_cases hq : c = '"'
    · subst hq
      simp [stringBody] at h
    · obtain rfl : c = '\\' := by simpa [hq] using hc
      obtain rfl : cs = [] := by
        cases cs with
        | nil => rfl
        | cons e r => exact (he e r rfl rfl).elim
      exact .inr ⟨[], rfl, List.forall_mem_nil _⟩
  | case6 c cs hu he hc ih =>
    simp only [Bool.or_eq_true, beq_iff_eq, not_or] at hc
    rw [List.cons_append, stringBody_plain hc.1 hc.2] at h
    obtain hi | ⟨y, hy, hblank⟩ := ih (by simpa using h)
    · exact .inl (by rw [hi])
    · exact .inr ⟨y, by simpa using hy, hblank⟩
  | case7 => exact .inl rfl

/-- The token at the head of a text is taken by the pattern of its kind. -/
theorem pattern_of_lex? {cs : List Char} {t : Token} (h : lex? cs = some t) :
    pattern t.kind cs = some t.text.toList := by
  obtain ⟨k, -, hk⟩ := List.exists_of_findSome?_eq_some h
  obtain ⟨u, hu, rfl⟩ := Option.map_eq_some_iff.1 hk
  simpa using hu

/-- If the pattern of the token at the head of a text applies to a front of the text, so does no one
before it. -/
theorem lex?_of_pattern {t : Token} (h : lex? (v ++ p) = some t) (hu : pattern t.kind v = some u) :
    lex? v = some ⟨t.kind, String.ofList u⟩ := by
  unfold lex? at h ⊢
  generalize TokenKind.all = ks at h ⊢
  induction ks with
  | nil => cases h
  | cons k ks ih =>
    rw [List.findSome?_cons] at h ⊢
    cases hk : pattern k (v ++ p) with
    | none =>
      rw [hk] at h
      rw [(isLocal_pattern k).none hk]
      exact ih h
    | some a =>
      rw [hk] at h
      obtain rfl := Option.some.inj h
      rw [hu]
      rfl

/-- No token begins with a backslash. -/
theorem lex?_backslash (cs : List Char) : lex? ('\\' :: cs) = none := by
  have hn : isNameStart '\\' = false := by decide
  have hp : isPunctuation '\\' = false := by decide
  simp [lex?_eq, name?, punctuation?, number?, unsigned?, whole?, string?, comment?, hn, hp]

end Lexer

/-! ### Texts that end at a boundary -/

/-- Whether a piece is a **boundary**: ignored characters or punctuation. -/
def Piece.isBoundary : Piece → Bool
  | gap => true
  | token t => t.kind == .punctuation
  | unknown => false

/-- A text **ends at a boundary** if its last piece is one. -/
inductive EndsAtBoundary : List Char → Prop
  /-- One piece. -/
  | last {v : List Char} (hb : (piece v).1.isBoundary = true) (hn : (piece v).2 = v.length) :
      EndsAtBoundary v
  /-- A piece with more after it. -/
  | next {v : List Char} (h : EndsAtBoundary (v.drop (piece v).2)) : EndsAtBoundary v

namespace EndsAtBoundary

variable {v p : List Char}

/-- A text that ends at a boundary has a character. -/
theorem ne_nil (h : EndsAtBoundary v) : v ≠ [] := by
  induction h with
  | last _ hn =>
    rintro rfl
    exact absurd hn (piece_length_pos []).ne'
  | next _ ih =>
    rintro rfl
    exact ih List.drop_nil

end EndsAtBoundary

variable {v p u : List Char}

/-- A text that is one piece, and no boundary, does not end at one. -/
theorem not_endsAtBoundary (hb : (piece v).1.isBoundary = false) (hn : (piece v).2 = v.length) :
    ¬EndsAtBoundary v := by
  intro h
  cases h with
  | last hb' _ => exact absurd hb' (Bool.eq_false_iff.1 hb)
  | next h => exact h.ne_nil (List.drop_eq_nil_iff.2 hn.ge)

/-- Nor does a text that is one token but not punctuation. -/
theorem not_endsAtBoundary_of_lex? {k : TokenKind} (hv : v.takeWhile isIgnored = [])
    (hl : lex? v = some ⟨k, String.ofList v⟩) (hk : k ≠ .punctuation) : ¬EndsAtBoundary v := by
  have hp := piece_of_lex? hv hl
  refine not_endsAtBoundary ?_ ?_ <;> rw [hp]
  · exact beq_eq_false_iff_ne.2 hk
  · simp

/-- The rest of an escape is no token and no boundary. -/
theorem not_endsAtBoundary_backslash {y : List Char} (hy : ∀ c ∈ y, isBlank c = false) :
    ¬EndsAtBoundary ('\\' :: y) := by
  have hrun : nonBlankRun ('\\' :: y) = some ('\\' :: y) := by
    have : ('\\' :: y).takeWhile (! isBlank ·) = '\\' :: y := by
      rw [List.takeWhile_eq_self_iff]
      refine List.forall_mem_cons.2 ⟨by decide, fun c hc => ?_⟩
      rw [hy c hc]
      rfl
    rw [nonBlankRun, this]
  have hp := piece_of_lex?_eq_none (List.takeWhile_cons_of_neg (by decide)) (lex?_backslash y)
  refine not_endsAtBoundary ?_ ?_ <;> rw [hp]
  · rfl
  · rw [hrun]
    rfl

/-- A text of which a **string** reaches into the name after it does not end at a boundary. -/
theorem not_endsAtBoundary_of_string? (hp : IsName p) (hv : v ≠ [])
    (hl : ∀ w, string? v = some w → lex? v = some ⟨.string, String.ofList w⟩)
    (h : string? (v ++ p) = some u) (hu : v.length < u.length) : ¬EndsAtBoundary v := by
  obtain ⟨c, cs, rfl⟩ := List.exists_cons_of_ne_nil hv
  rw [List.cons_append, string?_cons] at h
  obtain rfl : c = '"' := by
    by_contra hc
    rw [if_neg hc] at h
    cases h
  have hg : ('"' :: cs).takeWhile isIgnored = [] := List.takeWhile_cons_of_neg (by decide)
  -- The closing quote is not the first character of the name.
  have hlt : cs.length < (stringBody (cs ++ p)).length := by
    rw [if_pos rfl] at h
    split at h
    · next hq =>
      obtain rfl := Option.some.inj h
      simp only [List.cons_append, List.length_cons, List.length_append, List.length_nil] at hu
      refine Nat.lt_of_le_of_ne (by omega) fun he => ?_
      rw [← he, List.drop_left] at hq
      exact hp.head?_ne (by decide) hq
    · obtain rfl := Option.some.inj h
      simpa using hu
  obtain hb | ⟨y, hy, hblank⟩ := stringBody_of_lt hlt
  · have hs : string? ('"' :: cs) = some ('"' :: cs) := by
      simp [string?_cons, hb]
    exact not_endsAtBoundary_of_lex? hg (hl _ hs) nofun
  · have hdrop := congrArg (List.drop (stringBody cs).length) hy
    rw [List.drop_left] at hdrop
    have hs : string? ('"' :: cs) = some ('"' :: stringBody cs) := by
      simp [string?_cons, hdrop]
    have hpiece := piece_of_lex? hg (hl _ hs)
    intro hend
    cases hend with
    | last hb _ =>
      rw [hpiece] at hb
      cases hb
    | next hend =>
      rw [hpiece, String.length_ofList, List.length_cons, List.drop_succ_cons, hdrop] at hend
      exact not_endsAtBoundary_backslash hblank hend

/-- A run that is read over a boundary is read up to there without what follows. -/
theorem nonBlankRun_of_lt (hv : v ≠ []) (h : nonBlankRun (v ++ p) = some u)
    (hu : v.length < u.length) : nonBlankRun v = some v := by
  unfold nonBlankRun at h ⊢
  split at h
  · cases h
  · obtain rfl := Option.some.inj h
    rw [takeWhile_eq_self_of_lt hu]
    obtain ⟨c, cs, rfl⟩ := List.exists_cons_of_ne_nil hv
    rfl

/-- **No piece of a text that ends at a boundary reaches into a name after it.** -/
theorem EndsAtBoundary.piece_length_le (h : EndsAtBoundary v) (hp : IsName p) :
    (piece (v ++ p)).2 ≤ v.length := by
  have hv := h.ne_nil
  -- A piece that reached into the name would end the text without it, and be no boundary.
  refine Nat.le_of_not_lt fun hlt => ?_
  cases hg : (v ++ p).takeWhile isIgnored with
  | cons c r =>
    rw [piece_of_takeWhile hg, ← hg] at hlt
    have := length_takeWhile_append_le (hp.head?_eq_false (q := isIgnored) (by decide)) v
    exact absurd hlt (Nat.not_lt.2 this)
  | nil =>
    have hgv : v.takeWhile isIgnored = [] :=
      takeWhile_of_append (by rw [hg]; exact Nat.zero_le _) ▸ hg
    cases ht : lex? (v ++ p) with
    | none =>
      rw [piece_of_lex?_eq_none hg ht] at hlt
      have hrun : nonBlankRun v = some v := by
        cases hr : nonBlankRun (v ++ p) with
        | none =>
          rw [hr] at hlt
          exact absurd (List.length_pos_iff.2 hv) (Nat.not_lt.2 (Nat.le_of_lt_succ hlt))
        | some u =>
          rw [hr] at hlt
          exact nonBlankRun_of_lt hv hr hlt
      have hpiece := piece_of_lex?_eq_none hgv (lex?_eq_none_of_append ht)
      refine not_endsAtBoundary ?_ ?_ h <;> rw [hpiece]
      · rfl
      · rw [hrun]
        rfl
    | some t =>
      rw [piece_of_lex? hg ht, ← String.length_toList] at hlt
      have hl := fun u => lex?_of_pattern (u := u) ht
      have hpat := pattern_of_lex? ht
      cases hk : t.kind <;> rw [hk] at hl hpat
      · exact not_endsAtBoundary_of_lex? hgv (hl _ (name?_of_lt hv hpat hlt)) nofun h
      · exact absurd hlt (Nat.not_lt.2 (length_punctuation?_le hp hv hpat))
      · exact not_endsAtBoundary_of_lex? hgv (hl _ (number?_of_lt hp hv hpat hlt)) nofun h
      · exact not_endsAtBoundary_of_string? hp hv hl hpat hlt h
      · exact not_endsAtBoundary_of_lex? hgv (hl _ (comment?_of_lt hv hpat hlt)) nofun h

/-- The pieces of such a text are **the same** with the name after it. -/
theorem EndsAtBoundary.piece_append (h : EndsAtBoundary v) (hp : IsName p) :
    piece (v ++ p) = piece v :=
  piece_of_append (h.piece_length_le hp)

/-- A name is one piece. -/
theorem IsName.piece_eq (hp : IsName p) :
    piece p = (.token ⟨.name, String.ofList p⟩, p.length) := by
  obtain ⟨c, cs, rfl⟩ := List.exists_cons_of_ne_nil (mt (· ▸ hp) not_isName_nil)
  obtain ⟨hc, hcs⟩ := isName_cons.1 hp
  rw [piece_name hc, List.takeWhile_eq_self_iff.2 hcs]

/-- After the first piece comes nothing, or a text that ends at a boundary too. -/
theorem EndsAtBoundary.drop_piece (h : EndsAtBoundary v) :
    v.drop (piece v).2 = [] ∨ EndsAtBoundary (v.drop (piece v).2) := by
  cases h with
  | last _ hn => exact .inl (List.drop_eq_nil_iff.2 hn.ge)
  | next h => exact .inr h

/-- If such a text has nothing but a gap and part of the word `on`, it has nothing but the gap. -/
theorem EndsAtBoundary.dropWhile_eq_nil (h : EndsAtBoundary v)
    (hv : v.dropWhile isGap <+: ['o', 'n']) : v.dropWhile isGap = [] := by
  -- A gap at the head is read without what comes after it, and the word would be one piece.
  have hgap : ∀ {w : List Char}, EndsAtBoundary w → w.dropWhile isGap <+: ['o', 'n'] →
      (w.drop (piece w).2).dropWhile isGap = w.dropWhile isGap := by
    intro w hw hon
    obtain ⟨c, cs, rfl⟩ := List.exists_cons_of_ne_nil hw.ne_nil
    by_cases hc : isGap c = true
    · refine dropWhile_drop_piece hc fun d hd => ?_
      have hmem := hon.subset (List.mem_of_head? hd)
      simp only [List.mem_cons, List.not_mem_nil, or_false] at hmem
      rcases hmem with rfl | rfl <;> decide
    · rw [List.dropWhile_cons_of_neg hc] at hon
      have hname : IsName (c :: cs) :=
        IsName.of_isPrefix (u := ['o', 'n']) (by decide) hon (List.cons_ne_nil c cs)
      refine absurd hw (not_endsAtBoundary ?_ ?_) <;> rw [hname.piece_eq]
      rfl
  induction h with
  | @last v hb hn =>
    rw [← hgap (.last hb hn) hv, hn, List.drop_length]
    rfl
  | @next v h ih =>
    have := hgap (.next h) hv
    rw [← this, ih (this ▸ hv)]

end QueryAssist
