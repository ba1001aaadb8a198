import QueryAssist.Proofs.Json.Grammar
import QueryAssist.Proofs.Steps

/-! # Words, numbers and strings

The leaves of the grammar are read as they are written: a number up to the character that ends it,
and a string up to its quote. Main definitions:

* **`Json.EndsNumber`** — the texts before which a number ends.
* **`Json.Stops`** — the reader stops at a limit.
* **`Json.Reaches`** — the reader gets to a value, unless it stops at a limit.

Main statements: `numberText_spec` and `numberText_append`, what is read as a number,
`writes_of_atom`, `atom_word` and `atom_number`, words and numbers, and `writesString_of_string` and
`string_append`, strings. -/

namespace QueryAssist

namespace Json

/-! ### Numbers -/

/-- A text **ends a number**: it does not go on with a digit, a point or an exponent. -/
def EndsNumber (rest : List Char) : Prop :=
  ∀ c ∈ rest.head?, c.isDigit = false ∧ c ≠ '.' ∧ c ≠ 'e' ∧ c ≠ 'E'

variable {cs ds rest : List Char}

/-- Digits are taken up to a character that is none. -/
theorem takeWhile_isDigit_append (hd : ∀ c ∈ ds, c.isDigit = true)
    (hr : ∀ c ∈ rest.head?, c.isDigit = false) : (ds ++ rest).takeWhile Char.isDigit = ds := by
  have hrest : rest.takeWhile Char.isDigit = [] := by
    cases rest with
    | nil => rfl
    | cons c rest => rw [List.takeWhile_cons_of_neg (by simp [hr c rfl])]
  rw [List.takeWhile_append_of_pos hd, hrest, List.append_nil]

/-- What is taken that way are digits, if there are any. -/
theorem isDigits_takeWhile (h : cs.takeWhile Char.isDigit ≠ []) :
    IsDigits (cs.takeWhile Char.isDigit) :=
  ⟨h, fun _ hc => List.mem_takeWhile_imp hc⟩

/-- Where no zero stands first, all digits are before the point. -/
theorem integer_of_ne (h : cs.head? ≠ some '0') : integer cs = cs.takeWhile Char.isDigit := by
  unfold integer
  split
  · exact absurd rfl h
  · rfl

/-- What is read before the point are its digits. -/
theorem integer_spec (h : integer cs ≠ []) : IsWhole (integer cs) ∧ integer cs <+: cs := by
  by_cases hz : cs.head? = some '0'
  · obtain ⟨ds, rfl⟩ := List.head?_eq_some_iff.1 hz
    exact ⟨⟨⟨by simp [integer], by simp [integer]⟩, fun _ => rfl⟩, ds, rfl⟩
  · rw [integer_of_ne hz] at h ⊢
    have hpre := List.takeWhile_prefix Char.isDigit (l := cs)
    refine ⟨⟨isDigits_takeWhile h, fun hhead => absurd ?_ hz⟩, hpre⟩
    obtain ⟨more, hmore⟩ := hpre
    rw [← hmore, List.head?_append, hhead]
    rfl

/-- So it is for a fraction. -/
theorem fraction_spec (cs : List Char) : IsFraction (fraction cs) ∧ fraction cs <+: cs := by
  unfold fraction
  split
  · next ds =>
    split
    · next hd =>
      refine ⟨.inr ⟨_, isDigits_takeWhile fun hnil => ?_, rfl⟩, ?_⟩
      · cases ds with
        | nil => cases hd
        | cons d ds => simp [show d.isDigit = true from hd] at hnil
      · exact List.cons_prefix_cons.2 ⟨rfl, List.takeWhile_prefix _⟩
    · exact ⟨.inl rfl, List.nil_prefix⟩
  · exact ⟨.inl rfl, List.nil_prefix⟩

/-- The sign of an exponent. -/
def exponentSign (ds : List Char) : List Char :=
  match ds with
  | '+' :: _ => ['+']
  | '-' :: _ => ['-']
  | _ => []

/-- The sign of an exponent is a plus, a minus or nothing, and stands in front. -/
theorem exponentSign_spec (ds : List Char) :
    (exponentSign ds = [] ∨ exponentSign ds = ['+'] ∨ exponentSign ds = ['-']) ∧
      exponentSign ds <+: ds := by
  unfold exponentSign
  split
  · exact ⟨.inr (.inl rfl), _, rfl⟩
  · exact ⟨.inr (.inr rfl), _, rfl⟩
  · exact ⟨.inl rfl, List.nil_prefix⟩

/-- An exponent is a letter with a sign and digits, or nothing without the digits. -/
theorem exponent_cons (c : Char) (ds : List Char) : exponent (c :: ds) =
    if c == 'e' || c == 'E' then
      let digits := (ds.drop (exponentSign ds).length).takeWhile Char.isDigit
      if digits.isEmpty then [] else c :: (exponentSign ds ++ digits)
    else [] := rfl

/-- And so it is for an exponent. -/
theorem exponent_spec (cs : List Char) : IsExponent (exponent cs) ∧ exponent cs <+: cs := by
  cases cs with
  | nil => exact ⟨.inl rfl, List.nil_prefix⟩
  | cons c ds =>
    rw [exponent_cons]
    dsimp only
    split
    · next hc =>
      split
      · exact ⟨.inl rfl, List.nil_prefix⟩
      · next hd =>
        obtain ⟨hsign, hpre⟩ := exponentSign_spec ds
        refine ⟨.inr ⟨c, _, _, by simpa using hc, hsign, isDigits_takeWhile ?_, rfl⟩, ?_⟩
        · simpa using hd
        · refine List.cons_prefix_cons.2 ⟨rfl, ?_⟩
          conv_rhs => rw [← List.prefix_iff_eq_append.1 hpre]
          exact List.prefix_append_right_inj _ |>.2 (List.takeWhile_prefix _)
    · exact ⟨.inl rfl, List.nil_prefix⟩

/-- The sign of a number. -/
def numberSign (cs : List Char) : List Char := if cs.head? == some '-' then ['-'] else []

/-- A number is read part by part. -/
theorem numberText_of_parts {sign whole frac rest : List Char}
    (hsign : numberSign (sign ++ (whole ++ (frac ++ rest))) = sign) (hne : whole ≠ [])
    (hwhole : integer (whole ++ (frac ++ rest)) = whole) (hfrac : fraction (frac ++ rest) = frac) :
    numberText (sign ++ (whole ++ (frac ++ rest))) =
      sign ++ (whole ++ (frac ++ exponent rest)) := by
  rw [numberSign] at hsign
  have hempty : whole.isEmpty = false := by simpa using hne
  unfold numberText
  dsimp only
  rw [hsign, List.drop_left, hwhole, hempty, ← List.drop_drop, List.drop_left, List.drop_left,
    hfrac, List.drop_left]
  simp

/-- What is read as a number **has the parts** of one. -/
theorem exists_parts_of_numberText (h : numberText cs ≠ []) :
    ∃ sign cs₁ cs₂ cs₃, (sign = [] ∨ sign = ['-']) ∧ cs = sign ++ cs₁ ∧ integer cs₁ ≠ [] ∧
      integer cs₁ ++ cs₂ = cs₁ ∧ fraction cs₂ ++ cs₃ = cs₂ ∧
      numberText cs = sign ++ (integer cs₁ ++ (fraction cs₂ ++ exponent cs₃)) := by
  -- The sign first, since the other parts are those of what comes after it.
  obtain ⟨sign, cs₁, hs, hsign, rfl⟩ : ∃ sign cs₁, (sign = [] ∨ sign = ['-']) ∧
      numberSign cs = sign ∧ sign ++ cs₁ = cs := by
    unfold numberSign
    split
    · next hc =>
      obtain ⟨ds, rfl⟩ := List.head?_eq_some_iff.1 (beq_iff_eq.1 hc)
      exact ⟨['-'], ds, .inr rfl, rfl, rfl⟩
    · exact ⟨[], cs, .inl rfl, rfl, rfl⟩
  have hne : integer cs₁ ≠ [] := by
    intro hnil
    refine h ?_
    rw [numberSign] at hsign
    unfold numberText
    dsimp only
    rw [hsign, List.drop_left, hnil]
    rfl
  obtain ⟨-, cs₂, hcs₂⟩ := integer_spec hne
  obtain ⟨-, cs₃, hcs₃⟩ := fraction_spec cs₂
  refine ⟨sign, cs₁, cs₂, cs₃, hs, rfl, hne, hcs₂, hcs₃, ?_⟩
  have hcs : sign ++ cs₁ = sign ++ (integer cs₁ ++ (fraction cs₂ ++ cs₃)) := by
    rw [hcs₃, hcs₂]
  rw [hcs]
  exact numberText_of_parts (hcs ▸ hsign) hne (by rw [hcs₃, hcs₂]) (by rw [hcs₃])

/-- **What is read as a number is one.** -/
theorem numberText_spec (h : numberText cs ≠ []) :
    IsNumber (numberText cs) ∧ numberText cs <+: cs := by
  obtain ⟨sign, cs₁, cs₂, cs₃, hsign, rfl, hne, hcs₂, hcs₃, htext⟩ := exists_parts_of_numberText h
  obtain ⟨hexp, cs₄, hcs₄⟩ := exponent_spec cs₃
  rw [htext]
  refine ⟨⟨_, _, _, _, hsign, (integer_spec hne).1, (fraction_spec cs₂).1, hexp, rfl⟩, cs₄, ?_⟩
  rw [List.append_assoc, List.append_assoc, List.append_assoc, hcs₄, hcs₃, hcs₂]

/-- Digits before a point are read up to their end. -/
theorem integer_append (h : IsWhole cs) (hr : ∀ c ∈ rest.head?, c.isDigit = false) :
    integer (cs ++ rest) = cs := by
  obtain ⟨⟨hne, hdigits⟩, hzero⟩ := h
  by_cases hz : cs.head? = some '0'
  · rw [hzero hz]
    rfl
  · have hhead : (cs ++ rest).head? ≠ some '0' := by rwa [List.head?_append_of_ne_nil _ hne]
    rw [integer_of_ne hhead, takeWhile_isDigit_append hdigits hr]

/-- So is a fraction. -/
theorem fraction_append (h : IsFraction cs)
    (hr : ∀ c ∈ rest.head?, c.isDigit = false ∧ c ≠ '.') : fraction (cs ++ rest) = cs := by
  obtain rfl | ⟨ds, ⟨hne, hdigits⟩, rfl⟩ := h
  · cases rest with
    | nil => rfl
    | cons c rest =>
      rw [List.nil_append, fraction.eq_def]
      split
      · next hc => exact absurd (List.cons.inj hc).1 (hr c rfl).2
      · rfl
  · obtain ⟨d, ds, rfl⟩ := List.exists_cons_of_ne_nil hne
    have hd : d.isDigit = true := hdigits d List.mem_cons_self
    have htake := takeWhile_isDigit_append hdigits fun c hc => (hr c hc).1
    rw [List.cons_append, fraction, htake]
    exact if_pos hd

/-- The sign that stands before digits is the sign of the exponent. -/
theorem exponentSign_append {sign : List Char} (hs : sign = [] ∨ sign = ['+'] ∨ sign = ['-'])
    (h : IsDigits ds) : exponentSign (sign ++ (ds ++ rest)) = sign := by
  obtain ⟨d, ds, rfl⟩ := List.exists_cons_of_ne_nil h.1
  have hd : d.isDigit = true := h.2 d List.mem_cons_self
  obtain rfl | rfl | rfl := hs
  · rw [List.nil_append, List.cons_append, exponentSign.eq_def]
    split
    · next heq =>
      rw [(List.cons.inj heq).1] at hd
      cases hd
    · next heq =>
      rw [(List.cons.inj heq).1] at hd
      cases hd
    · rfl
  · rfl
  · rfl

/-- And so is an exponent. -/
theorem exponent_append (h : IsExponent cs)
    (hr : ∀ c ∈ rest.head?, c.isDigit = false ∧ c ≠ 'e' ∧ c ≠ 'E') :
    exponent (cs ++ rest) = cs := by
  obtain rfl | ⟨c, sign, ds, hc, hsign, hds, rfl⟩ := h
  · cases rest with
    | nil => rfl
    | cons c rest =>
      rw [List.nil_append, exponent_cons, if_neg (by simpa using (hr c rfl).2)]
  · have htake := takeWhile_isDigit_append hds.2 fun c hc => (hr c hc).1
    rw [List.cons_append, List.append_assoc, exponent_cons, if_pos (by simpa using hc),
      exponentSign_append hsign hds, List.drop_left, htake]
    exact if_neg (by simpa using hds.1)

/-- The sign of a number stands before its digits. -/
theorem numberSign_append {sign : List Char} (hs : sign = [] ∨ sign = ['-']) (h : IsWhole cs) :
    numberSign (sign ++ (cs ++ rest)) = sign := by
  obtain rfl | rfl := hs
  · obtain ⟨d, ds, rfl⟩ := List.exists_cons_of_ne_nil h.1.1
    have hd : d.isDigit = true := h.1.2 d List.mem_cons_self
    refine if_neg fun heq => ?_
    obtain rfl : d = '-' := by simpa using heq
    cases hd
  · rfl

/-- **A number is read up to its end.** -/
theorem numberText_append (h : IsNumber cs) (hr : EndsNumber rest) :
    numberText (cs ++ rest) = cs := by
  obtain ⟨sign, whole, frac, exp, hsign, hwhole, hfrac, hexp, rfl⟩ := h
  have hexpHead : ∀ c ∈ (exp ++ rest).head?, c.isDigit = false ∧ c ≠ '.' := by
    obtain rfl | ⟨c, s, ds, hc, -, -, rfl⟩ := hexp
    · exact fun c hc => ⟨(hr c hc).1, (hr c hc).2.1⟩
    · rintro _ ⟨⟩
      obtain rfl | rfl := hc <;> decide
  have hfracHead : ∀ c ∈ (frac ++ (exp ++ rest)).head?, c.isDigit = false := by
    obtain rfl | ⟨ds, -, rfl⟩ := hfrac
    · exact fun c hc => (hexpHead c hc).1
    · rintro _ ⟨⟩
      rfl
  have hexponent : exponent (exp ++ rest) = exp :=
    exponent_append hexp fun c hc => ⟨(hr c hc).1, (hr c hc).2.2⟩
  rw [List.append_assoc, List.append_assoc, List.append_assoc,
    numberText_of_parts (numberSign_append hsign hwhole) hwhole.1.1
      (integer_append hwhole hfracHead) (fraction_append hfrac hexpHead), hexponent]

/-! ### Words and numbers -/

/-- The reader **stops at a limit**. -/
def Stops {α : Type} (x : Except Stop α) : Prop := ∃ stop, x = .error stop ∧ stop.1.isLimit = true

/-- The reader **gets to a value** with some text after it, unless it stops at a limit. -/
def Reaches {α : Type} (x : Except Stop (α × List Char)) (a : α) (rest : List Char) : Prop :=
  x = .ok (a, rest) ∨ Stops x

/-- What is read as a word or a number writes its value. -/
theorem writes_of_atom {v : JsonValue} (h : atom cs = .ok (v, rest)) :
    ∃ w, Writes w v ∧ cs = w ++ rest := by
  unfold atom at h
  split at h
  · next w v' hw =>
    obtain ⟨rfl, rfl⟩ := Prod.mk.inj (Except.ok.inj h)
    have hpre := List.find?_some hw
    refine ⟨w, .word (List.mem_of_find?_eq_some hw), ?_⟩
    exact (List.prefix_iff_eq_append.1 (List.isPrefixOf_iff_prefix.1 hpre)).symm
  · split at h
    · cases h
    · next hne =>
      split at h
      · cases h
      · obtain ⟨rfl, rfl⟩ := Prod.mk.inj (Except.ok.inj h)
        obtain ⟨hnumber, hpre⟩ := numberText_spec hne
        exact ⟨_, .number hnumber, (List.prefix_iff_eq_append.1 hpre).symm⟩

/-- A word is read. -/
theorem atom_word {v : JsonValue} (h : (cs, v) ∈ words) : atom (cs ++ rest) = .ok (v, rest) := by
  simp only [words, List.mem_cons, Prod.mk.injEq, List.not_mem_nil, or_false] at h
  obtain ⟨rfl, rfl⟩ | ⟨rfl, rfl⟩ | ⟨rfl, rfl⟩ | ⟨rfl, rfl⟩ | ⟨rfl, rfl⟩ | ⟨rfl, rfl⟩ := h <;> rfl

/-- A number begins with a digit, or with a sign before one. -/
theorem IsNumber.exists_digit (h : IsNumber cs) :
    ∃ d ds, d.isDigit = true ∧ (cs = d :: ds ∨ cs = '-' :: d :: ds) := by
  obtain ⟨sign, whole, frac, exp, hsign, hwhole, -, -, rfl⟩ := h
  obtain ⟨d, ds, rfl⟩ := List.exists_cons_of_ne_nil hwhole.1.1
  have hd : d.isDigit = true := hwhole.1.2 d List.mem_cons_self
  obtain rfl | rfl := hsign
  · exact ⟨d, _, hd, .inl rfl⟩
  · exact ⟨d, _, hd, .inr rfl⟩

/-- No word begins like a number. -/
theorem find?_words_eq_none (h : IsNumber cs) (rest : List Char) :
    (words.find? fun w => w.1.isPrefixOf (cs ++ rest)) = none := by
  have hwords : ∀ w ∈ words, (w.1[0]?.all fun c => !c.isDigit) = true ∧
      (w.1[0]? = some '-' → (w.1[1]?.all fun c => !c.isDigit) = true) ∧ 2 ≤ w.1.length := by
    decide
  refine List.find?_eq_none.2 fun w hw hpre => ?_
  obtain ⟨hfirst, hsecond, hlen⟩ := hwords w hw
  obtain ⟨more, hmore⟩ := List.isPrefixOf_iff_prefix.1 hpre
  have hget : ∀ i < 2, w.1[i]? = (cs ++ rest)[i]? := fun i hi => by
    rw [← hmore, List.getElem?_append_left (Nat.lt_of_lt_of_le hi hlen)]
  rw [hget 0 (by decide)] at hfirst hsecond
  rw [hget 1 (by decide)] at hsecond
  obtain ⟨d, ds, hd, rfl | rfl⟩ := h.exists_digit
  · simp [hd] at hfirst
  · simp [hd] at hsecond

/-- A number is read up to its end, unless it has too many digits. -/
theorem atom_number (h : IsNumber cs) (hr : EndsNumber rest) :
    Reaches (atom (cs ++ rest)) (.number (String.ofList cs)) rest := by
  have hne : cs ≠ [] := by
    obtain ⟨d, ds, -, rfl | rfl⟩ := h.exists_digit <;> exact List.cons_ne_nil _ _
  unfold atom
  rw [find?_words_eq_none h]
  dsimp only
  rw [numberText_append h hr]
  split
  · exact absurd rfl hne
  · split
    · exact .inr ⟨_, rfl, rfl⟩
    · exact .inl (by rw [List.drop_left])

/-! ### Strings -/

variable {body es : List Char} {n m k : Nat} {c : Char} {ps : List StringPart}

/-- Four digits are read alike, whatever comes after them. -/
theorem readHex4_append (h : readHex4 ds = some (n, [])) (rest : List Char) :
    readHex4 (ds ++ rest) = some (n, rest) := by
  unfold readHex4 at h
  split at h
  · obtain ⟨v, hv, heq⟩ := Option.map_eq_some_iff.1 h
    obtain ⟨rfl, rfl⟩ := Prod.mk.inj heq
    simp [readHex4, hv]
  · cases h

/-- Four digits are what is read. -/
theorem exists_of_readHex4 (h : readHex4 cs = some (n, rest)) :
    ∃ ds, readHex4 ds = some (n, []) ∧ cs = ds ++ rest := by
  unfold readHex4 at h
  split at h
  · next a b c d rest' =>
    obtain ⟨v, hv, heq⟩ := Option.map_eq_some_iff.1 h
    obtain ⟨rfl, rfl⟩ := Prod.mk.inj heq
    exact ⟨[a, b, c, d], by simp [readHex4, hv], rfl⟩
  · cases h

/-- They are four. -/
theorem length_of_readHex4 (h : readHex4 ds = some (n, [])) : ds.length = 4 := by
  unfold readHex4 at h
  split at h
  · obtain ⟨v, -, heq⟩ := Option.map_eq_some_iff.1 h
    rw [(Prod.mk.inj heq).2]
    rfl
  · cases h

/-- The digits of an escape are read, if something comes after them. -/
theorem unit_append (h : readHex4 ds = some (n, [])) (hr : rest ≠ []) :
    unit (ds ++ rest) = .ok (n, rest) := by
  obtain ⟨r, rest, rfl⟩ := List.exists_cons_of_ne_nil hr
  rw [unit, readHex4_append h]

/-- No others are, and something comes after them. -/
theorem exists_of_unit (h : unit cs = .ok (n, rest)) :
    rest ≠ [] ∧ ∃ ds, readHex4 ds = some (n, []) ∧ cs = ds ++ rest := by
  unfold unit at h
  split at h
  · next hread =>
    obtain ⟨rfl, rfl⟩ := Prod.mk.inj (Except.ok.inj h)
    exact ⟨List.cons_ne_nil _ _, exists_of_readHex4 hread⟩
  · cases h

/-- The character of a code unit without a pair. A surrogate is none. -/
def aloneCharacter (n : Nat) : Char := (character? n).getD '\ufffd'

/-- How the escape of a code unit goes on after its digits. -/
def afterUnit (n : Nat) (rest : List Char) : Except Stop (Char × List Char) :=
  match rest with
  | '\\' :: 'u' :: more =>
    if isLeadUnit n && 4 < more.length then do
      let (m, after) ← unit more
      match pairCharacter? n m with
      | some c => pure (c, after)
      | none => pure (aloneCharacter n, rest)
    else pure (aloneCharacter n, rest)
  | _ => pure (aloneCharacter n, rest)

/-- An escape is its digits, and what comes of the code unit that they write. -/
theorem unitEscape_eq (cs : List Char) :
    unitEscape cs = (unit cs).bind fun (n, rest) => afterUnit n rest := rfl

/-- The first unit of a pair is a leading one. -/
theorem isLeadUnit_of_pair (h : pairCharacter? n m = some c) : isLeadUnit n = true := by
  unfold pairCharacter? at h
  split at h
  · next hunits => exact (Bool.and_eq_true_iff.1 hunits).1
  · cases h

/-- With the digits of another code unit the two may be a pair. -/
theorem afterUnit_unit (h : readHex4 es = some (m, [])) (hr : rest ≠ []) :
    afterUnit n ('\\' :: 'u' :: (es ++ rest)) =
      match pairCharacter? n m with
      | some c => .ok (c, rest)
      | none => .ok (aloneCharacter n, '\\' :: 'u' :: (es ++ rest)) := by
  have hlong : 4 < (es ++ rest).length := by
    have := List.length_pos_of_ne_nil hr
    rw [List.length_append, length_of_readHex4 h]
    omega
  cases hpair : pairCharacter? n m with
  | some c =>
    rw [afterUnit, isLeadUnit_of_pair hpair, unit_append h hr]
    simp only [hlong, decide_true, Bool.and_self, if_true, bind, Except.bind, hpair]
    rfl
  | none =>
    rw [afterUnit, unit_append h hr]
    simp only [bind, Except.bind, hpair]
    split <;> rfl

/-- Without another code unit there is no pair. -/
theorem afterUnit_of_ne (h : ∀ more, rest ≠ '\\' :: 'u' :: more) :
    afterUnit n rest = .ok (aloneCharacter n, rest) := by
  unfold afterUnit
  split
  · exact absurd rfl (h _)
  · rfl

/-- A code unit is read alone or with the next one. -/
theorem of_afterUnit {after : List Char} (h : afterUnit n rest = .ok (c, after)) :
    (c = aloneCharacter n ∧ after = rest ∧ ∀ es m more, rest = '\\' :: 'u' :: (es ++ more) →
        readHex4 es = some (m, []) → more ≠ [] → pairCharacter? n m = none) ∨
      ∃ es m, readHex4 es = some (m, []) ∧ pairCharacter? n m = some c ∧
        rest = '\\' :: 'u' :: (es ++ after) := by
  unfold afterUnit at h
  split at h
  · next more =>
    split at h
    · obtain ⟨⟨m, after'⟩, hunit, h⟩ := bind_eq_ok_iff.1 h
      dsimp only at h
      split at h
      · next hpair =>
        obtain ⟨rfl, rfl⟩ := Prod.mk.inj (Except.ok.inj h)
        obtain ⟨-, es, hes, rfl⟩ := exists_of_unit hunit
        exact .inr ⟨es, m, hes, hpair, rfl⟩
      · next hpair =>
        obtain ⟨rfl, rfl⟩ := Prod.mk.inj (Except.ok.inj h)
        refine .inl ⟨rfl, rfl, fun es m' more' hmore hes hne => ?_⟩
        obtain rfl : more = es ++ more' := by simpa using hmore
        rw [unit_append hes hne] at hunit
        obtain ⟨rfl, -⟩ := Prod.mk.inj (Except.ok.inj hunit)
        exact hpair
    · next hcond =>
      -- The next unit is not looked at, so it could not have been paired.
      obtain ⟨rfl, rfl⟩ := Prod.mk.inj (Except.ok.inj h)
      refine .inl ⟨rfl, rfl, fun es m more' hmore hes hne => ?_⟩
      obtain rfl : more = es ++ more' := by simpa using hmore
      by_contra hpair
      obtain ⟨c, hc⟩ := Option.ne_none_iff_exists'.1 hpair
      have hlen := List.length_pos_of_ne_nil hne
      refine hcond (Bool.and_eq_true_iff.2 ⟨isLeadUnit_of_pair hc, decide_eq_true ?_⟩)
      rw [List.length_append, length_of_readHex4 hes]
      omega
  · next hne =>
    obtain ⟨rfl, rfl⟩ := Prod.mk.inj (Except.ok.inj h)
    exact .inl ⟨rfl, rfl, fun es m more hmore => absurd hmore (hne _)⟩

/-- What an escape is read as, after its backslash. -/
theorem of_escape (h : escape k cs = .ok (c, rest)) :
    (∃ e, simpleEscape? e = some c ∧ cs = e :: rest) ∨
      ∃ ds n more, readHex4 ds = some (n, []) ∧ cs = 'u' :: (ds ++ more) ∧ more ≠ [] ∧
        afterUnit n more = .ok (c, rest) := by
  unfold escape at h
  split at h
  · cases h
  · next cs =>
    rw [unitEscape_eq] at h
    cases hunit : unit cs with
    | error e =>
      rw [hunit] at h
      cases h
    | ok r =>
      obtain ⟨n, more⟩ := r
      rw [hunit] at h
      obtain ⟨hne, ds, hds, rfl⟩ := exists_of_unit hunit
      exact .inr ⟨ds, n, more, hds, rfl, hne, h⟩
  · next e cs _ =>
    split at h
    · next hsimple =>
      obtain ⟨rfl, rfl⟩ := Prod.mk.inj (Except.ok.inj h)
      exact .inl ⟨e, hsimple, rfl⟩
    · cases h

/-- The characters after a code unit that no other one makes a pair with. -/
theorem charactersOf_unit (h : WritesParts cs ps)
    (hn : ∀ es m more, cs = '\\' :: 'u' :: (es ++ more) → readHex4 es = some (m, []) →
      pairCharacter? n m = none) :
    charactersOf (.unit n :: ps) = aloneCharacter n :: charactersOf ps := by
  cases h with
  | nil => rfl
  | plain => rfl
  | escape => rfl
  | unit hes hps =>
    rw [charactersOf, hn _ _ _ rfl hes]
    rfl

/-- An escape that is read is written before what comes after it. -/
theorem writesParts_escape (h : escape k cs = .ok (c, body ++ rest)) (hr : rest ≠ [])
    (hps : WritesParts body ps) :
    ∃ body' ps', WritesParts body' ps' ∧ c :: charactersOf ps = charactersOf ps' ∧
      '\\' :: cs = body' ++ rest := by
  obtain ⟨e, he, rfl⟩ | ⟨ds, n, more, hds, rfl, -, hunit⟩ := of_escape h
  · exact ⟨_, _, .escape he hps, rfl, rfl⟩
  · obtain ⟨rfl, rfl, hn⟩ | ⟨es, m, hes, hpair, rfl⟩ := of_afterUnit hunit
    · refine ⟨_, _, .unit hds hps, (charactersOf_unit hps fun es m more hbody hes => ?_).symm, ?_⟩
      · refine hn es m (more ++ rest) ?_ hes (by simp [hr])
        rw [hbody, List.cons_append, List.cons_append, List.append_assoc]
      · simp
    · refine ⟨_, _, .unit hds (.unit hes hps), ?_, ?_⟩
      · rw [charactersOf, hpair]
      · simp

/-- **What is read between quotes is written there.** -/
theorem writesParts_of_stringBody {t : List Char} (h : stringBody k cs = .ok (t, rest)) :
    ∃ body ps, WritesParts body ps ∧ t = charactersOf ps ∧ cs = body ++ '"' :: rest := by
  -- The induction is on the length, since an escape takes several characters.
  induction hlen : cs.length using Nat.strongRecOn generalizing cs t with
  | ind len ih =>
    subst hlen
    unfold stringBody at h
    split at h
    · cases h
    · next rest' =>
      obtain ⟨rfl, rfl⟩ := Prod.mk.inj (Except.ok.inj h)
      exact ⟨[], [], .nil, rfl, rfl⟩
    · next more =>
      obtain ⟨⟨c, after⟩, hesc, h⟩ := bind_eq_ok_iff.1 h
      dsimp only at h
      split at h
      · next hle =>
        obtain ⟨r, hbody, h⟩ := bind_eq_ok_iff.1 h
        obtain ⟨rfl, rfl⟩ := Prod.mk.inj (Except.ok.inj h)
        obtain ⟨body, ps, hps, ht, rfl⟩ := ih _ (Nat.lt_succ_of_le hle) hbody rfl
        rw [ht]
        exact writesParts_escape hesc (List.cons_ne_nil _ _) hps
      · cases h
    · next c cs hq hb =>
      split at h
      · cases h
      · next hc =>
        obtain ⟨r, hbody, h⟩ := bind_eq_ok_iff.1 h
        obtain ⟨rfl, rfl⟩ := Prod.mk.inj (Except.ok.inj h)
        obtain ⟨body, ps, hps, ht, rfl⟩ := ih _ (Nat.lt_succ_self _) hbody rfl
        rw [ht]
        exact ⟨c :: body, .char c :: ps, .plain (by simpa using hq) (by simpa using hb)
          (Nat.le_of_not_lt hc) hps, rfl, rfl⟩

/-- The reader takes an escaped code unit and goes on with what comes after it. -/
theorem stringBody_unit {after : List Char} (hds : readHex4 ds = some (n, [])) (hr : rest ≠ [])
    (hunit : afterUnit n rest = .ok (c, after)) (hlen : after.length ≤ rest.length) :
    stringBody k ('\\' :: 'u' :: (ds ++ rest)) =
      (stringBody k after).map fun (t, rest) => (c :: t, rest) := by
  refine stringBody_escape ?_ ?_
  · rw [escape, unitEscape_eq, unit_append hds hr]
    exact hunit
  · rw [List.length_cons, List.length_append]
    omega

/-- **What is written between quotes is read** up to the quote. -/
theorem stringBody_of_writesParts (h : WritesParts body ps) (k : Nat) (rest : List Char) :
    stringBody k (body ++ '"' :: rest) = .ok (charactersOf ps, rest) := by
  -- The induction is on the characters, since one of them may take two units.
  fun_induction charactersOf ps generalizing body with
  | case1 =>
    cases h
    rw [List.nil_append, stringBody]
    rfl
  | case2 c ps ih =>
    cases h with
    | plain hq hb hc hps =>
      rw [List.cons_append, stringBody_plain hq hb hc, ih hps]
      rfl
    | @escape e _ cs _ he hps =>
      have hu : e ≠ 'u' := by
        rintro rfl
        cases he
      rw [List.cons_append, List.cons_append, stringBody_escape _ (Nat.le_succ _), ih hps]
      · rfl
      · rw [escape.eq_3 _ _ _ hu, he]
        rfl
  | case3 n m ps c hpair ih =>
    cases h with
    | unit hds hps =>
      cases hps with
      | @unit es _ cs _ hes hps =>
        have hne : cs ++ '"' :: rest ≠ [] := by simp
        have hafter := afterUnit_unit (n := n) hes hne
        rw [hpair] at hafter
        rw [List.cons_append, List.cons_append, List.append_assoc, List.cons_append,
          List.cons_append, List.append_assoc, stringBody_unit hds (List.cons_ne_nil _ _) hafter,
          ih hps]
        · rfl
        · simp only [List.length_cons, List.length_append]
          omega
  | case4 n m ps hpair ih =>
    cases h with
    | @unit ds _ cs _ hds hps =>
      have hafter : afterUnit n (cs ++ '"' :: rest) =
          .ok (aloneCharacter n, cs ++ '"' :: rest) := by
        cases hps with
        | @unit es _ cs _ hes hps =>
          have hne : cs ++ '"' :: rest ≠ [] := by simp
          have hafter := afterUnit_unit (n := n) hes hne
          rw [hpair] at hafter
          rwa [List.cons_append, List.cons_append, List.append_assoc]
      rw [List.cons_append, List.cons_append, List.append_assoc,
        stringBody_unit hds (by simp) hafter (Nat.le_refl _), ih hps]
      rfl
  | case5 n ps hne ih =>
    cases h with
    | @unit ds _ cs _ hds hps =>
      have hafter : afterUnit n (cs ++ '"' :: rest) =
          .ok (aloneCharacter n, cs ++ '"' :: rest) := by
        refine afterUnit_of_ne fun more hmore => ?_
        cases hps with
        | nil => cases hmore
        | plain _ hb => exact hb (List.cons.inj hmore).1
        | escape he =>
          rw [(List.cons.inj (List.cons.inj hmore).2).1] at he
          cases he
        | unit => exact hne _ _ rfl
      rw [List.cons_append, List.cons_append, List.append_assoc,
        stringBody_unit hds (by simp) hafter (Nat.le_refl _), ih hps]
      rfl

/-- **A string is read up to its end.** -/
theorem string_append {s : String} (h : WritesString ('"' :: cs) s) (rest : List Char) :
    string (cs ++ rest) = .ok (s, rest) := by
  obtain ⟨body, ps, hps, rfl, heq⟩ := h
  obtain rfl := (List.cons.inj heq).2
  rw [string, List.append_assoc, List.singleton_append, stringBody_of_writesParts hps]
  rfl

/-- **What is read as a string writes it.** -/
theorem writesString_of_string {s : String} (h : string cs = .ok (s, rest)) :
    ∃ w, WritesString ('"' :: w) s ∧ cs = w ++ rest := by
  unfold string at h
  cases hbody : stringBody (cs.length + 1) cs with
  | error e =>
    rw [hbody] at h
    cases h
  | ok r =>
    rw [hbody] at h
    obtain ⟨rfl, rfl⟩ := Prod.mk.inj (Except.ok.inj h)
    obtain ⟨body, ps, hps, ht, rfl⟩ := writesParts_of_stringBody hbody
    exact ⟨body ++ ['"'], ⟨body, ps, hps, by rw [ht], rfl⟩, by simp⟩

/-- Plain characters in quotes write themselves. -/
theorem writesString_plain {s : String}
    (h : (s.toList.all fun c => c != '"' && c != '\\' && decide (32 ≤ c.toNat)) = true) :
    WritesString ('"' :: (s.toList ++ ['"'])) s := by
  have hparts : ∀ cs : List Char,
      (cs.all fun c => c != '"' && c != '\\' && decide (32 ≤ c.toNat)) = true →
      WritesParts cs (cs.map .char) ∧ charactersOf (cs.map .char) = cs := by
    intro cs hcs
    induction cs with
    | nil => exact ⟨.nil, rfl⟩
    | cons c cs ih =>
      simp only [List.all_cons, Bool.and_eq_true, bne_iff_ne, decide_eq_true_eq] at hcs
      obtain ⟨⟨⟨hq, hb⟩, hc⟩, hcs⟩ := hcs
      obtain ⟨hwrites, hchars⟩ := ih hcs
      exact ⟨.plain hq hb hc hwrites, congrArg (c :: ·) hchars⟩
  obtain ⟨hwrites, hchars⟩ := hparts s.toList h
  exact ⟨_, _, hwrites, by rw [hchars, String.ofList_toList], rfl⟩

/-- No escape is beyond a limit. -/
theorem isLimit_of_escape {stop : Stop} (h : escape k cs = .error stop) :
    stop.1.isLimit = false := by
  have hunit : ∀ {cs stop}, unit cs = .error stop → stop.1.isLimit = false := by
    intro cs stop h
    unfold unit at h
    split at h
    · cases h
    · cases h
      rfl
  unfold escape at h
  split at h
  · cases h
    rfl
  · next cs =>
    rw [unitEscape_eq] at h
    obtain hread | ⟨r, -, h⟩ := bind_eq_error_iff.1 h
    · exact hunit hread
    · change afterUnit r.1 r.2 = _ at h
      unfold afterUnit at h
      split at h
      · next more _ =>
        split at h
        · obtain hmore | ⟨r, -, h⟩ := bind_eq_error_iff.1 h
          · exact hunit hmore
          · dsimp only at h
            split at h <;> cases h
        · cases h
      · cases h
  · split at h
    · cases h
    · cases h
      rfl

/-- No string is beyond a limit. -/
theorem isLimit_of_string {stop : Stop} (h : string cs = .error stop) :
    stop.1.isLimit = false := by
  have hbody : ∀ {k cs stop}, stringBody k cs = .error stop → stop.1.isLimit = false := by
    intro k cs stop h
    -- The induction is on the length, since an escape takes several characters.
    induction hlen : cs.length using Nat.strongRecOn generalizing cs with
    | ind len ih =>
      subst hlen
      unfold stringBody at h
      split at h
      · cases h
        rfl
      · cases h
      · next more =>
        obtain hesc | ⟨r, -, h⟩ := bind_eq_error_iff.1 h
        · exact isLimit_of_escape hesc
        · dsimp only at h
          split at h
          · next hle =>
            obtain hbody | ⟨r, -, h⟩ := bind_eq_error_iff.1 h
            · exact ih _ (Nat.lt_succ_of_le hle) hbody rfl
            · cases h
          · cases h
            rfl
      · next c cs _ _ =>
        split at h
        · cases h
          rfl
        · obtain hbody | ⟨r, -, h⟩ := bind_eq_error_iff.1 h
          · exact ih _ (Nat.lt_succ_self _) hbody rfl
          · cases h
  unfold string at h
  obtain hread | ⟨r, -, h⟩ := bind_eq_error_iff.1 h
  · exact hbody hread
  · cases h

end Json

end QueryAssist
