import QueryAssist.Proofs.Json.LineBreaks

/-! # The limits of the reader

The reader has room for so many arrays and objects in one another, and takes whole numbers of so
many digits. Which texts are beyond these limits is told along the grammar: what stands before the
place is in order, and what comes after it does not matter. Main definitions:

* **`Json.Exceeds`** — a text begins with a value that is beyond a limit.
* **`Json.HoldsExcess`** — a whole text does, after some space.

Main statements:

* `Json.stops_value` and `Json.exceeds_of_value` — the reader stops there, and only there.
* `JsonValue.exists_holdsExcess_iff` — so it is with a whole text.
* `Json.holdsExcess_unifyBreaks` — it does not matter how the lines of a text are broken. -/

namespace QueryAssist

namespace Json

variable {w cs rest : List Char} {f : JsonFault} {room : Nat}

/-! ### Beyond a limit -/

/-- The text of a **whole number**. -/
def IsInteger (cs : List Char) : Prop :=
  ∃ sign whole, (sign = [] ∨ sign = ['-']) ∧ IsWhole whole ∧ cs = sign ++ whole

/-- A text **ends a whole number**: it begins with no digit, no fraction and no exponent. -/
structure EndsInteger (rest : List Char) : Prop where
  /-- It begins with no digit. -/
  digit : ∀ c ∈ rest.head?, c.isDigit = false
  /-- It begins with no fraction. -/
  fraction : ∀ cs, cs <+: rest → IsFraction cs → cs = []
  /-- It begins with no exponent. -/
  exponent : ∀ cs, cs <+: rest → IsExponent cs → cs = []

mutual

/-- A text begins with a value that **exceeds a limit**, where there is some room left: it goes
deeper than that, or has a whole number of too many digits. -/
inductive Exceeds : Nat → List Char → JsonFault → Prop
  | bracket {cs : List Char} : Exceeds 0 ('[' :: cs) .tooDeep
  | brace {cs : List Char} : Exceeds 0 ('\x7b' :: cs) .tooDeep
  | number {room : Nat} {w rest : List Char} : IsInteger w → EndsInteger rest →
    digitLimit < w.countP Char.isDigit → Exceeds room (w ++ rest) .tooManyDigits
  | items {room : Nat} {cs : List Char} {f : JsonFault} :
    ExceedsItems room cs f → Exceeds (room + 1) ('[' :: cs) f
  | members {room : Nat} {cs : List Char} {f : JsonFault} :
    ExceedsMembers room cs f → Exceeds (room + 1) ('\x7b' :: cs) f

/-- One of the items at the beginning of a text does. -/
inductive ExceedsItems : Nat → List Char → JsonFault → Prop
  | here {room : Nat} {a cs : List Char} {f : JsonFault} :
    IsBlank a → Exceeds room cs f → ExceedsItems room (a ++ cs) f
  | later {room : Nat} {a w b cs : List Char} {v : JsonValue} {f : JsonFault} :
    IsBlank a → Writes w v → IsBlank b → ExceedsItems room cs f →
      ExceedsItems room (a ++ (w ++ (b ++ ',' :: cs))) f

/-- One of the members does. -/
inductive ExceedsMembers : Nat → List Char → JsonFault → Prop
  | here {room : Nat} {a k b c cs : List Char} {key : String} {f : JsonFault} :
    IsBlank a → WritesString k key → IsBlank b → IsBlank c → Exceeds room cs f →
      ExceedsMembers room (a ++ (k ++ (b ++ ':' :: (c ++ cs)))) f
  | later {room : Nat} {a k b c w d cs : List Char} {key : String} {v : JsonValue}
    {f : JsonFault} : IsBlank a → WritesString k key → IsBlank b → IsBlank c → Writes w v →
      IsBlank d → ExceedsMembers room cs f →
      ExceedsMembers room (a ++ (k ++ (b ++ ':' :: (c ++ (w ++ (d ++ ',' :: cs)))))) f

end

/-- A whole text **holds an excess**: after some space it begins with a value that exceeds a
limit. -/
def HoldsExcess (text : List Char) (f : JsonFault) : Prop :=
  ∃ a cs, IsBlank a ∧ Exceeds depthLimit cs f ∧ text = a ++ cs

/-! ### Whole numbers -/

/-- A whole number is a number. -/
theorem IsInteger.isNumber (h : IsInteger w) : IsNumber w := by
  obtain ⟨sign, whole, hsign, hwhole, rfl⟩ := h
  exact ⟨sign, whole, [], [], hsign, hwhole, .inl rfl, .inl rfl, by simp⟩

/-- It has digits, and perhaps a sign. -/
theorem IsInteger.all_isDigit (h : IsInteger w) :
    (w.all fun c => c.isDigit || c == '-') = true := by
  obtain ⟨sign, whole, hsign, hwhole, rfl⟩ := h
  have hdigits : (whole.all fun c => c.isDigit || c == '-') = true :=
    List.all_eq_true.2 fun c hc => by simp [hwhole.1.2 c hc]
  obtain rfl | rfl := hsign
  · exact hdigits
  · exact hdigits

/-- No fraction begins where none is read. -/
theorem eq_nil_of_fraction (h : fraction rest = []) (hcs : IsFraction cs) (hpre : cs <+: rest) :
    cs = [] := by
  obtain rfl | ⟨ds, ⟨hne, hdigits⟩, rfl⟩ := hcs
  · rfl
  · obtain ⟨d, ds, rfl⟩ := List.exists_cons_of_ne_nil hne
    obtain ⟨more, rfl⟩ := hpre
    have hd : (d :: (ds ++ more)).head?.any Char.isDigit = true := hdigits d List.mem_cons_self
    rw [List.cons_append, List.cons_append, fraction, if_pos hd] at h
    cases h

/-- No exponent begins where none is read. -/
theorem eq_nil_of_exponent (h : exponent rest = []) (hcs : IsExponent cs) (hpre : cs <+: rest) :
    cs = [] := by
  obtain rfl | ⟨c, sign, ds, hc, hsign, hds, rfl⟩ := hcs
  · rfl
  · obtain ⟨more, rfl⟩ := hpre
    rw [List.cons_append, List.append_assoc, exponent_cons, if_pos (by simpa using hc),
      exponentSign_append hsign hds, List.drop_left] at h
    obtain ⟨d, ds, rfl⟩ := List.exists_cons_of_ne_nil hds.1
    have hd : d.isDigit = true := hds.2 d List.mem_cons_self
    rw [List.cons_append, List.takeWhile_cons_of_pos hd] at h
    cases h

/-- **A whole number is read** up to its end. -/
theorem numberText_integer (h : IsInteger w) (hr : EndsInteger rest) :
    numberText (w ++ rest) = w := by
  obtain ⟨sign, whole, hsign, hwhole, rfl⟩ := h
  have hfrac : fraction rest = [] := by
    obtain ⟨hspec, hpre⟩ := fraction_spec rest
    exact hr.fraction _ hpre hspec
  have hexp : exponent rest = [] := by
    obtain ⟨hspec, hpre⟩ := exponent_spec rest
    exact hr.exponent _ hpre hspec
  have hparts : numberText (sign ++ (whole ++ ([] ++ rest))) =
      sign ++ (whole ++ ([] ++ exponent rest)) :=
    numberText_of_parts (numberSign_append hsign hwhole) hwhole.1.1
      (integer_append hwhole hr.digit) hfrac
  rw [hexp, List.append_nil, List.append_nil] at hparts
  rw [List.append_assoc]
  exact hparts

/-- The reader **stops at a whole number** of too many digits. -/
theorem stops_atom (h : IsInteger w) (hr : EndsInteger rest)
    (hmany : digitLimit < w.countP Char.isDigit) : Stops (atom (w ++ rest)) := by
  have hne : w ≠ [] := by
    rintro rfl
    cases hmany
  unfold atom
  rw [find?_words_eq_none h.isNumber]
  dsimp only
  rw [numberText_integer h hr]
  split
  · exact absurd rfl hne
  · rw [if_pos]
    · exact ⟨_, rfl, rfl⟩
    · rw [h.all_isDigit, ← List.countP_eq_length_filter]
      exact decide_eq_true hmany

/-- After the digits of a whole number comes no digit, unless they are a zero. -/
theorem head?_of_integer (h : integer cs ++ rest = cs) (hz : cs.head? ≠ some '0') :
    ∀ c ∈ rest.head?, c.isDigit = false := by
  have hdrop : rest = cs.dropWhile Char.isDigit := by
    have happend : integer cs ++ rest = integer cs ++ cs.dropWhile Char.isDigit := by
      rw [h, integer_of_ne hz, List.takeWhile_append_dropWhile]
    exact List.append_cancel_left happend
  intro c hc
  have hhead := List.head?_dropWhile_not Char.isDigit cs
  rw [← hdrop, hc] at hhead
  simpa using hhead

/-- Digits alone, with a sign at most, are a whole number, and one ends there if they are many. -/
theorem exists_integer_of_numberText (hne : numberText cs ≠ [])
    (hall : ((numberText cs).all fun c => c.isDigit || c == '-') = true)
    (hmany : digitLimit < (numberText cs).countP Char.isDigit) :
    ∃ w rest, cs = w ++ rest ∧ IsInteger w ∧ EndsInteger rest ∧
      digitLimit < w.countP Char.isDigit := by
  obtain ⟨sign, cs₁, cs₂, cs₃, hsign, rfl, hint, hcs₂, hcs₃, htext⟩ :=
    exists_parts_of_numberText hne
  rw [htext] at hall hmany
  simp only [List.all_append, Bool.and_eq_true] at hall
  obtain ⟨-, -, hfracAll, hexpAll⟩ := hall
  -- A fraction has a dot in it and an exponent a letter, so there is neither.
  have hfrac : fraction cs₂ = [] := by
    obtain h | ⟨ds, -, h⟩ := (fraction_spec cs₂).1
    · exact h
    · simp [h] at hfracAll
  rw [hfrac, List.nil_append] at hcs₃
  subst hcs₃
  have hexp : exponent cs₃ = [] := by
    obtain h | ⟨c, sign, ds, rfl | rfl, -, -, h⟩ := (exponent_spec cs₃).1
    · exact h
    · simp [h] at hexpAll
    · simp [h] at hexpAll
  rw [hfrac, hexp, List.append_nil, List.append_nil] at hmany
  -- A zero stands alone, and one digit is not beyond the limit.
  have hz : cs₁.head? ≠ some '0' := by
    intro hz
    obtain ⟨ds, rfl⟩ := List.head?_eq_some_iff.1 hz
    have hzero : integer ('0' :: ds) = ['0'] := rfl
    rw [hzero] at hmany
    obtain rfl | rfl := hsign <;> exact absurd hmany (by decide)
  refine ⟨sign ++ integer cs₁, cs₃, by rw [List.append_assoc, hcs₂],
    ⟨sign, _, hsign, (integer_spec hint).1, rfl⟩, ⟨head?_of_integer hcs₂ hz, ?_, ?_⟩, hmany⟩
  · exact fun _ hpre h => eq_nil_of_fraction hfrac h hpre
  · exact fun _ hpre h => eq_nil_of_exponent hexp h hpre

/-- At a word or a number it stops nowhere else. -/
theorem exceeds_of_atom {stop : Stop} (h : atom cs = .error stop) (hs : stop.1.isLimit = true) :
    Exceeds room cs stop.1 := by
  unfold atom at h
  split at h
  · cases h
  · split at h
    · cases h
      cases hs
    · next hne =>
      split at h
      · next hmany =>
        cases h
        rw [Bool.and_eq_true_iff, decide_eq_true_eq, ← List.countP_eq_length_filter] at hmany
        obtain ⟨w, rest, rfl, hw, hrest, hdigits⟩ :=
          exists_integer_of_numberText hne hmany.1 hmany.2
        exact .number hw hrest hdigits
      · cases h

/-! ### Where the reader stops -/

/-- Items and members may have space before them. -/
theorem ExceedsItems.append {a : List Char} (ha : IsBlank a) (h : ExceedsItems room cs f) :
    ExceedsItems room (a ++ cs) f := by
  cases h with
  | here hb h =>
    rw [← List.append_assoc]
    exact .here (ha.append hb) h
  | later hb hw hc h =>
    rw [← List.append_assoc]
    exact .later (ha.append hb) hw hc h

/-- So may members. -/
theorem ExceedsMembers.append {a : List Char} (ha : IsBlank a) (h : ExceedsMembers room cs f) :
    ExceedsMembers room (a ++ cs) f := by
  cases h with
  | here hb hk hc hd h =>
    rw [← List.append_assoc]
    exact .here (ha.append hb) hk hc hd h
  | later hb hk hc hd hw he h =>
    rw [← List.append_assoc]
    exact .later (ha.append hb) hk hc hd hw he h

/-- So it does not matter that it is skipped. -/
theorem ExceedsItems.of_skip (h : ExceedsItems room (skip cs) f) : ExceedsItems room cs f := by
  obtain ⟨⟨a, ha, hcs⟩, -⟩ := exists_of_skip cs
  exact hcs ▸ h.append ha

/-- And so it is with members. -/
theorem ExceedsMembers.of_skip (h : ExceedsMembers room (skip cs) f) :
    ExceedsMembers room cs f := by
  obtain ⟨⟨a, ha, hcs⟩, -⟩ := exists_of_skip cs
  exact hcs ▸ h.append ha

mutual

/-- **Where the reader stops at a limit** the text is beyond it. -/
theorem exceeds_of_value : ∀ {n room : Nat} {cs : List Char} {stop : Stop},
    value room n cs = .error stop → stop.1.isLimit = true → Exceeds room cs stop.1
  | 0, _, _, _, h, hs => by cases h; cases hs
  | n + 1, room, cs, stop, h, hs => by
    -- Only a bracket and a number are beyond a limit themselves, all else because of a part.
    unfold value at h
    split at h
    · obtain h | ⟨a, -, h⟩ := bind_eq_error_iff.1 h
      · rw [isLimit_of_string h] at hs
        cases hs
      · cases h
    · split at h
      · next hroom =>
        cases h
        rw [hroom]
        exact .brace
      · next hroom =>
        obtain ⟨room, rfl⟩ := Nat.exists_eq_succ_of_ne_zero hroom
        split at h
        · cases h
        · obtain h | ⟨a, -, h⟩ := bind_eq_error_iff.1 h
          · exact .members (exceeds_of_members h hs).of_skip
          · cases h
    · split at h
      · next hroom =>
        cases h
        rw [hroom]
        exact .bracket
      · next hroom =>
        obtain ⟨room, rfl⟩ := Nat.exists_eq_succ_of_ne_zero hroom
        split at h
        · cases h
        · obtain h | ⟨a, -, h⟩ := bind_eq_error_iff.1 h
          · exact .items (exceeds_of_items h hs).of_skip
          · cases h
    · exact exceeds_of_atom h hs

/-- Where the reader stops at a limit among items, one of them exceeds it. -/
theorem exceeds_of_items : ∀ {n room : Nat} {cs : List Char} {stop : Stop},
    items room n cs = .error stop → stop.1.isLimit = true → ExceedsItems room cs stop.1
  | 0, _, _, _, h, hs => by cases h; cases hs
  | n + 1, room, cs, stop, h, hs => by
    rw [items_succ] at h
    obtain hv | ⟨⟨v, more⟩, hv, hmore⟩ := bind_eq_error_iff.1 h
    · exact .here isBlank_nil (exceeds_of_value hv hs)
    · obtain ⟨w, hw, rfl⟩ := writes_of_value hv
      dsimp only at hmore
      split at hmore
      · cases hmore
      · next tail hcomma =>
        obtain hitems | ⟨a, -, ha⟩ := bind_eq_error_iff.1 hmore
        · obtain ⟨b, hb, rfl⟩ := exists_of_skip_cons hcomma
          exact .later isBlank_nil hw hb (exceeds_of_items hitems hs).of_skip
        · cases ha
      · cases hmore
        cases hs

/-- Where it stops at a limit among members, one of them exceeds it. -/
theorem exceeds_of_members : ∀ {n room : Nat} {cs : List Char} {stop : Stop},
    members room n cs = .error stop → stop.1.isLimit = true → ExceedsMembers room cs stop.1
  | 0, _, _, _, h, hs => by cases h; cases hs
  | n + 1, room, cs, stop, h, hs => by
    obtain hfail | ⟨ds, rfl⟩ := fail_or_quote room n cs
    · rw [hfail] at h
      cases h
      cases hs
    -- No key is beyond a limit, so the value is, or a later member.
    rw [members_succ] at h
    obtain hkey | ⟨⟨key, more⟩, hkey, hcolon⟩ := bind_eq_error_iff.1 h
    · rw [isLimit_of_string hkey] at hs
      cases hs
    · obtain ⟨k, hk, rfl⟩ := writesString_of_string hkey
      dsimp only at hcolon
      split at hcolon
      · next tail hskip =>
        obtain ⟨b, hb, rfl⟩ := exists_of_skip_cons hskip
        obtain ⟨⟨c, hc, htail⟩, -⟩ := exists_of_skip tail
        rw [htail]
        obtain hv | ⟨⟨v, more⟩, hv, hmore⟩ := bind_eq_error_iff.1 hcolon
        · exact .here isBlank_nil hk hb hc (exceeds_of_value hv hs)
        · obtain ⟨w, hw, hcs⟩ := writes_of_value hv
          rw [hcs]
          dsimp only [afterMember] at hmore
          split at hmore
          · cases hmore
          · next tail' hcomma =>
            obtain hmembers | ⟨a, -, ha⟩ := bind_eq_error_iff.1 hmore
            · obtain ⟨d, hd, rfl⟩ := exists_of_skip_cons hcomma
              exact .later isBlank_nil hk hb hc hw hd (exceeds_of_members hmembers hs).of_skip
            · cases ha
          · cases hmore
            cases hs
      · cases hcolon
        cases hs

end

/-- A value that exceeds a limit begins like any other. -/
theorem Exceeds.exists_cons (h : Exceeds room cs f) :
    ∃ c more, cs = c :: more ∧ isSpace c = false ∧ c ∉ [']', '\ufeff'] := by
  cases h with
  | bracket => exact ⟨_, _, rfl, by decide⟩
  | brace => exact ⟨_, _, rfl, by decide⟩
  | number hw =>
    have hwrites : Writes _ _ := .number hw.isNumber
    obtain ⟨c, more, rfl, hspace, hc⟩ := hwrites.exists_cons
    exact ⟨c, _, rfl, hspace, hc⟩
  | items => exact ⟨_, _, rfl, by decide⟩
  | members => exact ⟨_, _, rfl, by decide⟩

/-- What exceeds a limit has some characters. -/
theorem Exceeds.length_pos (h : Exceeds room cs f) : 0 < cs.length := by
  obtain ⟨c, more, rfl, -⟩ := h.exists_cons
  exact Nat.succ_pos _

/-- It does not begin with space. -/
theorem skip_exceeds {a : List Char} (ha : IsBlank a) (h : Exceeds room cs f) :
    skip (a ++ cs) = cs := by
  obtain ⟨c, more, rfl, hc, -⟩ := h.exists_cons
  exact skip_cons ha hc

/-- Items and members that do begin like any others. -/
theorem ExceedsItems.head?_skip (h : ExceedsItems room cs f) :
    ∀ c ∈ (skip cs).head?, c ≠ ']' := by
  cases h with
  | here ha h =>
    rw [skip_exceeds ha h]
    obtain ⟨c, more, rfl, -, hc⟩ := h.exists_cons
    rintro _ ⟨⟩ rfl
    exact hc List.mem_cons_self
  | later ha hw => exact head?_skip_value ha hw

/-- Members of which one exceeds a limit are not at the end of their object. -/
theorem ExceedsMembers.head?_skip (h : ExceedsMembers room cs f) :
    ∀ c ∈ (skip cs).head?, c ≠ '\x7d' := by
  cases h with
  | here ha hk => exact head?_skip_string ha hk
  | later ha hk => exact head?_skip_string ha hk

/-- Where the reader gets to a value and stops after it, the whole stops. -/
theorem Reaches.stops {α β : Type} {x : Except Stop (α × List Char)}
    {f : α × List Char → Except Stop β} {a : α} (hx : Reaches x a rest)
    (hf : Stops (f (a, rest))) : Stops (x.bind f) := by
  obtain rfl | hstops := hx
  · exact hf
  · exact hstops.bind

mutual

/-- **Beyond a limit the reader stops**, in twice as many steps as there are characters. -/
theorem stops_value : ∀ {room : Nat} {cs : List Char} {f : JsonFault}, Exceeds room cs f →
    ∀ {n : Nat}, 2 * cs.length ≤ n + 1 → Stops (value room (n + 1) cs)
  | _, _, _, .bracket, _, _ => by
    rw [value, if_pos rfl]
    exact ⟨_, rfl, rfl⟩
  | _, _, _, .brace, _, _ => by
    rw [value, if_pos rfl]
    exact ⟨_, rfl, rfl⟩
  | _, _, _, .number hw hr hmany, _, _ => by
    obtain ⟨c, more, rfl, -, hc⟩ := exists_cons_of_atom (v := .null) (.inr hw.isNumber)
    rw [value_atom (by rintro _ ⟨⟩; exact hc)]
    exact stops_atom hw hr hmany
  | _, _, _, .items h, n, hn => by
    rw [value_bracket (Nat.succ_ne_zero _) h.head?_skip]
    rw [List.length_cons] at hn
    exact (stops_items h (by omega)).bind
  | _, _, _, .members h, n, hn => by
    rw [value_brace (Nat.succ_ne_zero _) h.head?_skip]
    rw [List.length_cons] at hn
    exact (stops_members h (by omega)).bind

/-- The reader stops at a limit among items of which one exceeds it. -/
theorem stops_items : ∀ {room : Nat} {cs : List Char} {f : JsonFault}, ExceedsItems room cs f →
    ∀ {n : Nat}, 2 * cs.length < n → Stops (items room n (skip cs))
  | _, _, _, .here ha h, n, hn => by
    have hpos := h.length_pos
    rw [List.length_append] at hn
    obtain ⟨n, rfl⟩ : ∃ k, n = k + 2 := ⟨n - 2, by omega⟩
    rw [skip_exceeds ha h, items_succ]
    exact (stops_value h (by omega)).bind
  | room, _, _, .later ha hw hb h, n, hn => by
    have hpos := hw.length_pos
    simp only [List.length_append, List.length_cons] at hn
    obtain ⟨n, rfl⟩ : ∃ k, n = k + 2 := ⟨n - 2, by omega⟩
    rw [skip_value ha hw, items_succ]
    refine Reaches.stops
      (reaches_value hw room (by omega) (.append hb (endsNumber_cons (by simp)))) ?_
    dsimp only
    rw [skip_cons hb rfl]
    exact (stops_items h (by omega)).bind

/-- So it does among members. -/
theorem stops_members : ∀ {room : Nat} {cs : List Char} {f : JsonFault},
    ExceedsMembers room cs f → ∀ {n : Nat}, 2 * cs.length < n → Stops (members room n (skip cs))
  | _, _, _, .here ha hk hb hc h, n, hn => by
    have hpos := h.length_pos
    simp only [List.length_append, List.length_cons] at hn
    obtain ⟨n, rfl⟩ : ∃ k, n = k + 2 := ⟨n - 2, by omega⟩
    rw [skip_string ha hk, members_append hk hb, skip_exceeds hc h]
    exact (stops_value h (by omega)).bind
  | room, _, _, .later ha hk hb hc hw hd h, n, hn => by
    have hpos := hw.length_pos
    simp only [List.length_append, List.length_cons] at hn
    obtain ⟨n, rfl⟩ : ∃ k, n = k + 2 := ⟨n - 2, by omega⟩
    rw [skip_string ha hk, members_append hk hb, skip_value hc hw]
    refine Reaches.stops
      (reaches_value hw room (by omega) (.append hd (endsNumber_cons (by simp)))) ?_
    dsimp only
    rw [afterMember, skip_cons hd rfl]
    exact (stops_members h (by omega)).bind

end

/-! ### However the lines are broken -/

/-- A whole number ends however the lines are broken after it. -/
theorem EndsInteger.sameLines {ds : List Char} (h : EndsInteger cs) (hds : SameLines ds cs) :
    EndsInteger ds := by
  have hbegins : ∀ ps, ps <+: ds → IsUnbroken ps → ps <+: cs := by
    rintro ps ⟨more, rfl⟩ hps
    have hlast : ps.getLast? ≠ some '\r' := fun hlast => hps.2 (List.mem_of_getLast? hlast)
    obtain ⟨ps', more', rfl, hps', -⟩ := hds.symm.exists_append (.inl hlast)
    exact ⟨more', by rw [hps'.eq hps]⟩
  refine ⟨fun c hc => ?_, fun ps hps h' => h.fraction ps (hbegins ps hps h'.isUnbroken) h',
    fun ps hps h' => h.exponent ps (hbegins ps hps h'.isUnbroken) h'⟩
  by_contra hdigit
  rw [Bool.not_eq_false] at hdigit
  obtain ⟨more, rfl⟩ := List.head?_eq_some_iff.1 hc
  have hdigits : IsDigits [c] := ⟨List.cons_ne_nil _ _, by simpa using hdigit⟩
  obtain ⟨more', rfl⟩ := hbegins [c] ⟨more, rfl⟩ hdigits.isUnbroken
  have hend := h.digit c rfl
  rw [hdigit] at hend
  cases hend

/-- What exceeds a limit does not begin like the end of a line break. -/
theorem Exceeds.head?_ne (h : Exceeds room cs f) : cs.head? ≠ some '\n' := by
  obtain ⟨c, more, rfl, hc, -⟩ := h.exists_cons
  rintro ⟨⟩
  cases hc

mutual

/-- **A limit is exceeded** however the lines of a text are broken. -/
theorem exceeds_of_sameLines : ∀ {room : Nat} {cs : List Char} {f : JsonFault}, Exceeds room cs f →
    ∀ {ds : List Char}, SameLines ds cs → Exceeds room ds f
  | _, _, _, .bracket, _, hds => by
    obtain ⟨cs', rfl, -⟩ := hds.exists_cons (by decide)
    exact .bracket
  | _, _, _, .brace, _, hds => by
    obtain ⟨cs', rfl, -⟩ := hds.exists_cons (by decide)
    exact .brace
  | _, _, _, .number hw hr hmany, _, hds => by
    have hwrites : Writes _ _ := .number hw.isNumber
    obtain ⟨w', rest', rfl, hw', hrest'⟩ := hds.exists_append (.inl hwrites.getLast?_ne)
    obtain rfl := hw'.eq hw.isNumber.isUnbroken
    exact .number hw (hr.sameLines hrest') hmany
  | _, _, _, .items h, _, hds => by
    obtain ⟨cs', rfl, hcs'⟩ := hds.exists_cons (by decide)
    exact .items (exceedsItems_of_sameLines h hcs')
  | _, _, _, .members h, _, hds => by
    obtain ⟨cs', rfl, hcs'⟩ := hds.exists_cons (by decide)
    exact .members (exceedsMembers_of_sameLines h hcs')

/-- Items exceed a limit alike, however their lines are broken. -/
theorem exceedsItems_of_sameLines : ∀ {room : Nat} {cs : List Char} {f : JsonFault},
    ExceedsItems room cs f → ∀ {ds : List Char}, SameLines ds cs → ExceedsItems room ds f
  | _, _, _, .here ha h, _, hds => by
    obtain ⟨a', cs', rfl, ha', hcs'⟩ := hds.exists_append (.inr h.head?_ne)
    exact .here (ha'.isBlank ha) (exceeds_of_sameLines h hcs')
  | _, _, _, .later ha hw hb h, _, hds => by
    obtain ⟨a', w', ds, rfl, ha', hw', hds⟩ := exists_value hds ha hw
    obtain ⟨b', cs', rfl, hb', hcs'⟩ := exists_mark hds hb (by decide)
    exact .later ha' (writes_of_sameLines hw hw') hb' (exceedsItems_of_sameLines h hcs')

/-- So do members. -/
theorem exceedsMembers_of_sameLines : ∀ {room : Nat} {cs : List Char} {f : JsonFault},
    ExceedsMembers room cs f → ∀ {ds : List Char}, SameLines ds cs → ExceedsMembers room ds f
  | _, _, _, .here ha hk hb hc h, _, hds => by
    obtain ⟨a', b', ds, rfl, ha', hb', hds⟩ := exists_key hds ha hk hb
    obtain ⟨c', cs', rfl, hc', hcs'⟩ := hds.exists_append (.inr h.head?_ne)
    exact .here ha' hk hb' (hc'.isBlank hc) (exceeds_of_sameLines h hcs')
  | _, _, _, .later ha hk hb hc hw hd h, _, hds => by
    obtain ⟨a', b', ds, rfl, ha', hb', hds⟩ := exists_key hds ha hk hb
    obtain ⟨c', w', ds, rfl, hc', hw', hds⟩ := exists_value hds hc hw
    obtain ⟨d', cs', rfl, hd', hcs'⟩ := exists_mark hds hd (by decide)
    exact .later ha' hk hb' hc' (writes_of_sameLines hw hw') hd'
      (exceedsMembers_of_sameLines h hcs')

end

/-! ### Whole texts -/

/-- A whole text holds an excess alike, however its lines are broken. -/
theorem HoldsExcess.sameLines {ds : List Char} (h : HoldsExcess cs f) (hds : SameLines ds cs) :
    HoldsExcess ds f := by
  obtain ⟨a, cs, ha, h, rfl⟩ := h
  obtain ⟨a', cs', rfl, ha', hcs'⟩ := hds.exists_append (.inr h.head?_ne)
  exact ⟨a', cs', ha'.isBlank ha, exceeds_of_sameLines h hcs', rfl⟩

/-- That is so where the breaks of a text are made the same. -/
theorem holdsExcess_unifyBreaks : HoldsExcess (unifyBreaks cs) f ↔ HoldsExcess cs f :=
  ⟨fun h => h.sameLines (SameLines.unifyBreaks cs).symm, fun h => h.sameLines (.unifyBreaks cs)⟩

end Json

namespace JsonValue

open Json

variable {text : List Char}

/-- **The reader stops at a limit** only where it is exceeded. -/
theorem holdsExcess_of_read {e : JsonError} (h : read text = .error e)
    (he : e.fault.isLimit = true) : HoldsExcess text e.fault := by
  unfold read at h
  dsimp only at h
  split at h
  · cases h
    cases he
  · split at h
    · next stop hv =>
      cases h
      obtain ⟨⟨a, ha, htext⟩, -⟩ := exists_of_skip text
      exact ⟨a, _, ha, exceeds_of_value hv he, htext⟩
    · split at h
      · cases h
      · cases h
        cases he

/-- **A text is beyond a limit** exactly if the reader stops at one. -/
theorem exists_holdsExcess_iff :
    (∃ f, HoldsExcess text f) ↔ ∃ e, read text = .error e ∧ e.fault.isLimit = true := by
  constructor
  · rintro ⟨f, a, cs, ha, h, rfl⟩
    have hmark : ((a ++ cs).head? == some '\ufeff') = false := by
      obtain ⟨c, more, rfl, -, hc⟩ := h.exists_cons
      exact head?_ne_mark ha hc
    have hsteps : 2 * cs.length ≤ 2 * (a ++ cs).length + 1 + 1 := by
      rw [List.length_append]
      omega
    obtain ⟨stop, hv, hstop⟩ := stops_value h hsteps
    rw [read, hmark, if_neg Bool.false_ne_true, skip_exceeds ha h, hv]
    exact ⟨_, rfl, hstop⟩
  · rintro ⟨e, h, he⟩
    exact ⟨e.fault, holdsExcess_of_read h he⟩

end JsonValue

end QueryAssist
