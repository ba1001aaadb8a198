import QueryAssist.Json.Read
import QueryAssist.Json.Write
import Mathlib.Data.List.Basic

/-! # Reading what is written

A string is read as it was before it was written in quotes, with its escapes and with the two code
units of a character beyond the first plane, and so is an object of strings whose keys are distinct.
Main statements:

* `Json.string_quote` — a quoted string is read back.
* `JsonValue.read_write` — an object of strings is read back.
* `JsonValue.nodup_keys_of_read` — no key comes twice in an object that is read. -/

namespace QueryAssist

/-! ### Digits and code units -/

/-- A hexadecimal digit is read as the number that it writes. -/
theorem hexValue?_hexDigit : ∀ n < 16, hexValue? (hexDigit n) = some n := by decide

/-- Four digits are read back. -/
theorem readHex4_hexText4 {n : Nat} (h : n < 0x10000) (rest : List Char) :
    readHex4 (hexText4 n ++ rest) = some (n, rest) := by
  have hdigit : ∀ m : Nat, hexValue? (hexDigit (m % 16)) = some (m % 16) := fun m =>
    hexValue?_hexDigit _ (Nat.mod_lt m (by decide))
  simp only [hexText4, List.cons_append, List.nil_append, readHex4, readHex, List.foldl_cons,
    List.foldl_nil, hdigit, Option.bind_some, Option.map_some, Option.some.injEq, Prod.mk.injEq,
    and_true]
  omega

/-- The code point of a character stands for it. -/
@[simp] theorem character?_toNat (c : Char) : character? c.toNat = some c := by
  have hc : c.toNat.isValidChar := c.valid
  rw [character?, if_pos hc, Char.ofNat_toNat]

/-- No character is a surrogate. -/
theorem isLeadUnit_toNat (c : Char) : isLeadUnit c.toNat = false := by
  have hc : c.toNat.isValidChar := c.valid
  simp only [Nat.isValidChar] at hc
  simp only [isLeadUnit, Bool.and_eq_false_iff, decide_eq_false_iff_not]
  omega

/-- The two code units of a character are a pair of surrogates for it. -/
theorem exists_units_eq {c : Char} (h : ¬c.toNat < 0x10000) :
    ∃ lead trail, units c = [lead, trail] ∧ lead < 0x10000 ∧ trail < 0x10000 ∧
      isLeadUnit lead = true ∧ pairCharacter? lead trail = some c := by
  have hc : c.toNat.isValidChar := c.valid
  simp only [Nat.isValidChar] at hc
  have hlead : isLeadUnit (0xd800 + (c.toNat - 0x10000) / 0x400) = true := by
    simp only [isLeadUnit, Bool.and_eq_true, decide_eq_true_eq]
    omega
  have htrail : isTrailUnit (0xdc00 + (c.toNat - 0x10000) % 0x400) = true := by
    simp only [isTrailUnit, Bool.and_eq_true, decide_eq_true_eq]
    omega
  refine ⟨_, _, if_neg h, by omega, by omega, hlead, ?_⟩
  rw [pairCharacter?, hlead, htrail]
  have heq : 0x10000 + (0xd800 + (c.toNat - 0x10000) / 0x400 - 0xd800) * 0x400 +
      (0xdc00 + (c.toNat - 0x10000) % 0x400 - 0xdc00) = c.toNat := by omega
  rw [heq]
  exact character?_toNat c

/-! ### Strings -/

namespace Json

open JsonValue

/-- The code unit of an escape is read back, with what comes after it. -/
theorem unit_hexText4 {n : Nat} (h : n < 0x10000) (r : Char) (rest : List Char) :
    unit (hexText4 n ++ r :: rest) = .ok (n, r :: rest) := by
  rw [unit, readHex4_hexText4 h]

/-- A character that is written by one code unit is read back. -/
theorem unitEscape_one {c : Char} (h : c.toNat < 0x10000) (r : Char) (rest : List Char) :
    unitEscape (hexText4 c.toNat ++ r :: rest) = .ok (c, r :: rest) := by
  rw [unitEscape, unit_hexText4 h]
  simp only [bind, Except.bind, isLeadUnit_toNat, character?_toNat]
  split <;> rfl

/-- So is one that is written by two. -/
theorem unitEscape_two {c : Char} {lead trail : Nat} (hl : lead < 0x10000) (ht : trail < 0x10000)
    (h : isLeadUnit lead = true) (hc : pairCharacter? lead trail = some c) (r : Char)
    (rest : List Char) :
    unitEscape (hexText4 lead ++ (unitText trail ++ r :: rest)) = .ok (c, r :: rest) := by
  have hlong : 4 < (hexText4 trail ++ r :: rest).length := by
    simp only [hexText4, List.length_append, List.length_cons, List.length_nil]
    omega
  rw [unitEscape, unitText, List.cons_append, List.cons_append, unit_hexText4 hl]
  simp only [bind, Except.bind, h, hlong, decide_true, Bool.and_self, if_true, unit_hexText4 ht, hc]
  rfl

/-- A string goes on after an escape. -/
theorem stringBody_escape {k : Nat} {c : Char} {more rest : List Char}
    (h : escape k more = .ok (c, rest)) (hl : rest.length ≤ more.length) :
    stringBody k ('\\' :: more) =
      (stringBody k rest).map fun (t, after) => (c :: t, after) := by
  rw [stringBody, h]
  simp only [bind, Except.bind, dif_pos hl]
  cases stringBody k rest <;> rfl

/-- So it does after a character that stands for itself. -/
theorem stringBody_plain {k : Nat} {c : Char} {rest : List Char} (hq : c ≠ '"') (hb : c ≠ '\\')
    (h : 32 ≤ c.toNat) :
    stringBody k (c :: rest) = (stringBody k rest).map fun (t, after) => (c :: t, after) := by
  rw [stringBody.eq_4 _ _ _ (by simpa using hq) (by simpa using hb), if_neg (by omega)]
  cases stringBody k rest <;> rfl

/-- **A character is read as it was before it was written** in a string. -/
theorem stringBody_escaped (k : Nat) (c r : Char) (rest : List Char) :
    stringBody k (escaped c ++ r :: rest) =
      (stringBody k (r :: rest)).map fun (t, after) => (c :: t, after) := by
  have hsimple : ∀ {d e : Char}, simpleEscape? e = some d → e ≠ 'u' →
      stringBody k ('\\' :: e :: r :: rest) =
        (stringBody k (r :: rest)).map fun (t, after) => (d :: t, after) := by
    intro d e hd hu
    refine stringBody_escape ?_ (Nat.le_succ _)
    rw [escape.eq_3 _ _ _ hu, hd]
    rfl
  have hunits : ∀ {n : Nat} {more : List Char},
      unitEscape (hexText4 n ++ more) = .ok (c, r :: rest) → (r :: rest).length ≤ more.length →
      stringBody k (unitText n ++ more) =
        (stringBody k (r :: rest)).map fun (t, after) => (c :: t, after) := by
    intro n more hc hl
    refine stringBody_escape hc (Nat.le_trans hl ?_)
    exact (List.suffix_append ('u' :: hexText4 n) more).length_le
  -- Seven characters have an escape of two letters; the others are plain, or one or two units.
  unfold escaped
  iterate 7
    split
    · next h =>
      subst h
      exact hsimple rfl (by decide)
  split
  · next hq hb _ _ _ _ _ h => exact stringBody_plain hq hb h.1
  · by_cases h : c.toNat < 0x10000
    · have hu : units c = [c.toNat] := if_pos h
      rw [hu, List.flatMap_singleton]
      exact hunits (unitEscape_one h r rest) (Nat.le_refl _)
    · obtain ⟨lead, trail, hu, hl, ht, hlead, hc⟩ := exists_units_eq h
      rw [hu, List.flatMap_cons, List.flatMap_singleton, List.append_assoc]
      refine hunits (unitEscape_two hl ht hlead hc r rest) ?_
      rw [List.length_append]
      omega

/-- The text of a string is read back up to the quote at its end. -/
theorem stringBody_flatMap (k : Nat) (cs rest : List Char) :
    stringBody k (cs.flatMap escaped ++ '"' :: rest) = .ok (cs, rest) := by
  induction cs with
  | nil => rw [List.flatMap_nil, List.nil_append, stringBody]; rfl
  | cons c cs ih =>
    obtain ⟨r, more, hr⟩ : ∃ r more, cs.flatMap escaped ++ '"' :: rest = r :: more :=
      List.exists_cons_of_ne_nil (by simp)
    rw [List.flatMap_cons, List.append_assoc, hr, stringBody_escaped, ← hr, ih]
    rfl

/-- **A quoted string is read back.** -/
theorem string_quote (s : String) (rest : List Char) :
    string (s.toList.flatMap escaped ++ '"' :: rest) = .ok (s, rest) := by
  rw [string, stringBody_flatMap]
  simp only [bind, Except.bind, String.ofList_toList]
  rfl

/-! ### Objects of strings -/

/-- A quoted text is its characters, each perhaps escaped, between two quotes. -/
theorem quote_append (s : String) (rest : List Char) :
    quote s ++ rest = '"' :: (s.toList.flatMap escaped ++ '"' :: rest) := by
  simp [quote]

/-- A quoted string is a value. -/
theorem value_quote (room n : Nat) (s : String) (rest : List Char) :
    value room (n + 1) (quote s ++ rest) = .ok (.string s, rest) := by
  rw [quote_append, value, string_quote]
  rfl

/-- There is no space before it. -/
theorem skip_quote (s : String) (rest : List Char) : skip (quote s ++ rest) = quote s ++ rest := rfl

/-- A line break and an indentation are skipped. -/
theorem skip_newLine (level : Nat) (rest : List Char) :
    skip (newLine level ++ rest) = skip rest := by
  have hspace : ∀ n : Nat, skip (List.replicate n ' ' ++ rest) = skip rest := by
    intro n
    induction n with
    | zero => rfl
    | succ n ih => exact ih
  exact hspace (2 * level)

/-- A member is read up to its comma or up to the end of the object. -/
theorem members_quote (room n : Nat) (key s : String) (rest : List Char) :
    members room (n + 2) (quote key ++ ':' :: ' ' :: (quote s ++ rest)) =
      (match skip rest with
        | '\x7d' :: after => pure ([(key, .string s)], after)
        | ',' :: rest => do
          let (ms, after) ← members room (n + 1) (skip rest)
          pure ((key, .string s) :: ms, after)
        | rest => fail .comma rest) := by
  have hvalue : value room (n + 1) (skip (' ' :: (quote s ++ rest))) = .ok (.string s, rest) :=
    value_quote room n s rest
  rw [quote_append, members, string_quote]
  conv_lhs => simp only [bind, Except.bind]
  have hcolon : skip (':' :: ' ' :: (quote s ++ rest)) = ':' :: ' ' :: (quote s ++ rest) := rfl
  rw [hcolon]
  simp only [hvalue]
  rfl

/-- The members of an object of strings. -/
def ofTexts (ps : List (String × String)) : List (String × JsonValue) :=
  ps.map fun (key, s) => (key, .string s)

/-- The text of some members that are strings, which begins with a quote. -/
theorem intercalate_writeMembers_cons (level : Nat) (p : String × String)
    (ps : List (String × String)) (rest : List Char) :
    (',' :: newLine level).intercalate (writeMembers level (ofTexts (p :: ps))) ++ rest =
      quote p.1 ++ ':' :: ' ' :: (quote p.2 ++
        (if ps = [] then rest else ',' :: (newLine level ++
          ((',' :: newLine level).intercalate (writeMembers level (ofTexts ps)) ++ rest)))) := by
  cases ps with
  | nil => simp [ofTexts, writeMembers, writeAt]
  | cons q ps => simp [ofTexts, writeMembers, writeAt]

/-- **Members that are strings are read back**, up to the end of the object. -/
theorem members_writeMembers (room level outer : Nat) (rest : List Char) (p : String × String)
    (ps : List (String × String)) {n : Nat} (hn : ps.length < n) :
    members room (n + 1)
        ((',' :: newLine level).intercalate (writeMembers level (ofTexts (p :: ps))) ++
          (newLine outer ++ '\x7d' :: rest)) =
      .ok (ofTexts (p :: ps), rest) := by
  induction ps generalizing p n with
  | nil =>
    obtain ⟨n, rfl⟩ := Nat.exists_eq_succ_of_ne_zero (Nat.ne_of_gt hn)
    rw [intercalate_writeMembers_cons, members_quote, if_pos rfl, skip_newLine]
    rfl
  | cons q ps ih =>
    obtain ⟨n, rfl⟩ := Nat.exists_eq_succ_of_ne_zero (Nat.ne_of_gt (Nat.zero_lt_of_lt hn))
    rw [intercalate_writeMembers_cons, members_quote, if_neg (List.cons_ne_nil _ _)]
    have hcomma : ∀ rest, skip (',' :: rest) = ',' :: rest := fun _ => rfl
    have hskip : skip
        ((',' :: newLine level).intercalate (writeMembers level (ofTexts (q :: ps))) ++
        (newLine outer ++ '\x7d' :: rest)) =
        (',' :: newLine level).intercalate (writeMembers level (ofTexts (q :: ps))) ++
          (newLine outer ++ '\x7d' :: rest) := by
      rw [intercalate_writeMembers_cons, skip_quote]
    rw [hcomma]
    simp only [skip_newLine, hskip, ih q (Nat.lt_of_succ_lt_succ hn)]
    rfl

/-- The members of an object are not longer than its text. -/
theorem length_le_length_writeMembers (level : Nat) (p : String × String)
    (ps : List (String × String)) (rest : List Char) :
    (p :: ps).length ≤
      ((',' :: newLine level).intercalate (writeMembers level (ofTexts (p :: ps))) ++
        rest).length := by
  induction ps generalizing p with
  | nil => simp [ofTexts, writeMembers, writeAt, quote]
  | cons q ps ih =>
    have hlen := ih q
    rw [intercalate_writeMembers_cons, if_neg (List.cons_ne_nil _ _)]
    simp only [List.length_append, List.length_cons] at hlen ⊢
    omega

/-- An object of strings is a value, if no key comes twice. -/
theorem value_object (room outer : Nat) (rest : List Char) {p : String × String}
    {ps : List (String × String)} (h : ((p :: ps).map Prod.fst).Nodup) {n : Nat}
    (hn : ps.length + 1 < n) :
    value (room + 1) (n + 1) ('\x7b' :: (newLine 1 ++
        ((',' :: newLine 1).intercalate (writeMembers 1 (ofTexts (p :: ps))) ++
          (newLine outer ++ '\x7d' :: rest)))) = .ok (.object (ofTexts (p :: ps)), rest) := by
  have hentries : Entries.ofPairs (ofTexts (p :: ps)) = ofTexts (p :: ps) := by
    refine Entries.ofPairs_of_nodup ?_
    rwa [ofTexts, List.map_map]
  obtain ⟨n, rfl⟩ := Nat.exists_eq_succ_of_ne_zero (Nat.ne_of_gt (Nat.zero_lt_of_lt hn))
  have hmembers := members_writeMembers room 1 outer rest p ps (Nat.lt_of_succ_lt_succ hn)
  rw [value, if_neg (Nat.succ_ne_zero room), skip_newLine]
  obtain ⟨more, hmore⟩ : ∃ more,
      (',' :: newLine 1).intercalate (writeMembers 1 (ofTexts (p :: ps))) ++
      (newLine outer ++ '\x7d' :: rest) = '"' :: more := by
    rw [intercalate_writeMembers_cons, quote_append]
    exact ⟨_, rfl⟩
  have hskip : skip ('"' :: more) = '"' :: more := rfl
  rw [hmore] at hmembers ⊢
  rw [hskip]
  change (do
    let (ms, after) ← members room (n + 1) ('"' :: more)
    pure (JsonValue.object (Entries.ofPairs ms), after)) = _
  simp only [hmembers, bind, Except.bind, hentries]
  rfl

end Json

/-- The text of an object of strings. -/
theorem JsonValue.write_ofTexts (p : String × String) (ps : List (String × String)) :
    write (.object (Json.ofTexts (p :: ps))) = '\x7b' :: (newLine 1 ++
      ((',' :: newLine 1).intercalate (writeMembers 1 (Json.ofTexts (p :: ps))) ++
        (newLine 0 ++ ['\x7d']))) := by
  simp [write, writeAt, bracket, Json.ofTexts, writeMembers]

/-- **An object of strings is read back** from its text, if no key comes twice. -/
theorem JsonValue.read_write {ps : List (String × String)} (h : (ps.map Prod.fst).Nodup) :
    read (write (.object (Json.ofTexts ps))) = .ok (.object (Json.ofTexts ps)) := by
  cases ps with
  | nil => decide
  | cons p ps =>
    have htext := write_ofTexts p ps
    have hlen := Json.length_le_length_writeMembers 1 p ps (newLine 0 ++ ['\x7d'])
    have hfuel : ps.length + 1 < 2 * (write (.object (Json.ofTexts (p :: ps)))).length + 1 := by
      rw [htext]
      simp only [List.length_cons, List.length_append] at hlen ⊢
      omega
    have hvalue := Json.value_object (Json.depthLimit - 1) 0 [] h hfuel
    rw [← htext] at hvalue
    have hroom : Json.depthLimit - 1 + 1 = Json.depthLimit := rfl
    rw [hroom] at hvalue
    have hhead : (write (.object (Json.ofTexts (p :: ps)))).head? = some '\x7b' := by
      rw [htext]
      rfl
    have hskip : Json.skip (write (.object (Json.ofTexts (p :: ps)))) =
        write (.object (Json.ofTexts (p :: ps))) := by rw [htext]; rfl
    rw [read, hhead, hskip, if_neg (by decide)]
    simp only [hvalue]
    rfl

/-! ### Keys -/

namespace Json

/-- A word or a number has no members. -/
theorem members?_of_atom {cs rest : List Char} {v : JsonValue} (h : atom cs = .ok (v, rest)) :
    v.members? = none := by
  unfold atom at h
  split at h
  · next hw =>
    have hwords : ∀ w ∈ words, w.2.members? = none := by decide
    have hv := hwords _ (List.mem_of_find?_eq_some hw)
    cases h
    exact hv
  · split at h
    · cases h
    · split at h
      · cases h
      · cases h
        rfl

/-- No key comes twice in a value that is an object. -/
theorem nodup_keys_of_value {room n : Nat} {cs rest : List Char} {v : JsonValue}
    (h : value room n cs = .ok (v, rest)) : (v.members?.getD []).keys.Nodup := by
  cases n with
  | zero => cases h
  | succ n =>
    rw [value.eq_def] at h
    simp only [bind, Except.bind] at h
    -- The cases are those of the first character, and only a brace begins an object.
    split at h
    · split at h
      · cases h
      · cases h
        exact .nil
    · split at h
      · cases h
      · split at h
        · cases h
          exact .nil
        · split at h
          · cases h
          · cases h
            exact Entries.nodup_keys_ofPairs _
    · split at h
      · cases h
      · split at h
        · cases h
          exact .nil
        · split at h
          · cases h
          · cases h
            exact .nil
    · rw [members?_of_atom h]
      exact .nil

end Json

/-- **No key comes twice** in an object that is read. -/
theorem JsonValue.nodup_keys_of_read {text : List Char} {v : JsonValue} (h : read text = .ok v) :
    (v.members?.getD []).keys.Nodup := by
  unfold read at h
  dsimp only at h
  split at h
  · cases h
  · split at h
    · cases h
    · next hv =>
      split at h
      · cases h
        exact Json.nodup_keys_of_value hv
      · cases h

/-! ### Carriage returns -/

namespace JsonValue

/-- What stands in quotes has no carriage return. -/
theorem not_mem_escaped (c : Char) : '\r' ∉ escaped c := by
  have hdigit : ∀ n < 16, hexDigit n ≠ '\r' := by decide
  have hunit : ∀ n, '\r' ∉ unitText n := by
    intro n
    have h : ∀ m : Nat, '\r' ≠ hexDigit (m % 16) := fun m =>
      (hdigit _ (Nat.mod_lt m (by decide))).symm
    simp [unitText, hexText4, h]
  unfold escaped
  iterate 7
    split
    · decide
  split
  · next hc _ _ _ _ => exact fun h => hc (List.mem_singleton.1 h).symm
  · rw [List.mem_flatMap]
    rintro ⟨n, -, hn⟩
    exact hunit n hn

/-- No carriage return stands in a quoted text. -/
theorem not_mem_quote (s : String) : '\r' ∉ quote s := by
  simp [quote, not_mem_escaped]

/-- None stands in the break before a member. -/
theorem not_mem_newLine (level : Nat) : '\r' ∉ newLine level := by
  simp [newLine]

/-- The text of members that are strings has none. -/
theorem not_mem_intercalate (level : Nat) (ps : List (String × String)) :
    '\r' ∉ (',' :: newLine level).intercalate (writeMembers level (Json.ofTexts ps)) := by
  induction ps with
  | nil => simp [Json.ofTexts, writeMembers]
  | cons p ps ih =>
    have htext := Json.intercalate_writeMembers_cons level p ps []
    rw [List.append_nil, List.append_nil] at htext
    rw [htext]
    split <;> simp [not_mem_quote, not_mem_newLine, ih]

/-- **The text of an object of strings** has none. -/
theorem not_mem_write (ps : List (String × String)) : '\r' ∉ write (.object (Json.ofTexts ps)) := by
  cases ps with
  | nil => decide
  | cons p ps =>
    rw [write_ofTexts]
    simp [not_mem_newLine, not_mem_intercalate]

end JsonValue

end QueryAssist
