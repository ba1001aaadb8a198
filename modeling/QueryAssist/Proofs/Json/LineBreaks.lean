import QueryAssist.Proofs.Json.Reading
import QueryAssist.Text.Lines

/-! # JSON texts and their line breaks

When a text is read from a file, each of its line breaks becomes a line feed. In a JSON text they
stand only where there can be space, so that it writes the same however its lines are broken. Main
definition: **`SameLines`**, two texts differ in their line breaks alone.

Main statements:

* `SameLines.exists_append` — texts that are put together from the same parts.
* `Json.writes_of_sameLines` — the same values are written.
* `Json.holdsObject_unifyBreaks` — the same objects are held. -/

namespace QueryAssist

/-! ### Texts that are the same but for their line breaks -/

variable {as bs cs ds : List Char} {c : Char}

/-- Two texts are the **same but for their line breaks**. -/
def SameLines (ds cs : List Char) : Prop := unifyBreaks ds = unifyBreaks cs

/-- Where no line feed follows a carriage return, a text is read character by character. -/
theorem unifyBreaks_cons (h : c = '\r' → cs.head? ≠ some '\n') :
    unifyBreaks (c :: cs) = (if c = '\r' then '\n' else c) :: unifyBreaks cs := by
  refine unifyBreaks.eq_3 c cs fun ds hc hds => h hc ?_
  rw [hds]
  rfl

/-- A text is put together from two parts, unless a line break is cut in two. -/
theorem unifyBreaks_append (h : as.getLast? ≠ some '\r' ∨ bs.head? ≠ some '\n') :
    unifyBreaks (as ++ bs) = unifyBreaks as ++ unifyBreaks bs := by
  -- Only a break that consists of both characters can be cut in two.
  fun_induction unifyBreaks as with
  | case1 => rfl
  | case2 cs ih =>
    rw [List.cons_append, List.cons_append, unifyBreaks, List.cons_append, ih]
    refine h.imp (fun h => ?_) id
    cases cs with
    | nil => simp
    | cons c cs => simpa using h
  | case3 c cs hne ih =>
    have hhead : c = '\r' → (cs ++ bs).head? ≠ some '\n' := by
      rintro rfl
      cases cs with
      | nil => exact h.resolve_left (by simp)
      | cons d cs =>
        intro hd
        exact hne cs rfl (congrArg (· :: cs) (Option.some.inj hd))
    rw [List.cons_append, unifyBreaks_cons hhead, ih, List.cons_append]
    refine h.imp (fun h => ?_) id
    cases cs with
    | nil => simp
    | cons d cs => simpa using h

/-- What is read in two parts is written in two parts. -/
theorem exists_append_of_unifyBreaks {xs ys : List Char} (h : unifyBreaks cs = xs ++ ys) :
    ∃ as bs, cs = as ++ bs ∧ unifyBreaks as = xs ∧ unifyBreaks bs = ys := by
  fun_induction unifyBreaks cs generalizing xs with
  | case1 =>
    obtain ⟨rfl, rfl⟩ := List.append_eq_nil_iff.1 h.symm
    exact ⟨[], [], rfl, rfl, rfl⟩
  | case2 cs ih =>
    cases xs with
    | nil => exact ⟨[], _, rfl, rfl, by rw [unifyBreaks]; exact h⟩
    | cons x xs =>
      obtain ⟨rfl, hxs⟩ := List.cons.inj h
      obtain ⟨as, bs, hcs, rfl, rfl⟩ := ih hxs
      exact ⟨'\r' :: '\n' :: as, bs, by rw [hcs]; rfl, by rw [unifyBreaks], rfl⟩
  | case3 c cs hne ih =>
    cases xs with
    | nil => exact ⟨[], _, rfl, rfl, by rw [unifyBreaks.eq_3 _ _ hne]; exact h⟩
    | cons x xs =>
      obtain ⟨rfl, hxs⟩ := List.cons.inj h
      obtain ⟨as, bs, hcs, rfl, rfl⟩ := ih hxs
      refine ⟨c :: as, bs, by rw [hcs]; rfl, ?_, rfl⟩
      refine unifyBreaks.eq_3 c as fun ds hc hds => hne (ds ++ bs) hc ?_
      rw [hcs, hds, List.cons_append]

/-- A text without line feeds is not changed, nor any that is read like it. -/
theorem eq_of_unifyBreaks {xs : List Char} (h : unifyBreaks cs = xs) (hxs : '\n' ∉ xs) :
    cs = xs := by
  subst h
  fun_induction unifyBreaks cs with
  | case1 => rfl
  | case2 cs ih => simp at hxs
  | case3 c cs hne ih =>
    rw [List.mem_cons, not_or] at hxs
    have hc : c ≠ '\r' := fun hc => hxs.1 (by rw [if_pos hc])
    rw [if_neg hc, ← ih hxs.2]

/-- Space is space however its lines are broken. -/
theorem isBlank_unifyBreaks (cs : List Char) : Json.IsBlank (unifyBreaks cs) ↔ Json.IsBlank cs := by
  have hcons : ∀ (c : Char) (cs : List Char),
      Json.IsBlank (c :: cs) ↔ Json.isSpace c = true ∧ Json.IsBlank cs := by
    simp [Json.IsBlank]
  fun_induction unifyBreaks cs with
  | case1 => rfl
  | case2 cs ih => simp [hcons, ih, Json.isSpace]
  | case3 c cs hne ih =>
    simp only [hcons, ih]
    split
    · next hc =>
      rw [hc]
      rfl
    · rfl

/-! ### What has no line breaks -/

/-- A text is **unbroken** if there is no line break in it. -/
def IsUnbroken (cs : List Char) : Prop := '\n' ∉ cs ∧ '\r' ∉ cs

instance (cs : List Char) : Decidable (IsUnbroken cs) := inferInstanceAs (Decidable (_ ∧ _))

/-- A text is unbroken if its first character is no break and the others are unbroken. -/
theorem isUnbroken_cons : IsUnbroken (c :: cs) ↔ (c ≠ '\n' ∧ c ≠ '\r') ∧ IsUnbroken cs := by
  simp only [IsUnbroken, List.mem_cons, not_or, ne_comm, and_and_and_comm, ne_eq]

/-- Two texts together are unbroken if each is. -/
theorem isUnbroken_append : IsUnbroken (as ++ bs) ↔ IsUnbroken as ∧ IsUnbroken bs := by
  simp only [IsUnbroken, List.mem_append, not_or, and_and_and_comm]

/-! ### The same but for their line breaks -/

namespace SameLines

/-- A text that is the same but for its breaks **falls into the same parts**, if no break of two
characters is cut. -/
theorem exists_append (h : SameLines ds (as ++ bs))
    (hab : as.getLast? ≠ some '\r' ∨ bs.head? ≠ some '\n') :
    ∃ as' bs', ds = as' ++ bs' ∧ SameLines as' as ∧ SameLines bs' bs := by
  rw [SameLines, unifyBreaks_append hab] at h
  exact exists_append_of_unifyBreaks h

/-- A text without line breaks stands as it is. -/
theorem eq (h : SameLines ds cs) (hcs : IsUnbroken cs) : ds = cs := by
  rw [SameLines, unifyBreaks_of_not_mem hcs.2] at h
  exact eq_of_unifyBreaks h hcs.1

/-- So does a character that is none. -/
theorem exists_cons (h : SameLines ds (c :: cs)) (hc : IsUnbroken [c]) :
    ∃ cs', ds = c :: cs' ∧ SameLines cs' cs := by
  have hds : SameLines ds ([c] ++ cs) := h
  have hlast : [c].getLast? ≠ some '\r' := fun hlast => hc.2 (List.mem_of_getLast? hlast)
  obtain ⟨as, cs', rfl, has, hcs⟩ := hds.exists_append (.inl hlast)
  obtain rfl := has.eq hc
  exact ⟨cs', rfl, hcs⟩

/-- So do brackets around a text. -/
theorem exists_bracket {o e : Char} (h : SameLines ds (o :: (cs ++ [e])))
    (ho : IsUnbroken [o]) (he : IsUnbroken [e]) :
    ∃ cs', ds = o :: (cs' ++ [e]) ∧ SameLines cs' cs := by
  obtain ⟨ds, rfl, hds⟩ := h.exists_cons ho
  have hhead : [e].head? ≠ some '\n' := fun hhead => he.1 (List.mem_of_head? hhead)
  obtain ⟨cs', e', rfl, hcs', he'⟩ := hds.exists_append (.inr hhead)
  obtain rfl := he'.eq he
  exact ⟨cs', rfl, hcs'⟩

/-- Space is space, however it is broken. -/
theorem isBlank (h : SameLines ds cs) (hcs : Json.IsBlank cs) : Json.IsBlank ds := by
  rw [← isBlank_unifyBreaks, h, isBlank_unifyBreaks]
  exact hcs

/-- A text is the same as it is once its line breaks are line feeds. -/
theorem unifyBreaks (cs : List Char) : SameLines (unifyBreaks cs) cs :=
  unifyBreaks_of_not_mem (not_mem_unifyBreaks cs)

/-- Of two texts that are the same but for their breaks, either may come first. -/
theorem symm (h : SameLines ds cs) : SameLines cs ds := Eq.symm h

end SameLines

namespace Json

/-! ### Leaves without line breaks -/

/-- The words that stand for values are unbroken. -/
theorem isUnbroken_of_mem_words {v : JsonValue} (h : (cs, v) ∈ words) : IsUnbroken cs := by
  have hwords : ∀ w ∈ words, IsUnbroken w.1 := by decide
  exact hwords _ h

/-- So are four hexadecimal digits. -/
theorem isUnbroken_of_readHex4 {n : Nat} (h : readHex4 ds = some (n, [])) : IsUnbroken ds := by
  have hdigit : ∀ {c v}, hexValue? c = some v → c ≠ '\n' ∧ c ≠ '\r' := by
    intro c v hc
    constructor <;> rintro rfl <;> cases hc
  unfold readHex4 at h
  split at h
  · obtain ⟨v, hv, heq⟩ := Option.map_eq_some_iff.1 h
    rw [(Prod.mk.inj heq).2]
    simp only [readHex, List.foldl_cons, List.foldl_nil, Option.bind_eq_some_iff,
      Option.map_eq_some_iff] at hv
    obtain ⟨_, ⟨_, ⟨_, ⟨_, -, _, ha, -⟩, _, hb, -⟩, _, hc, -⟩, _, hd, -⟩ := hv
    simp only [isUnbroken_cons]
    exact ⟨hdigit ha, hdigit hb, hdigit hc, hdigit hd, by decide⟩
  · cases h

/-- So are digits. -/
theorem IsDigits.isUnbroken (h : IsDigits cs) : IsUnbroken cs :=
  ⟨fun hc => by simpa using h.2 _ hc, fun hc => by simpa using h.2 _ hc⟩

/-- So is a fraction. -/
theorem IsFraction.isUnbroken (h : IsFraction cs) : IsUnbroken cs := by
  obtain rfl | ⟨ds, hds, rfl⟩ := h
  · decide
  · exact isUnbroken_cons.2 ⟨by decide, hds.isUnbroken⟩

/-- So is an exponent. -/
theorem IsExponent.isUnbroken (h : IsExponent cs) : IsUnbroken cs := by
  obtain rfl | ⟨c, sign, ds, hc, hsign, hds, rfl⟩ := h
  · decide
  · refine isUnbroken_cons.2 ⟨?_, isUnbroken_append.2 ⟨?_, hds.isUnbroken⟩⟩
    · obtain rfl | rfl := hc <;> decide
    · obtain rfl | rfl | rfl := hsign <;> decide

/-- So is a number. -/
theorem IsNumber.isUnbroken (h : IsNumber cs) : IsUnbroken cs := by
  obtain ⟨sign, whole, frac, exp, hsign, hwhole, hfrac, hexp, rfl⟩ := h
  simp only [isUnbroken_append]
  refine ⟨?_, hwhole.1.isUnbroken, hfrac.isUnbroken, hexp.isUnbroken⟩
  obtain rfl | rfl := hsign <;> decide

/-- No line is broken between the quotes of a string. -/
theorem WritesParts.isUnbroken {ps : List StringPart} (h : WritesParts cs ps) : IsUnbroken cs := by
  induction h with
  | nil => decide
  | plain _ _ hc _ ih =>
    refine isUnbroken_cons.2 ⟨⟨?_, ?_⟩, ih⟩
    · rintro rfl
      exact absurd hc (by decide)
    · rintro rfl
      exact absurd hc (by decide)
  | escape he _ ih =>
    refine isUnbroken_cons.2 ⟨by decide, isUnbroken_cons.2 ⟨⟨?_, ?_⟩, ih⟩⟩
    · rintro rfl
      cases he
    · rintro rfl
      cases he
  | unit hds _ ih =>
    exact isUnbroken_cons.2 ⟨by decide, isUnbroken_cons.2 ⟨by decide,
      isUnbroken_append.2 ⟨isUnbroken_of_readHex4 hds, ih⟩⟩⟩

/-- So it is with the quotes. -/
theorem WritesString.isUnbroken {s : String} (h : WritesString cs s) : IsUnbroken cs := by
  obtain ⟨body, ps, hps, -, rfl⟩ := h
  exact isUnbroken_cons.2 ⟨by decide, isUnbroken_append.2 ⟨hps.isUnbroken, by decide⟩⟩

/-! ### Values and their line breaks -/

variable {w : List Char} {v : JsonValue}

/-- The end of a value does not begin a line break. -/
theorem Writes.getLast?_ne (h : Writes w v) : w.getLast? ≠ some '\r' := by
  have hunbroken : ∀ {w}, IsUnbroken w → w.getLast? ≠ some '\r' :=
    fun hw hlast => hw.2 (List.mem_of_getLast? hlast)
  have hbracket : ∀ {o e : Char} {cs}, e ≠ '\r' → (o :: (cs ++ [e])).getLast? ≠ some '\r' := by
    intro o e cs he
    rw [← List.cons_append, List.getLast?_concat]
    simpa using he
  cases h with
  | word h => exact hunbroken (isUnbroken_of_mem_words h)
  | number h => exact hunbroken h.isUnbroken
  | string h => exact hunbroken h.isUnbroken
  | array h => cases h <;> exact hbracket (by decide)
  | object h => cases h <;> exact hbracket (by decide)

/-- Its beginning does not go on with one. -/
theorem Writes.head?_ne (h : Writes w v) (more : List Char) : (w ++ more).head? ≠ some '\n' := by
  obtain ⟨c, cs, rfl, hc, -⟩ := h.exists_cons
  rintro ⟨⟩
  cases hc

/-- A string does not begin with a break, whatever comes after it. -/
theorem WritesString.head?_ne {s : String} (h : WritesString w s) (more : List Char) :
    (w ++ more).head? ≠ some '\n' := by
  obtain ⟨body, ps, -, -, rfl⟩ := h
  rintro ⟨⟩

/-- It does not end with one. -/
theorem WritesString.getLast?_ne {s : String} (h : WritesString w s) : w.getLast? ≠ some '\r' :=
  fun hlast => h.isUnbroken.2 (List.mem_of_getLast? hlast)

/-- Space and a mark after it are found again. -/
theorem exists_mark {a : List Char} (h : SameLines ds (a ++ c :: cs)) (ha : IsBlank a)
    (hc : IsUnbroken [c]) :
    ∃ a' cs', ds = a' ++ c :: cs' ∧ IsBlank a' ∧ SameLines cs' cs := by
  have hhead : (c :: cs).head? ≠ some '\n' := fun hhead => hc.1 (by simpa using hhead.symm)
  obtain ⟨a', ds, rfl, ha', hds⟩ := h.exists_append (.inr hhead)
  obtain ⟨cs', rfl, hcs'⟩ := hds.exists_cons hc
  exact ⟨a', cs', rfl, ha'.isBlank ha, hcs'⟩

/-- So are space and a value after it. -/
theorem exists_value {a : List Char} (h : SameLines ds (a ++ (w ++ cs))) (ha : IsBlank a)
    (hw : Writes w v) :
    ∃ a' w' cs', ds = a' ++ (w' ++ cs') ∧ IsBlank a' ∧ SameLines w' w ∧ SameLines cs' cs := by
  obtain ⟨a', ds, rfl, ha', hds⟩ := h.exists_append (.inr (hw.head?_ne _))
  obtain ⟨w', cs', rfl, hw', hcs'⟩ := hds.exists_append (.inl hw.getLast?_ne)
  exact ⟨a', w', cs', rfl, ha'.isBlank ha, hw', hcs'⟩

/-- So is a key, which has no line breaks. -/
theorem exists_key {a k b : List Char} {key : String}
    (h : SameLines ds (a ++ (k ++ (b ++ ':' :: cs)))) (ha : IsBlank a) (hk : WritesString k key)
    (hb : IsBlank b) :
    ∃ a' b' cs', ds = a' ++ (k ++ (b' ++ ':' :: cs')) ∧ IsBlank a' ∧ IsBlank b' ∧
      SameLines cs' cs := by
  obtain ⟨a', ds, rfl, ha', hds⟩ := h.exists_append (.inr (hk.head?_ne _))
  obtain ⟨k', ds, rfl, hk', hds⟩ := hds.exists_append (.inl hk.getLast?_ne)
  obtain ⟨b', cs', rfl, hb', hcs'⟩ := exists_mark hds hb (by decide)
  obtain rfl := hk'.eq hk.isUnbroken
  exact ⟨a', b', cs', rfl, ha'.isBlank ha, hb', hcs'⟩

mutual

/-- **A text writes the same value** however its lines are broken. -/
theorem writes_of_sameLines : ∀ {w : List Char} {v : JsonValue}, Writes w v →
    ∀ {ds : List Char}, SameLines ds w → Writes ds v
  | _, _, .word h, _, hds => by
    obtain rfl := hds.eq (isUnbroken_of_mem_words h)
    exact .word h
  | _, _, .number h, _, hds => by
    obtain rfl := hds.eq h.isUnbroken
    exact .number h
  | _, _, .string h, _, hds => by
    obtain rfl := hds.eq h.isUnbroken
    exact .string h
  | _, _, .array h, _, hds => .array (writesArray_of_sameLines h hds)
  | _, _, .object h, _, hds => .object (writesObject_of_sameLines h hds)

/-- An array is written alike, however its lines are broken. -/
theorem writesArray_of_sameLines : ∀ {w : List Char} {vs : List JsonValue}, WritesArray w vs →
    ∀ {ds : List Char}, SameLines ds w → WritesArray ds vs
  | _, _, .empty hcs, _, hds => by
    obtain ⟨cs', rfl, hcs'⟩ := hds.exists_bracket (by decide) (by decide)
    exact .empty (hcs'.isBlank hcs)
  | _, _, .items h, _, hds => by
    obtain ⟨cs', rfl, hcs'⟩ := hds.exists_bracket (by decide) (by decide)
    exact .items (writesItems_of_sameLines h hcs')

/-- So are its items. -/
theorem writesItems_of_sameLines : ∀ {cs : List Char} {vs : List JsonValue}, WritesItems cs vs →
    ∀ {ds : List Char}, SameLines ds cs → WritesItems ds vs
  | _, _, .last ha hw hb, _, hds => by
    obtain ⟨a', w', b', rfl, ha', hw', hb'⟩ := exists_value hds ha hw
    exact .last ha' (writes_of_sameLines hw hw') (hb'.isBlank hb)
  | _, _, .cons ha hw hb hcs, _, hds => by
    obtain ⟨a', w', ds, rfl, ha', hw', hds⟩ := exists_value hds ha hw
    obtain ⟨b', cs', rfl, hb', hcs'⟩ := exists_mark hds hb (by decide)
    exact .cons ha' (writes_of_sameLines hw hw') hb' (writesItems_of_sameLines hcs hcs')

/-- So is an object. -/
theorem writesObject_of_sameLines : ∀ {w : List Char} {ms : List (String × JsonValue)},
    WritesObject w ms → ∀ {ds : List Char}, SameLines ds w → WritesObject ds ms
  | _, _, .empty hcs, _, hds => by
    obtain ⟨cs', rfl, hcs'⟩ := hds.exists_bracket (by decide) (by decide)
    exact .empty (hcs'.isBlank hcs)
  | _, _, .members h, _, hds => by
    obtain ⟨cs', rfl, hcs'⟩ := hds.exists_bracket (by decide) (by decide)
    exact .members (writesMembers_of_sameLines h hcs')

/-- So are its members. -/
theorem writesMembers_of_sameLines : ∀ {cs : List Char} {ms : List (String × JsonValue)},
    WritesMembers cs ms → ∀ {ds : List Char}, SameLines ds cs → WritesMembers ds ms
  | _, _, .last ha hk hb hc hw hd, _, hds => by
    obtain ⟨a', b', ds, rfl, ha', hb', hds⟩ := exists_key hds ha hk hb
    obtain ⟨c', w', d', rfl, hc', hw', hd'⟩ := exists_value hds hc hw
    exact .last ha' hk hb' hc' (writes_of_sameLines hw hw') (hd'.isBlank hd)
  | _, _, .cons ha hk hb hc hw hd hcs, _, hds => by
    obtain ⟨a', b', ds, rfl, ha', hb', hds⟩ := exists_key hds ha hk hb
    obtain ⟨c', w', ds, rfl, hc', hw', hds⟩ := exists_value hds hc hw
    obtain ⟨d', cs', rfl, hd', hcs'⟩ := exists_mark hds hd (by decide)
    exact .cons ha' hk hb' hc' (writes_of_sameLines hw hw') hd'
      (writesMembers_of_sameLines hcs hcs')

end

/-- **A text holds the same objects** however its lines are broken. -/
theorem HoldsObject.sameLines {ms : List (String × JsonValue)} (h : HoldsObject cs ms)
    (hds : SameLines ds cs) : HoldsObject ds ms := by
  obtain ⟨a, w, b, ha, hw, hb, rfl⟩ := h
  obtain ⟨a', w', b', rfl, ha', hw', hb'⟩ := exists_value hds ha (.object hw)
  exact ⟨a', w', b', ha', writesObject_of_sameLines hw hw', hb'.isBlank hb, rfl⟩

/-- A whole text holds the same object where its breaks are made the same. -/
theorem holdsObject_unifyBreaks {ms : List (String × JsonValue)} :
    HoldsObject (unifyBreaks cs) ms ↔ HoldsObject cs ms :=
  ⟨fun h => h.sameLines (SameLines.unifyBreaks cs).symm, fun h => h.sameLines (.unifyBreaks cs)⟩

end Json

end QueryAssist
