import QueryAssist.Proofs.Json.Leaves
import QueryAssist.Proofs.Steps

/-! # The reader and the grammar

The reader takes the texts that the grammar tells, and no others, up to its limits. A part of the
reader takes as many characters as its part of the grammar has, so that twice as many steps as there
are characters are enough.

Main statements:

* `Json.reaches_value` and `Json.writes_of_value` — what is written is read, and the other way
  round.
* `JsonValue.read_of_holds` and `JsonValue.holds_of_read` — so it is with a whole text. -/

namespace QueryAssist

namespace Json

variable {w cs rest : List Char} {v : JsonValue} {room n : Nat}

/-! ### Space -/

/-- No character at all is space. -/
theorem isBlank_nil : IsBlank [] := by simp [IsBlank]

/-- Space is skipped up to a character that is none. -/
theorem skip_append {a : List Char} (ha : IsBlank a) (hr : ∀ c ∈ rest.head?, isSpace c = false) :
    skip (a ++ rest) = rest := by
  have hrest : rest.dropWhile isSpace = rest := by
    cases rest with
    | nil => rfl
    | cons c rest => exact List.dropWhile_cons_of_neg (by simp [hr c rfl])
  rw [skip, List.dropWhile_append_of_pos ha, hrest]

/-- What is skipped is space, and there is none after it. -/
theorem exists_of_skip (cs : List Char) :
    (∃ a, IsBlank a ∧ cs = a ++ skip cs) ∧ ∀ c ∈ (skip cs).head?, isSpace c = false := by
  refine ⟨⟨cs.takeWhile isSpace, fun c hc => List.mem_takeWhile_imp hc, ?_⟩, fun c hc => ?_⟩
  · exact List.takeWhile_append_dropWhile.symm
  · have hhead := List.head?_dropWhile_not isSpace cs
    rw [skip] at hc
    rw [hc] at hhead
    simpa using hhead

/-- A number ends where the text does. -/
theorem endsNumber_nil : EndsNumber [] := by simp [EndsNumber]

/-- Space ends a number. -/
theorem EndsNumber.append {a : List Char} (ha : IsBlank a) (hr : EndsNumber rest) :
    EndsNumber (a ++ rest) := by
  cases a with
  | nil => exact hr
  | cons c a =>
    rintro _ ⟨⟩
    have hc : isSpace c = true := ha c List.mem_cons_self
    simp only [isSpace, Bool.or_eq_true, beq_iff_eq] at hc
    obtain ((rfl | rfl) | rfl) | rfl := hc <;> decide

/-- It ends at a comma and at the end of an array or an object. -/
theorem endsNumber_cons {c : Char} (hc : c = ',' ∨ c = ']' ∨ c = '\x7d') :
    EndsNumber (c :: rest) := by
  rintro _ ⟨⟩
  obtain rfl | rfl | rfl := hc <;> decide

/-- A word or a number begins with a character of its own. -/
theorem exists_cons_of_atom (h : (w, v) ∈ words ∨ IsNumber w) :
    ∃ c cs, w = c :: cs ∧ isSpace c = false ∧ c ∉ ['"', '[', ']', '\x7b', '\ufeff'] := by
  obtain h | h := h
  · have hwords : ∀ w ∈ words, w.1.head?.any (fun c => !isSpace c &&
        !(['"', '[', ']', '\x7b', '\ufeff'].contains c)) = true := by decide
    have hw := hwords _ h
    cases w with
    | nil => cases hw
    | cons c cs => exact ⟨c, cs, rfl, by simpa using hw⟩
  · obtain ⟨d, ds, hd, rfl | rfl⟩ := h.exists_digit
    · refine ⟨d, ds, rfl, Bool.eq_false_iff.2 fun hspace => ?_, fun hmem => ?_⟩
      · simp only [isSpace, Bool.or_eq_true, beq_iff_eq] at hspace
        obtain ((rfl | rfl) | rfl) | rfl := hspace <;> cases hd
      · simp only [List.mem_cons, List.not_mem_nil, or_false] at hmem
        obtain rfl | rfl | rfl | rfl | rfl := hmem <;> cases hd
    · exact ⟨_, _, rfl, by decide⟩

/-- A value begins with a character that is no space and no end of an array, nor a byte order
mark. -/
theorem Writes.exists_cons (h : Writes w v) :
    ∃ c cs, w = c :: cs ∧ isSpace c = false ∧ c ∉ [']', '\ufeff'] := by
  have hatom : ∀ v, (w, v) ∈ words ∨ IsNumber w → ∃ c cs, w = c :: cs ∧ isSpace c = false ∧
      c ∉ [']', '\ufeff'] := by
    intro v h
    obtain ⟨c, cs, rfl, hspace, hc⟩ := exists_cons_of_atom h
    exact ⟨c, cs, rfl, hspace, fun hmem => hc (by simp_all)⟩
  cases h with
  | word h => exact hatom _ (.inl h)
  | number h => exact hatom .null (.inr h)
  | string h =>
    obtain ⟨body, ps, -, -, rfl⟩ := h
    exact ⟨_, _, rfl, by decide⟩
  | array h => cases h <;> exact ⟨_, _, rfl, by decide⟩
  | object h => cases h <;> exact ⟨_, _, rfl, by decide⟩

/-! ### One step of the reader -/

/-- A word or a number is read as one. -/
theorem value_atom (hw : ∀ c ∈ cs.head?, c ∉ ['"', '[', ']', '\x7b', '\ufeff']) :
    value room (n + 1) cs = atom cs := by
  rw [value.eq_def]
  dsimp only
  split
  · exact absurd (hw _ rfl) (by decide)
  · exact absurd (hw _ rfl) (by decide)
  · exact absurd (hw _ rfl) (by decide)
  · rfl

/-- A quote begins a string. -/
theorem value_string (cs : List Char) : value room (n + 1) ('"' :: cs) =
    (string cs).bind fun (s, after) => .ok (.string s, after) := by
  rw [value]
  rfl

/-- An object has members, unless its end comes first. -/
theorem value_brace (hroom : room ≠ 0) (hcs : ∀ c ∈ (skip cs).head?, c ≠ '\x7d') :
    value room (n + 1) ('\x7b' :: cs) =
      (members (room - 1) n (skip cs)).bind fun (ms, after) =>
        .ok (.object (Entries.ofPairs ms), after) := by
  rw [value, if_neg hroom]
  split
  · next heq =>
    rw [heq] at hcs
    exact absurd rfl (hcs _ rfl)
  · rfl

/-- A bracket begins items, unless the array ends at once or there is no room for it. -/
theorem value_bracket (hroom : room ≠ 0) (hcs : ∀ c ∈ (skip cs).head?, c ≠ ']') :
    value room (n + 1) ('[' :: cs) =
      (items (room - 1) n (skip cs)).bind fun (vs, after) => .ok (.array vs, after) := by
  rw [value, if_neg hroom]
  split
  · next heq =>
    rw [heq] at hcs
    exact absurd rfl (hcs _ rfl)
  · rfl

/-- Items are read one by one. -/
theorem items_succ (cs : List Char) : items room (n + 1) cs =
    (value room n cs).bind fun (v, rest) =>
      match skip rest with
      | ']' :: after => .ok ([v], after)
      | ',' :: rest => (items room n (skip rest)).bind fun (vs, after) => .ok (v :: vs, after)
      | rest => fail .comma rest := by
  rw [items]
  rfl

/-- How members go on after one of them. -/
def afterMember (room n : Nat) (key : String) (v : JsonValue) (rest : List Char) :
    Except Stop (List (String × JsonValue) × List Char) :=
  match skip rest with
  | '\x7d' :: after => .ok ([(key, v)], after)
  | ',' :: rest => (members room n (skip rest)).bind fun (ms, after) => .ok ((key, v) :: ms, after)
  | rest => fail .comma rest

/-- So are members. -/
theorem members_succ (cs : List Char) : members room (n + 1) ('"' :: cs) =
    (string cs).bind fun (key, rest) =>
      match skip rest with
      | ':' :: rest =>
        (value room n (skip rest)).bind fun (v, rest) => afterMember room n key v rest
      | rest => fail .colon rest := by
  rw [members]
  rfl

/-- Members begin with a quote. -/
theorem fail_or_quote (room n : Nat) (cs : List Char) :
    members room (n + 1) cs = fail .propertyName cs ∨ ∃ ds, cs = '"' :: ds := by
  rw [members.eq_def]
  dsimp only
  split
  · exact .inr ⟨_, rfl⟩
  · exact .inl rfl

/-! ### What is written is read -/

/-- Space is skipped up to a given character. -/
theorem skip_cons {a : List Char} {c : Char} (ha : IsBlank a) (hc : isSpace c = false) :
    skip (a ++ c :: rest) = c :: rest :=
  skip_append ha (by rintro _ ⟨⟩; exact hc)

/-- It is skipped up to a value. -/
theorem skip_value {a : List Char} (ha : IsBlank a) (h : Writes w v) :
    skip (a ++ (w ++ rest)) = w ++ rest := by
  obtain ⟨c, cs, rfl, hc, -⟩ := h.exists_cons
  exact skip_cons ha hc

/-- It is skipped up to a string. -/
theorem skip_string {a : List Char} {s : String} (ha : IsBlank a) (h : WritesString w s) :
    skip (a ++ (w ++ rest)) = w ++ rest := by
  obtain ⟨body, ps, -, -, rfl⟩ := h
  exact skip_cons ha rfl

/-- Where one part of the reader stops, the whole does. -/
theorem Stops.bind {α β : Type} {x : Except Stop α} {f : α → Except Stop β} (h : Stops x) :
    Stops (x.bind f) := by
  obtain ⟨stop, rfl, hstop⟩ := h
  exact ⟨stop, rfl, hstop⟩

/-- Where one part of the reader gets to something, and the next part from there, both do. -/
theorem Reaches.bind {α β : Type} {x : Except Stop (α × List Char)}
    {f : α × List Char → Except Stop (β × List Char)} {a : α} {b : β} {rest rest' : List Char}
    (hx : Reaches x a rest) (hf : Reaches (f (a, rest)) b rest') : Reaches (x.bind f) b rest' := by
  obtain rfl | hstops := hx
  · exact hf
  · exact .inr hstops.bind

/-- What is given at once is reached. -/
theorem Reaches.ok {α : Type} (a : α) (rest : List Char) :
    Reaches (.ok (a, rest)) a rest := .inl rfl

/-- Values and keys do not begin like the ends of arrays and objects. -/
theorem head?_skip_value {a : List Char} (ha : IsBlank a) (h : Writes w v) :
    ∀ c ∈ (skip (a ++ (w ++ rest))).head?, c ≠ ']' := by
  rw [skip_value ha h]
  obtain ⟨c, cs, rfl, -, hc⟩ := h.exists_cons
  rintro _ ⟨⟩ rfl
  exact hc List.mem_cons_self

/-- Keys do not begin like the end of an object. -/
theorem head?_skip_string {a : List Char} {s : String} (ha : IsBlank a) (h : WritesString w s) :
    ∀ c ∈ (skip (a ++ (w ++ rest))).head?, c ≠ '\x7d' := by
  rw [skip_string ha h]
  obtain ⟨body, ps, -, -, rfl⟩ := h
  rintro _ ⟨⟩
  decide

/-- Nor do items and members. -/
theorem head?_skip_items {vs : List JsonValue} (h : WritesItems cs vs) :
    ∀ c ∈ (skip (cs ++ rest)).head?, c ≠ ']' := by
  cases h with
  | last ha hw =>
    rw [List.append_assoc, List.append_assoc]
    exact head?_skip_value ha hw
  | cons ha hw =>
    rw [List.append_assoc, List.append_assoc]
    exact head?_skip_value ha hw

/-- So members do not. -/
theorem head?_skip_members {ms : List (String × JsonValue)} (h : WritesMembers cs ms) :
    ∀ c ∈ (skip (cs ++ rest)).head?, c ≠ '\x7d' := by
  cases h with
  | last ha hk =>
    rw [List.append_assoc, List.append_assoc]
    exact head?_skip_string ha hk
  | cons ha hk =>
    rw [List.append_assoc, List.append_assoc]
    exact head?_skip_string ha hk

/-- A word or a number is read. -/
theorem reaches_atom (h : (w, v) ∈ words ∨ IsNumber w ∧ v = .number (String.ofList w))
    (hr : EndsNumber rest) : Reaches (value room (n + 1) (w ++ rest)) v rest := by
  obtain ⟨c, cs, hw, -, hc⟩ := exists_cons_of_atom (v := v) (h.imp id And.left)
  have hhead : ∀ c ∈ (w ++ rest).head?, c ∉ ['"', '[', ']', '\x7b', '\ufeff'] := by
    rw [hw]
    rintro _ ⟨⟩
    exact hc
  rw [value_atom hhead]
  obtain h | ⟨h, rfl⟩ := h
  · exact .inl (atom_word h)
  · exact atom_number h hr

/-- What writes a value has some characters. -/
theorem Writes.length_pos (h : Writes w v) : 0 < w.length := by
  obtain ⟨c, cs, rfl, -⟩ := h.exists_cons
  exact Nat.succ_pos _

/-- A member is read up to its value. -/
theorem members_append {k b : List Char} {key : String} (hk : WritesString k key)
    (hb : IsBlank b) (rest : List Char) :
    members room (n + 1) (k ++ (b ++ ':' :: rest)) =
      (value room n (skip rest)).bind fun (v, rest) => afterMember room n key v rest := by
  obtain ⟨body, ps, hps, rfl, rfl⟩ := hk
  rw [List.cons_append, members_succ, string_append ⟨body, ps, hps, rfl, rfl⟩]
  change (match skip (b ++ ':' :: rest) with
    | ':' :: rest => _
    | rest => _) = _
  rw [skip_cons hb rfl]
  rfl

mutual

/-- **A value is read** up to what ends it, in twice as many steps as it has characters. -/
theorem reaches_value : ∀ {w : List Char} {v : JsonValue}, Writes w v →
    ∀ {n : Nat} (room : Nat) {rest : List Char}, 2 * w.length ≤ n + 1 → EndsNumber rest →
      Reaches (value room (n + 1) (w ++ rest)) v rest
  | _, _, .word h, _, _, _, _, hr => reaches_atom (.inl h) hr
  | _, _, .number h, _, _, _, _, hr => reaches_atom (.inr ⟨h, rfl⟩) hr
  | _, _, .string h, _, _, rest, _, _ => by
    obtain ⟨body, ps, hps, rfl, rfl⟩ := h
    rw [List.cons_append, value_string, string_append ⟨body, ps, hps, rfl, rfl⟩ rest]
    exact .ok _ _
  | _, _, .array h, _, room, _, hn, _ => reaches_array h room hn
  | _, _, .object h, _, room, _, hn, _ => reaches_object h room hn

/-- The reader gets to an array that is written. -/
theorem reaches_array : ∀ {w : List Char} {vs : List JsonValue}, WritesArray w vs →
    ∀ {n : Nat} (room : Nat) {rest : List Char}, 2 * w.length ≤ n + 1 →
      Reaches (value room (n + 1) (w ++ rest)) (.array vs) rest
  | _, _, .empty hcs, _, room, rest, _ => by
    rw [List.cons_append, List.append_assoc]
    by_cases hroom : room = 0
    · rw [value, if_pos hroom]
      exact .inr ⟨_, rfl, rfl⟩
    · rw [value, if_neg hroom, List.singleton_append, skip_cons hcs rfl]
      exact .ok _ _
  | _, _, .items h, n, room, rest, hn => by
    rw [List.cons_append, List.append_assoc]
    by_cases hroom : room = 0
    · rw [value, if_pos hroom]
      exact .inr ⟨_, rfl, rfl⟩
    · rw [value_bracket hroom (head?_skip_items h)]
      refine Reaches.bind (reaches_items h (room - 1) ?_) (.ok _ _)
      simp only [List.length_cons, List.length_append] at hn
      omega

/-- It gets to items that are written, up to the end of their array. -/
theorem reaches_items : ∀ {cs : List Char} {vs : List JsonValue}, WritesItems cs vs →
    ∀ {n : Nat} (room : Nat) {rest : List Char}, 2 * cs.length < n →
      Reaches (items room n (skip (cs ++ ']' :: rest))) vs rest
  | _, _, .last ha hw hb, n, room, rest, hn => by
    have hpos := hw.length_pos
    simp only [List.length_append] at hn
    -- No value is written with no characters, so there is fuel for two steps at least.
    obtain ⟨n, rfl⟩ : ∃ k, n = k + 2 := ⟨n - 2, by omega⟩
    rw [List.append_assoc, List.append_assoc, skip_value ha hw, items_succ]
    refine Reaches.bind
      (reaches_value hw room (by omega) (.append hb (endsNumber_cons (by simp)))) ?_
    dsimp only
    rw [skip_cons hb rfl]
    exact .ok _ _
  | _, _, .cons ha hw hb hcs, n, room, rest, hn => by
    have hpos := hw.length_pos
    simp only [List.length_append, List.length_cons] at hn
    obtain ⟨n, rfl⟩ : ∃ k, n = k + 2 := ⟨n - 2, by omega⟩
    rw [List.append_assoc, List.append_assoc, List.append_assoc, skip_value ha hw, items_succ]
    refine Reaches.bind
      (reaches_value hw room (by omega) (.append hb (endsNumber_cons (by simp)))) ?_
    dsimp only
    rw [List.cons_append, skip_cons hb rfl]
    exact Reaches.bind (reaches_items hcs room (by omega)) (.ok _ _)

/-- It gets to an object that is written. -/
theorem reaches_object : ∀ {w : List Char} {ms : List (String × JsonValue)}, WritesObject w ms →
    ∀ {n : Nat} (room : Nat) {rest : List Char}, 2 * w.length ≤ n + 1 →
      Reaches (value room (n + 1) (w ++ rest)) (.object (Entries.ofPairs ms)) rest
  | _, _, .empty hcs, _, room, rest, _ => by
    rw [List.cons_append, List.append_assoc]
    by_cases hroom : room = 0
    · rw [value, if_pos hroom]
      exact .inr ⟨_, rfl, rfl⟩
    · rw [value, if_neg hroom, List.singleton_append, skip_cons hcs rfl]
      exact .ok _ _
  | _, _, .members h, n, room, rest, hn => by
    rw [List.cons_append, List.append_assoc]
    by_cases hroom : room = 0
    · rw [value, if_pos hroom]
      exact .inr ⟨_, rfl, rfl⟩
    · rw [value_brace hroom (head?_skip_members h)]
      refine Reaches.bind (reaches_members h (room - 1) ?_) (.ok _ _)
      simp only [List.length_cons, List.length_append] at hn
      omega

/-- It gets to members that are written, up to the end of their object. -/
theorem reaches_members : ∀ {cs : List Char} {ms : List (String × JsonValue)},
    WritesMembers cs ms → ∀ {n : Nat} (room : Nat) {rest : List Char}, 2 * cs.length < n →
      Reaches (members room n (skip (cs ++ '\x7d' :: rest))) ms rest
  | _, _, .last ha hk hb hc hw hd, n, room, rest, hn => by
    have hpos := hw.length_pos
    simp only [List.length_append, List.length_cons] at hn
    obtain ⟨n, rfl⟩ : ∃ k, n = k + 2 := ⟨n - 2, by omega⟩
    simp only [List.append_assoc, List.cons_append]
    rw [skip_string ha hk, members_append hk hb, skip_value hc hw]
    refine Reaches.bind
      (reaches_value hw room (by omega) (.append hd (endsNumber_cons (by simp)))) ?_
    dsimp only
    rw [afterMember, skip_cons hd rfl]
    exact .ok _ _
  | _, _, .cons ha hk hb hc hw hd hcs, n, room, rest, hn => by
    have hpos := hw.length_pos
    simp only [List.length_append, List.length_cons] at hn
    obtain ⟨n, rfl⟩ : ∃ k, n = k + 2 := ⟨n - 2, by omega⟩
    simp only [List.append_assoc, List.cons_append]
    rw [skip_string ha hk, members_append hk hb, skip_value hc hw]
    refine Reaches.bind
      (reaches_value hw room (by omega) (.append hd (endsNumber_cons (by simp)))) ?_
    dsimp only
    rw [afterMember, skip_cons hd rfl]
    exact Reaches.bind (reaches_members hcs room (by omega)) (.ok _ _)

end

/-! ### What is read is written -/

/-- Space after space is space. -/
theorem IsBlank.append {a b : List Char} (ha : IsBlank a) (hb : IsBlank b) : IsBlank (a ++ b) :=
  fun c hc => (List.mem_append.1 hc).elim (ha c) (hb c)

/-- Items and members may have space before them. -/
theorem WritesItems.append {a : List Char} {vs : List JsonValue} (ha : IsBlank a)
    (h : WritesItems cs vs) : WritesItems (a ++ cs) vs := by
  cases h with
  | last hb hw hc =>
    rw [← List.append_assoc]
    exact .last (ha.append hb) hw hc
  | cons hb hw hc hcs =>
    rw [← List.append_assoc]
    exact .cons (ha.append hb) hw hc hcs

/-- Members may have space before them, too. -/
theorem WritesMembers.append {a : List Char} {ms : List (String × JsonValue)} (ha : IsBlank a)
    (h : WritesMembers cs ms) : WritesMembers (a ++ cs) ms := by
  cases h with
  | last hb hk hc hd hw he =>
    rw [← List.append_assoc]
    exact .last (ha.append hb) hk hc hd hw he
  | cons hb hk hc hd hw he hcs =>
    rw [← List.append_assoc]
    exact .cons (ha.append hb) hk hc hd hw he hcs

/-- What is skipped before a character is space. -/
theorem exists_of_skip_cons {c : Char} {after : List Char} (h : skip cs = c :: after) :
    ∃ a, IsBlank a ∧ cs = a ++ c :: after := by
  obtain ⟨⟨a, ha, hcs⟩, -⟩ := exists_of_skip cs
  exact ⟨a, ha, h ▸ hcs⟩

mutual

/-- **What is read as a value writes it.** -/
theorem writes_of_value : ∀ {n room : Nat} {cs : List Char} {v : JsonValue} {rest : List Char},
    value room n cs = .ok (v, rest) → ∃ w, Writes w v ∧ cs = w ++ rest
  | 0, _, _, _, _, h => by cases h
  | n + 1, room, cs, v, rest, h => by
    -- The cases are those of the first character.
    unfold value at h
    split at h
    · next cs =>
      obtain ⟨⟨s, after⟩, hs, heq⟩ := bind_eq_ok_iff.1 h
      obtain ⟨rfl, rfl⟩ := Prod.mk.inj (Except.ok.inj heq)
      obtain ⟨w, hw, rfl⟩ := writesString_of_string hs
      exact ⟨_, .string hw, rfl⟩
    · next cs =>
      split at h
      · cases h
      · split at h
        · next hend =>
          obtain ⟨rfl, rfl⟩ := Prod.mk.inj (Except.ok.inj h)
          obtain ⟨a, ha, rfl⟩ := exists_of_skip_cons hend
          exact ⟨_, .object (.empty ha), by simp⟩
        · obtain ⟨⟨ms, after⟩, hms, heq⟩ := bind_eq_ok_iff.1 h
          obtain ⟨rfl, rfl⟩ := Prod.mk.inj (Except.ok.inj heq)
          obtain ⟨w, hw, hcs⟩ := writesMembers_of_members hms
          obtain ⟨⟨a, ha, hskip⟩, -⟩ := exists_of_skip cs
          refine ⟨_, .object (.members (hw.append ha)), ?_⟩
          rw [hskip, hcs]
          simp
    · next cs =>
      split at h
      · cases h
      · split at h
        · next hend =>
          obtain ⟨rfl, rfl⟩ := Prod.mk.inj (Except.ok.inj h)
          obtain ⟨a, ha, rfl⟩ := exists_of_skip_cons hend
          exact ⟨_, .array (.empty ha), by simp⟩
        · obtain ⟨⟨vs, after⟩, hvs, heq⟩ := bind_eq_ok_iff.1 h
          obtain ⟨rfl, rfl⟩ := Prod.mk.inj (Except.ok.inj heq)
          obtain ⟨w, hw, hcs⟩ := writesItems_of_items hvs
          obtain ⟨⟨a, ha, hskip⟩, -⟩ := exists_of_skip cs
          refine ⟨_, .array (.items (hw.append ha)), ?_⟩
          rw [hskip, hcs]
          simp
    · exact writes_of_atom h

/-- What is read as items writes them, up to the end of their array. -/
theorem writesItems_of_items : ∀ {n room : Nat} {cs : List Char} {vs : List JsonValue}
    {rest : List Char}, items room n cs = .ok (vs, rest) →
      ∃ w, WritesItems w vs ∧ cs = w ++ ']' :: rest
  | 0, _, _, _, _, h => by cases h
  | n + 1, room, cs, vs, rest, h => by
    rw [items_succ] at h
    obtain ⟨⟨v, more⟩, hv, hmore⟩ := bind_eq_ok_iff.1 h
    obtain ⟨w, hw, rfl⟩ := writes_of_value hv
    dsimp only at hmore
    split at hmore
    · next hend =>
      obtain ⟨rfl, rfl⟩ := Prod.mk.inj (Except.ok.inj hmore)
      obtain ⟨b, hb, rfl⟩ := exists_of_skip_cons hend
      exact ⟨_, .last isBlank_nil hw hb, by simp⟩
    · next tail hcomma =>
      obtain ⟨⟨vs, after⟩, hvs, heq⟩ := bind_eq_ok_iff.1 hmore
      obtain ⟨rfl, rfl⟩ := Prod.mk.inj (Except.ok.inj heq)
      obtain ⟨b, hb, rfl⟩ := exists_of_skip_cons hcomma
      obtain ⟨w', hw', hcs⟩ := writesItems_of_items hvs
      -- The blanks before the next item are counted to it.
      obtain ⟨⟨a, ha, hskip⟩, -⟩ := exists_of_skip tail
      refine ⟨_, .cons isBlank_nil hw hb (hw'.append ha), ?_⟩
      rw [hskip, hcs]
      simp
    · cases hmore

/-- What is read as members writes them, up to the end of their object. -/
theorem writesMembers_of_members : ∀ {n room : Nat} {cs : List Char}
    {ms : List (String × JsonValue)} {rest : List Char}, members room n cs = .ok (ms, rest) →
      ∃ w, WritesMembers w ms ∧ cs = w ++ '\x7d' :: rest
  | 0, _, _, _, _, h => by cases h
  | n + 1, room, cs, ms, rest, h => by
    obtain hfail | ⟨ds, rfl⟩ := fail_or_quote room n cs
    · rw [hfail] at h
      cases h
    rw [members_succ] at h
    obtain ⟨⟨key, more⟩, hkey, hcolon⟩ := bind_eq_ok_iff.1 h
    obtain ⟨k, hk, rfl⟩ := writesString_of_string hkey
    dsimp only at hcolon
    split at hcolon
    · next hskip =>
      obtain ⟨b, hb, rfl⟩ := exists_of_skip_cons hskip
      obtain ⟨⟨v, more⟩, hv, hmore⟩ := bind_eq_ok_iff.1 hcolon
      obtain ⟨w, hw, hcs⟩ := writes_of_value hv
      obtain ⟨⟨c, hc, hskip⟩, -⟩ := exists_of_skip _
      rw [hcs] at hskip
      subst hskip
      dsimp only [afterMember] at hmore
      -- The object ends after the member, or goes on after a comma.
      split at hmore
      · next hend =>
        obtain ⟨rfl, rfl⟩ := Prod.mk.inj (Except.ok.inj hmore)
        obtain ⟨d, hd, rfl⟩ := exists_of_skip_cons hend
        exact ⟨_, .last isBlank_nil hk hb hc hw hd, by simp⟩
      · next tail hcomma =>
        obtain ⟨⟨ms, after⟩, hms, heq⟩ := bind_eq_ok_iff.1 hmore
        obtain ⟨rfl, rfl⟩ := Prod.mk.inj (Except.ok.inj heq)
        obtain ⟨d, hd, rfl⟩ := exists_of_skip_cons hcomma
        obtain ⟨w', hw', hcs'⟩ := writesMembers_of_members hms
        obtain ⟨⟨a, ha, hskip'⟩, -⟩ := exists_of_skip tail
        refine ⟨_, .cons isBlank_nil hk hb hc hw hd (hw'.append ha), ?_⟩
        rw [hskip', hcs']
        simp
      · cases hmore
    · cases hcolon

end

/-! ### Whole texts -/

/-- A text with a value in it does not begin with a byte order mark. -/
theorem head?_ne_mark {a : List Char} {c : Char} (ha : IsBlank a) (hc : c ∉ [']', '\ufeff']) :
    ((a ++ c :: cs).head? == some '\ufeff') = false := by
  cases a with
  | nil =>
    refine beq_false_of_ne fun heq => hc ?_
    rw [Option.some.inj heq]
    decide
  | cons d a =>
    refine beq_false_of_ne fun heq => ?_
    have hd : isSpace d = true := ha d List.mem_cons_self
    rw [Option.some.inj heq] at hd
    cases hd

/-- A whole text that holds an object holds it as a value, with what it says last of each key. -/
theorem HoldsObject.holds {text : List Char} {ms : List (String × JsonValue)}
    (h : HoldsObject text ms) : Holds text (.object (Entries.ofPairs ms)) := by
  obtain ⟨a, w, b, ha, hw, hb, rfl⟩ := h
  exact ⟨a, w, b, ha, .object hw, hb, rfl⟩

/-- What holds an object as a value holds some members as they stand. -/
theorem Holds.exists_members {text : List Char} {es : List (String × JsonValue)}
    (h : Holds text (.object es)) : ∃ ms, HoldsObject text ms ∧ es = Entries.ofPairs ms := by
  obtain ⟨a, w, b, ha, hw, hb, rfl⟩ := h
  cases hw with
  | word hw =>
    have hwords : ∀ w ∈ words, w.2.members? = none := by decide
    cases hwords _ hw
  | object hw => exact ⟨_, ⟨a, w, b, ha, hw, hb, rfl⟩, rfl⟩

end Json

namespace JsonValue

open Json

variable {text : List Char} {v : JsonValue}

/-- **What a text holds is read**, unless the reader stops at a limit. -/
theorem read_of_holds (h : Holds text v) :
    read text = .ok v ∨ ∃ e, read text = .error e ∧ e.fault.isLimit = true := by
  obtain ⟨a, w, b, ha, hw, hb, rfl⟩ := h
  have hmark : ((a ++ (w ++ b)).head? == some '\ufeff') = false := by
    obtain ⟨c, cs, rfl, -, hc⟩ := hw.exists_cons
    exact head?_ne_mark ha hc
  have hsteps : 2 * w.length ≤ 2 * (a ++ (w ++ b)).length + 1 + 1 := by
    rw [List.length_append, List.length_append]
    omega
  have hend : EndsNumber (b ++ []) := .append hb endsNumber_nil
  have hblank : skip (b ++ []) = [] := skip_append hb (by simp)
  rw [List.append_nil] at hend hblank
  rw [read, hmark, skip_value ha hw]
  obtain hv | ⟨stop, hv, hstop⟩ := reaches_value hw depthLimit hsteps hend
  · rw [hv, if_neg Bool.false_ne_true]
    dsimp only
    rw [hblank]
    exact .inl rfl
  · rw [hv]
    exact .inr ⟨_, rfl, hstop⟩

/-- **What is read a text holds.** -/
theorem holds_of_read (h : read text = .ok v) : Holds text v := by
  unfold read at h
  dsimp only at h
  split at h
  · cases h
  · split at h
    · cases h
    · next v' rest hv =>
      split at h
      · next hrest =>
        obtain rfl := Except.ok.inj h
        obtain ⟨⟨a, ha, htext⟩, -⟩ := exists_of_skip text
        obtain ⟨⟨b, hb, hskip⟩, -⟩ := exists_of_skip rest
        obtain ⟨w, hw, hcs⟩ := writes_of_value hv
        refine ⟨a, w, b, ha, hw, hb, ?_⟩
        rw [htext, hcs, hskip, hrest, List.append_nil]
      · cases h

end JsonValue

end QueryAssist
