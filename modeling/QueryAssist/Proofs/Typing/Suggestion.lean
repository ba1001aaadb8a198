import QueryAssist.Proofs.Typing.Names

/-! # Typing a suggestion

Who types one of the suggestions, character by character, still sees it, and of the others those
that go on alike. Main definitions:

* **`EndsApart`** — a document after which a name is read on its own.
* **`endToken`** — the token at the end of a document.

Main statement: `complete_append`, the suggestions after the first characters of one of them. -/

namespace QueryAssist

open Chain

/-! ### What was typed -/

/-- A text without blanks has none to strip. -/
theorem strip_eq_self {cs : List Char} (h : ∀ c ∈ cs, isBlank c = false) : strip cs = cs := by
  have hdrop : ∀ {ds : List Char}, (∀ c ∈ ds, isBlank c = false) → ds.dropWhile isBlank = ds := by
    intro ds hds
    cases ds with
    | nil => rfl
    | cons d ds => rw [List.dropWhile_cons_of_neg (by simp [hds d List.mem_cons_self])]
  rw [strip, hdrop h, stripEnd, hdrop fun c hc => h c (List.mem_reverse.1 hc), List.reverse_reverse]

namespace IsName

variable {p : List Char}

/-- What holds of the ASCII characters that a name can have holds of all its characters. -/
theorem of_mem {q : Char → Prop}
    (hq : ∀ n < 128, Lexer.isNameChar (Char.ofNat n) = true → q (Char.ofNat n)) (h : IsName p)
    {c : Char} (hc : c ∈ p) : q c := by
  obtain ⟨d, ds, rfl⟩ := List.exists_cons_of_ne_nil (List.ne_nil_of_mem hc)
  obtain ⟨hd, hds⟩ := isName_cons.1 h
  have hchar : Lexer.isNameChar c = true := by
    rcases List.mem_cons.1 hc with rfl | hc
    · exact of_isNameStart (q := fun c => Lexer.isNameChar c = true) (by decide) hd
    · exact hds c hc
  have := hq c.toNat (Token.IsWhole.toNat_lt_of_isNameChar hchar)
  rw [Char.ofNat_toNat] at this
  exact this hchar

/-- No character of a name is blank. -/
theorem not_isBlank (h : IsName p) : ∀ c ∈ p, isBlank c = false :=
  fun _ hc => h.of_mem (q := fun c => isBlank c = false) (by decide) hc

/-- A name stays on one line. -/
theorem newline_notMem (h : IsName p) : '\n' ∉ p := fun hn => by
  cases h.not_isBlank '\n' hn

/-- Names are texts that suggestions are filtered by. -/
theorem isFilterable (h : IsName p) : isFilterable p = true := by
  obtain ⟨c, cs, rfl⟩ : ∃ c cs, p = c :: cs := by
    refine List.exists_cons_of_ne_nil ?_
    rintro rfl
    exact not_isName_nil h
  refine List.any_eq_true.2 ⟨c, List.mem_cons_self, ?_⟩
  exact h.of_mem (q := fun c => isWord c = true) (by decide) List.mem_cons_self

end IsName

/-! ### What is suggested at a position -/

/-- The suggestions at a position are its **candidates**, narrowed, unless a fault shows. -/
theorem complete_eq_ok_iff {s : Schema} {q : List Char} {c : Cursor} {t : PlacedToken}
    {o : Position} {ss : List Suggestion} (hloc : c.locate q = t)
    (ho : Position.ofChain? t.chain.valid = some o) :
    complete s q c = .ok ss ↔ (TypeContext.ofLinks s t.chain.links).fault = none ∧
      ∃ cs, candidates s q t.chain.valid (TypeContext.ofLinks s t.chain.links) o = .ok cs ∧
        ss = narrow (c.typed t.row t.start t.text) cs := by
  rw [complete_eq_offers, hloc, offers_of_position ho]
  cases (TypeContext.ofLinks s t.chain.links).fault with
  | some f => simp [Except.map]
  | none =>
    cases candidates s q t.chain.valid (TypeContext.ofLinks s t.chain.links) o with
    | error f => simp [Except.map]
    | ok cs => simp [Except.map, eq_comm]

/-- A fault in the members of an enum shows where its literals are asked for. -/
theorem Candidates.literals_of_faulty {s : Schema} {r : Option TypeRef} {f : MemberFault}
    (h : s.enumMembers? r = some (.faulty f)) : literals s r = .error (.members f) := by
  unfold Schema.enumMembers? at h
  unfold literals
  cases ht : s.baseType? r with
  | none => simp [ht] at h
  | some t =>
    rw [ht] at h
    simp only [Option.map_some] at h ⊢
    split at h
    · next members hb =>
      obtain rfl := Option.some.inj h
      simp only [Option.some.inj hb]
      rfl
    · cases h

/-- Where there are literals the members of the enum are known. -/
theorem Candidates.enumMembers?_ne_faulty {s : Schema} {r : Option TypeRef} {cs : List Suggestion}
    (h : literals s r = .ok cs) (f : MemberFault) : s.enumMembers? r ≠ some (.faulty f) := by
  intro hf
  rw [literals_of_faulty hf] at h
  cases h

/-! ### A name at the end of a document -/

/-- At the name of a spread no name is taken. -/
theorem not_atSpread_of_takes {c : Chain} {o : Position} {n : String}
    (ho : Position.ofChain? c.valid = some o) (ht : o.Takes n) : ¬AtSpread c := by
  intro hs
  obtain rfl := Option.some.inj (ho.symm.trans hs)
  exact ht

/-- A document **ends apart** if its last line ends with a token after which a name is read on its
own: ignored text or punctuation. -/
def EndsApart (q : List Char) : Prop :=
  ∃ t, (Scan.tokens q).getLast? = some t ∧ t.row + 1 = (splitLines q).length ∧ t.EndsWord

/-- The token **at the end** of a document. -/
abbrev endToken (q : List Char) : PlacedToken := (Cursor.atEnd q).locate q

namespace EndsApart

variable {q p : List Char} {o : Position}

/-- The token at the end is the last one of the last line. -/
theorem exists_line (h : EndsApart q) : ∃ ls l, splitLines q = ls ++ [l] ∧
    (Scan.lineTokens ls.length (.ofLine l)
      (Scan.chainAfter .start (Scan.tokensFrom 0 .start ls))).getLast? = some (endToken q) ∧
    (endToken q).EndsWord := by
  obtain ⟨t, ht, hrow, hw⟩ := h
  obtain ⟨ls, l, hl⟩ : ∃ ls l, splitLines q = ls ++ [l] :=
    ⟨_, _, (List.dropLast_concat_getLast (splitLines_ne_nil q)).symm⟩
  rw [hl, List.length_append] at hrow
  have hlast := Scan.getLast?_lineTokens_of_row hl ht (Nat.succ.inj hrow)
  have hloc : endToken q = t := Cursor.locate_atEnd_eq hl hlast
  rw [← hloc] at hlast hw
  exact ⟨ls, l, hl, hlast, hw⟩

/-- The scan is **at rest** at the end, and nothing that is typed narrows. -/
theorem rests (h : EndsApart q) :
    RestsAt (endToken q).chain.settle (endToken q).chain ∧ Rests (endToken q).chain [] ∧
      isFilterable (endToken q).text.toList = false := by
  obtain ⟨ls, l, hl, hlast, hw⟩ := h.exists_line
  obtain ⟨-, hrest, hword⟩ :=
    Scan.exists_lastPiece (Scan.isRegular_chainAfter_tokensFrom isRegular_start) hlast hw
  have hr : Rests (Scan.chainAfter .start (Scan.tokensFrom 0 .start ls)) [] :=
    Scan.rests_chainAfter_tokensFrom (rests_start [])
  have hr' : Rests (Scan.chainAfter _ (Scan.lineTokens ls.length (.ofLine l) _)) [] :=
    Scan.rests_chainAfter_lineTokens (hr.of_nil l)
  rw [Scan.chainAfter, hlast] at hr'
  exact ⟨hrest, hr', List.any_eq_false.2 fun c hc => by simp [hword c hc]⟩

/-- **A name that is added** is read from the chain at the end, and is what was typed. -/
theorem locate_append (h : EndsApart q) (hp : IsName p) (hs : ¬AtSpread (endToken q).chain) :
    (endToken (q ++ p)).chain = (endToken q).chain.afterName (String.ofList p) ∧
      (Cursor.atEnd (q ++ p)).typed (endToken (q ++ p)).row (endToken (q ++ p)).start
        (endToken (q ++ p)).text = p := by
  obtain ⟨ls, l, hl, hlast, hw⟩ := h.exists_line
  have hregular : (Scan.chainAfter .start (Scan.tokensFrom 0 .start ls)).IsRegular :=
    Scan.isRegular_chainAfter_tokensFrom isRegular_start
  obtain ⟨hbound, -, -⟩ := Scan.exists_lastPiece hregular hlast hw
  obtain hsp | ⟨u, hu, hstart, htext, hchain⟩ := Scan.exists_append (r := .ofLine (l ++ p)) hbound
    hp rfl rfl rfl hregular hlast
  · exact absurd hsp hs
  have hl' := splitLines_append_of_notMem hl hp.newline_notMem
  have hloc : endToken (q ++ p) = u := Cursor.locate_atEnd_eq hl' hu
  have hrow : u.row = ls.length := (Scan.row_of_mem_lineTokens (List.mem_of_getLast? hu)).1
  refine ⟨hloc ▸ hchain, ?_⟩
  -- The cursor is as far behind the start of the name as the name is long.
  have hcol : (Cursor.atEnd (q ++ p)).column = ((l.length + p.length : Nat) : Int) := by
    simp [Cursor.atEnd, hl']
  have htake : ((Cursor.atEnd (q ++ p)).column - (u.start : Int)).toNat = p.length := by
    rw [hcol, hstart, Stream.position_ofLine, Stream.rest_ofLine]
    omega
  rw [hloc, Cursor.typed, if_pos (by simp [Cursor.atEnd, hl', hrow]), htake, htext,
    String.toList_ofList, List.take_length, strip_eq_self hp.not_isBlank]

/-- The chain at the end without an invalid token is **settled**. -/
theorem valid_eq (h : EndsApart q) : (endToken q).chain.valid = (endToken q).chain.settle := by
  obtain ⟨hrest, hr, -⟩ := h.rests
  obtain ⟨k, r, hl⟩ := hr.regular.settle.toIsOpen.isLive_top
  exact hrest.valid_eq fun hk => by simpa [Link.isOutside, hk] using hl.isOutside_eq_false

/-- What is settled at the end **stands at the position** there. -/
theorem settle (h : EndsApart q) (ho : Position.ofChain? (endToken q).chain.valid = some o) :
    (endToken q).chain.settle.IsSettled ∧ (endToken q).chain.settle.top.IsEntered ∧
      ¬(endToken q).chain.settle.top.AwaitsColon ∧
      Position.ofChain? (endToken q).chain.settle = some o := by
  obtain ⟨-, hr, -⟩ := h.rests
  exact ⟨hr.regular.settle, hr.entered, hr.not_awaitsColon, h.valid_eq ▸ ho⟩

/-- It **keeps the place**, if the position there takes it. -/
theorem keeps (h : EndsApart q) (hp : IsName p)
    (ho : Position.ofChain? (endToken q).chain.valid = some o) (ht : o.Takes (String.ofList p))
    (s : Schema) : Keeps s o (endToken q).chain.settle (endToken (q ++ p)).chain := by
  obtain ⟨hd, he, hc, ho'⟩ := h.settle ho
  rw [(h.locate_append hp (not_atSpread_of_takes ho ht)).1, afterName_congr hd.settle_eq.symm]
  exact keeps_afterName hd he hc ho' (by simpa using hp) ht s

end EndsApart

/-! ### The suggestions -/

/-- The first characters of a candidate are a **name that its position takes**. -/
theorem takes_of_isPrefix {s : Schema} (hs : s.IsNamed) {q p : List Char} {c : Chain}
    {ctx : TypeContext} (h : ctx.IsNamed s) {o : Position} {cs : List Suggestion}
    (hcs : candidates s q c ctx o = .ok cs) {x : Suggestion} (hx : x ∈ cs) (hp : p ≠ [])
    (hpx : p <+: x.text.toList)
    (hkind : o ∈ [.field, .argument, .objectField, .inputValue, .typeCondition, .variableType] ∧
        String.ofList p ∉ ["true", "false", "null"] ∨
      o = .definitionKeyword ∧ p ≠ x.text.toList) :
    IsName p ∧ o.Takes (String.ofList p) := by
  obtain ⟨hmem, hlit⟩ | ⟨rfl, hne⟩ := hkind
  · have htakes : o.Takes (String.ofList p) := by
      cases o with
      | inputValue => exact hlit
      | definitionKeyword | fragmentSpread | directive => simp at hmem
      | _ => trivial
    have hname := isName_of_mem_candidates hs h htakes (by rintro rfl; simp at hmem) hcs hx
    exact ⟨hname.of_isPrefix hpx hp, htakes⟩
  · obtain rfl := Except.ok.inj hcs
    exact Candidates.definitionOf?_of_isPrefix hx hp hpx hne

/-- **Typing a suggestion keeps it on offer.** In a schema whose names are names of the language, at
the end of a document that ends apart, the first characters of a suggestion leave exactly those
suggestions that begin with them. -/
theorem complete_append {s : Schema} (hs : s.IsNamed) {q p : List Char} (hq : EndsApart q)
    {o : Position} (ho : Position.ofChain? (endToken q).chain.valid = some o)
    {ss : List Suggestion} (hss : complete s q (Cursor.atEnd q) = .ok ss)
    {x : Suggestion} (hx : x ∈ ss) (hp : p ≠ []) (hpx : p <+: x.text.toList)
    (hkind : o ∈ [.field, .argument, .objectField, .inputValue, .typeCondition, .variableType] ∧
        String.ofList p ∉ ["true", "false", "null"] ∨
      o = .definitionKeyword ∧ p ≠ x.text.toList) :
    complete s (q ++ p) (Cursor.atEnd (q ++ p)) =
        .ok (ss.filter fun y => p.isPrefixOf y.text.toList) ∧
      x ∈ ss.filter fun y => p.isPrefixOf y.text.toList := by
  refine ⟨?_, List.mem_filter.2 ⟨hx, List.isPrefixOf_iff_prefix.2 hpx⟩⟩
  obtain ⟨hrest, -, hfilter⟩ := hq.rests
  obtain ⟨hfault, cs, hcs, hnarrow⟩ := (complete_eq_ok_iff rfl ho).1 hss
  rw [narrow_of_not_isFilterable (isFilterable_typed hfilter ..)] at hnarrow
  subst hnarrow
  obtain ⟨hname, htakes⟩ :=
    takes_of_isPrefix hs (TypeContext.isNamed_ofLinks hs _) hcs hx hp hpx hkind
  have hk := hq.keeps hname ho htakes s
  rw [context_of_restsAt s hrest] at hcs hfault
  -- The same position and the same context offer the same, and the prefix narrows it.
  refine (complete_eq_ok_iff rfl hk.position).2 ⟨(hk.fault ?_).trans hfault, ss, ?_, ?_⟩
  · rintro rfl f
    exact Candidates.enumMembers?_ne_faulty hcs f
  · exact (candidates_congr s _ _ _ _ hk.agree).symm.trans hcs
  · rw [(hq.locate_append hname (not_atSpread_of_takes ho htakes)).2, narrow,
      if_pos hname.isFilterable]

/-- Behind a field with its arguments the next field is typed. Of all fields two go on with the
letter that is typed. -/
theorem complete_append_field :
    ∃ (s : Schema) (q : List Char) (ss : List Suggestion), q = "\x7b user(id: 1) ".toList ∧
      s.IsNamed ∧ EndsApart q ∧
      Position.ofChain? (endToken q).chain.valid = some .field ∧
      (endToken q).chain.top.kind = some .field ∧
      complete s q (Cursor.atEnd q) = .ok ss ∧
      ss.map (·.text) = ["me", "user", "users", "__schema", "__type"] ∧
      complete s (q ++ ['u']) (Cursor.atEnd (q ++ ['u'])) = .ok [
        { text := "user", type := some (.named "User") },
        { text := "users", type := some (.list (.named "User")) }] := by
  let s : Schema := {
    query := some "Query",
    types := [{ name := "Query", body := .object [] [
      { name := "me", type := .named "User" },
      { name := "user", type := .named "User", args := [{ name := "id", type := .named "ID" }] },
      { name := "users", type := .list (.named "User") }] }] }
  have hs : s.IsNamed := by decide +kernel
  have hq : EndsApart "\x7b user(id: 1) ".toList :=
    ⟨(Scan.tokens "\x7b user(id: 1) ".toList).getLast (by decide +kernel),
      List.getLast?_eq_some_getLast _, by decide +kernel, .inl (by decide +kernel)⟩
  have ho : Position.ofChain? (endToken "\x7b user(id: 1) ".toList).chain.valid = some .field := by
    decide +kernel
  have hss : complete s "\x7b user(id: 1) ".toList (Cursor.atEnd "\x7b user(id: 1) ".toList) =
      .ok (Candidates.fields s s.types.head?) := by decide +kernel
  exact ⟨s, _, _, rfl, hs, hq, ho, by decide +kernel, hss, by decide +kernel,
    (complete_append hs hq ho hss (x := { text := "user", type := some (.named "User") })
      (by decide) (List.cons_ne_nil _ _) (by decide) (.inl (by decide))).1⟩

end QueryAssist
