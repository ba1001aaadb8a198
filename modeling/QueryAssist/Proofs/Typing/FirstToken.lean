import QueryAssist.Proofs.Typing.EmptyLine
import QueryAssist.Proofs.Typing.Resolving

/-! # Cursors in the first token of a line

At a cursor in the first token of a line what is offered is what is offered after that token,
narrowed by the part of it before the cursor. Where the token leaves what was open in its place,
these are the suggestions after that part alone, whatever stands to the right of the cursor.
Main definitions:

* **`spacedAt`** — the document up to a cursor, with a space before the row of the cursor.
* **`Chain.afterFirst`** — what the first piece of a line makes of a chain.
* **`Chain.StaysFor`** — whether the first piece of a line leaves a chain in its place.

Main statement: `complete_spacedAt`, the suggestions at such a cursor are those after the text
before it. -/

namespace QueryAssist

open Grammar

namespace Lexer

variable {cs : List Char} {t : Token} {m : Nat}

/-! ### First pieces -/

/-- A piece is a gap where ignored characters are next, and all of them. -/
theorem piece_eq_gap (h : (piece cs).1 = .gap) :
    (piece cs).2 = (cs.takeWhile isIgnored).length := by
  unfold piece at h ⊢
  split at h
  · next hg => rw [hg]
  · split at h <;> cases h

/-- Ignored characters before a piece are a gap of their own. -/
theorem takeWhile_of_piece_ne_gap (h : (piece cs).1 ≠ .gap) : cs.takeWhile isIgnored = [] := by
  cases hg : cs.takeWhile isIgnored with
  | nil => rfl
  | cons c r => exact absurd (congrArg Prod.fst (piece_of_takeWhile hg)) h

/-- It is a token where one is next. -/
theorem lex?_of_piece (h : (piece cs).1 = .token t) :
    lex? cs = some t ∧ (piece cs).2 = t.text.length := by
  have hg : cs.takeWhile isIgnored = [] := takeWhile_of_piece_ne_gap (by rw [h]; nofun)
  cases hl : lex? cs with
  | none =>
    rw [piece_of_lex?_eq_none hg hl] at h
    cases h
  | some u =>
    rw [piece_of_lex? hg hl] at h ⊢
    obtain rfl := Piece.token.inj h
    exact ⟨rfl, rfl⟩

/-- And it is unknown elsewhere. -/
theorem lex?_of_piece_unknown (h : (piece cs).1 = .unknown) : lex? cs = none := by
  have hg : cs.takeWhile isIgnored = [] := takeWhile_of_piece_ne_gap (by rw [h]; nofun)
  cases hl : lex? cs with
  | none => rfl
  | some u =>
    rw [piece_of_lex? hg hl] at h
    cases h

/-- A front of a gap is ignored. -/
theorem isIgnored_of_mem_take (h : (piece cs).1 = .gap) (hm : m ≤ (piece cs).2) :
    ∀ c ∈ cs.take m, isIgnored c = true := by
  rw [piece_eq_gap h] at hm
  intro c hc
  have hpre : cs.take m <+: cs.takeWhile isIgnored :=
    List.prefix_of_prefix_length_le (List.take_prefix m cs) (List.takeWhile_prefix _)
      ((List.length_take_le m cs).trans hm)
  exact List.mem_takeWhile_imp (hpre.subset hc)

/-- A front of a text that begins with no ignored character begins with none either. -/
theorem takeWhile_take_eq_nil (h : cs.takeWhile isIgnored = []) (m : Nat) :
    (cs.take m).takeWhile isIgnored = [] := by
  rw [← List.take_append_drop m cs] at h
  exact (takeWhile_of_append (h ▸ Nat.zero_le _)).symm.trans h

/-- A front that is shorter than the first piece has the length that was asked for. -/
theorem length_take_of_lt_piece (hm : m < (piece cs).2) (hcs : cs ≠ []) :
    (cs.take m).length = m :=
  List.length_take_of_le (hm.le.trans (piece_length_le hcs))

theorem take_ne_nil_of_lt_piece (hm : m < (piece cs).2) (h0 : m ≠ 0) (hcs : cs ≠ []) :
    cs.take m ≠ [] := fun he => h0 ((length_take_of_lt_piece hm hcs).symm.trans (congrArg _ he))

/-- A front of what is no token is no token either, and one piece. -/
theorem piece_take_skipped (h : ∀ t, (piece cs).1 ≠ .token t) (hm : m < (piece cs).2) (h0 : m ≠ 0)
    (hcs : cs ≠ []) : piece (cs.take m) = ((piece cs).1, m) := by
  have hlen := length_take_of_lt_piece hm hcs
  have hne := take_ne_nil_of_lt_piece hm h0 hcs
  -- Any front of a gap is a gap, and of what is no token a shorter run of the same kind.
  cases hp : (piece cs).1 with
  | gap =>
    have hg : (cs.take m).takeWhile isIgnored = cs.take m :=
      List.takeWhile_eq_self_iff.2 (isIgnored_of_mem_take hp hm.le)
    obtain ⟨c, r, hcr⟩ := List.exists_cons_of_ne_nil hne
    rw [piece_of_takeWhile (hg.trans hcr), ← hcr, hlen]
  | unknown =>
    have hg : cs.takeWhile isIgnored = [] := takeWhile_of_piece_ne_gap (by rw [hp]; nofun)
    have hl := lex?_of_piece_unknown hp
    have hl' : lex? (cs.take m) = none := by
      rw [← List.take_append_drop m cs] at hl
      exact lex?_eq_none_of_append hl
    rw [piece_of_lex?_eq_none hg hl] at hm
    rw [piece_of_lex?_eq_none (takeWhile_take_eq_nil hg m) hl']
    cases hr : nonBlankRun cs with
    | none =>
      rw [hr] at hm
      exact absurd (Nat.lt_one_iff.1 hm) h0
    | some u =>
      rw [hr] at hm
      rw [← List.take_append_drop m cs] at hr
      rw [nonBlankRun_of_lt hne hr (hlen.symm ▸ hm), Option.map_some, Option.getD_some, hlen]
  | token t => exact absurd hp (h t)

/-- A front of a token that the pattern of its kind takes whole is a token of that kind. -/
theorem piece_take_token (h : (piece cs).1 = .token t) (hm : (cs.take m).length = m)
    (hp : pattern t.kind (cs.take m) = some (cs.take m)) :
    piece (cs.take m) = (.token ⟨t.kind, String.ofList (cs.take m)⟩, m) := by
  have hg : cs.takeWhile isIgnored = [] := takeWhile_of_piece_ne_gap (by rw [h]; nofun)
  have hl := (lex?_of_piece h).1
  rw [← List.take_append_drop m cs] at hl
  rw [piece_of_lex? (takeWhile_take_eq_nil hg m) (lex?_of_pattern hl hp)]
  simp [hm]

/-- A front of a comment is a comment. -/
theorem piece_take_comment (h : (piece cs).1 = .token t) (ht : t.kind = .comment)
    (hm : m < (piece cs).2) (h0 : m ≠ 0) (hcs : cs ≠ []) :
    piece (cs.take m) = (.token ⟨t.kind, String.ofList (cs.take m)⟩, m) := by
  have hlen := length_take_of_lt_piece hm hcs
  obtain ⟨hl, hn⟩ := lex?_of_piece h
  have hpat := pattern_of_lex? hl
  rw [ht, ← List.take_append_drop m cs] at hpat
  refine piece_take_token h hlen ?_
  rw [ht]
  refine comment?_of_lt (take_ne_nil_of_lt_piece hm h0 hcs) hpat ?_
  rw [hlen, String.length_toList, ← hn]
  exact hm

/-- A word is a name. -/
theorem isName_of_piece {n : String} (h : (piece cs).1 = .token (.word n)) : IsName n.toList := by
  have hpat : name? cs = some n.toList := pattern_of_lex? (lex?_of_piece h).1
  cases cs with
  | nil => cases hpat
  | cons c cs =>
    simp only [name?] at hpat
    split at hpat
    · next hc =>
      rw [← Option.some.inj hpat]
      exact isName_cons.2 ⟨hc, fun d hd => List.mem_takeWhile_imp hd⟩
    · cases hpat

/-- So is a front of it. -/
theorem isName_take {n : String} (h : (piece cs).1 = .token (.word n)) (hm : m < (piece cs).2)
    (h0 : m ≠ 0) (hcs : cs ≠ []) : IsName (cs.take m) := by
  obtain ⟨hl, hn⟩ := lex?_of_piece h
  have hpre : cs.take m <+: n.toList :=
    List.prefix_of_prefix_length_le (List.take_prefix m cs) (prefix_of_lex? hl) (by
      rw [length_take_of_lt_piece hm hcs, String.length_toList]
      exact hm.le.trans_eq hn)
  exact (isName_of_piece h).of_isPrefix hpre (take_ne_nil_of_lt_piece hm h0 hcs)

end Lexer

namespace Chain

open TypeContext

variable {c d e : Chain} {s : Schema} {o : Position} {n : String} {a : List Char} {x : Piece}

/-! ### What a first token leaves in place -/

/-- What keeps a place offers the same, unless it is that of a literal, where a new fault may
show. -/
theorem Keeps.offers_eq (h : Keeps s o d e) (hd : Position.ofChain? d.valid = some o)
    (hv : o ≠ .inputValue) (q p : List Char) : e.offers s q = d.offers s p := by
  have hagree : (ofLinks s e.links).AgreeAt (ofLinks s d.links) o := by
    have := h.agree
    cases o <;> first | exact this.symm | exact this.elim | trivial
  rw [offers_of_position h.position, offers_of_position hd, h.fault fun hi => absurd hi hv,
    candidates_congr s q p e.valid d.valid hagree]

/-- **A name** that the position takes **leaves what is offered there**, whatever is ahead of it. -/
theorem IsSettled.offers_afterName (hd : d.IsSettled) (he : d.top.IsEntered)
    (hc : ¬d.top.AwaitsColon) (ho : Position.ofChain? d = some o) (hname : IsName n.toList)
    (hn : o.Takes n) (s : Schema) (q p : List Char) :
    (d.afterName n).offers s q = d.offers s p := by
  have hvalid : Position.ofChain? d.valid = some o := by rwa [hd.isPlaced.valid_eq]
  by_cases hv : o = .inputValue
  · subst hv
    obtain ⟨hpos, hctx⟩ := afterName_value hd he hc ho hn s
    rw [offers_of_position hpos, offers_of_position hvalid, hctx]
    exact literals_enterEnumValue s (ofLinks s d.links) (some n)
  · exact (keeps_afterName hd he hc ho hname hn s).offers_eq hvalid hv q p

/-- What is ahead of a name changes nothing of what is offered, as far as no fragment is spread. -/
theorem IsRegular.offers_react_word (h : c.IsRegular) (hn : n ≠ "...")
    (hs : ¬AtSpread (c.afterName n)) (s : Schema) (a q p : List Char) :
    (react standard c (.token (.word n)) a).2.offers s q = (c.afterName n).offers s p := by
  obtain heq | ⟨e, r, r', he, hnames, -, hr, hr', hacc, ha, hb⟩ := react_ahead h (.word n) a []
  · rw [heq]
    exact offers_eq_of_not_atSpread hs s q p
  -- What is ahead can only tell an alias from a field.
  · have hdots : (Token.word n).text ≠ "..." := hn
    have hfield : ∀ b, selectionOf (.word n) b = .field ∨ selectionOf (.word n) b = .aliasedField :=
      fun b => by
        rw [selectionOf_ne_dots hdots]
        split
        · exact .inr rfl
        · exact .inl rfl
    have hfirst : firstOfSelection (.word n) = .name "property" :=
      if_neg (mt beq_iff_eq.1 hdots)
    rw [hfirst] at hacc ha hb
    rw [ha, show c.afterName n = _ from hb]
    exact (inField_accept he (hnames a) (hfield a) hr hacc).offers_eq
      (inField_accept he (hnames []) (hfield []) hr' hacc) s q p

/-- In a directive those are offered that its owner can have. -/
theorem offers_directive {l : Link} (hl : l.kind = some .directive) (ls : List Link) (s : Schema)
    (q : List Char) : Chain.offers s q ⟨l, ls⟩ = match (ofLinks s ls).fault with
      | some f => .error f
      | none => .ok (Candidates.directives s ls) := by
  have hvalid : Chain.valid ⟨l, ls⟩ = ⟨l, ls⟩ := if_neg (by simp [hl])
  have hpos : Position.ofChain? ⟨l, ls⟩ = some .directive := by simp [Position.ofChain?, hl]
  have hfault : (ofLinks s (l :: ls)).fault = (ofLinks s ls).fault := by
    rw [ofLinks_cons hl]
    exact fault_enter s (by decide) l _ _
  rw [offers_of_position (by rw [hvalid, hpos]), hvalid, links_mk, hfault]
  rfl

/-- Behind its mark a directive takes **any name**. -/
theorem IsSettled.react_directive (hd : d.IsSettled) (hk : d.top.kind = some .directive)
    (hi : d.top.step = 1) (a : List Char) : (react standard d (.token (.word n)) a).2 =
      ⟨{ d.top with name := some n, needsAdvance := true }, d.outer⟩ := by
  obtain ⟨k, r, hl⟩ := hd.isLive_top
  obtain rfl := Option.some.inj (hl.kind.symm.trans hk)
  obtain rfl := Option.some.inj hl.standard
  have ha : Admits (.word n) a d (.name "meta") :=
    ⟨by rw [hl.rule]; rfl, by rw [hl.wanted?_eq (by rw [hi]; rfl) rfl]; rfl, rfl⟩
  have hm := match?_eq_accepted_of_falls .refl ha (hd.toIsOpen.match?_budget_ne_exhausted _ a)
  rw [react, if_neg (by rintro ⟨⟩), hd.settle_eq, hm]
  rfl

/-- The name of a directive leaves what is offered there. -/
theorem IsSettled.offers_react_directive (hd : d.IsSettled) (hk : d.top.kind = some .directive)
    (hi : d.top.step = 1) (s : Schema) (a q p : List Char) :
    (react standard d (.token (.word n)) a).2.offers s q = d.offers s p := by
  rw [hd.react_directive hk hi]
  refine (offers_directive ?_ d.outer s q).trans (offers_directive hk d.outer s p).symm
  exact hk

end Chain

/-! ### Lines that begin with a token -/

namespace Chain

variable {e : Chain} {l : List Char} {column : Nat} {n : String} {o : Position}

/-- What the **first piece** of a line makes of a chain. -/
def afterFirst (e : Chain) (l : List Char) : Chain :=
  if l = [] then e
  else (react standard e (Lexer.piece l).1 (l.drop (Lexer.piece l).2)).2

@[simp] theorem afterFirst_nil (e : Chain) : e.afterFirst [] = e := if_pos rfl

/-- A line that is not empty has a first piece, and the chain reacts to it. -/
theorem afterFirst_eq (hl : l ≠ []) (e : Chain) :
    e.afterFirst l = (react standard e (Lexer.piece l).1 (l.drop (Lexer.piece l).2)).2 := if_neg hl

/-- Ignored characters leave a chain as it is. -/
theorem IsSettled.afterFirst_gap (he : e.IsSettled) (h : (Lexer.piece l).1 = .gap) :
    e.afterFirst l = e := by
  unfold afterFirst
  split
  · rfl
  · rw [h]
    exact he.settle_eq

/-- Without a token first a line leaves a chain at rest. -/
theorem IsSettled.restsAt_afterFirst (he : e.IsSettled) (h : ∀ t, (Lexer.piece l).1 ≠ .token t) :
    RestsAt e (e.afterFirst l) := by
  by_cases hl : l = []
  · rw [hl]
    exact .inl rfl
  · have := restsAt_react h e (l.drop (Lexer.piece l).2)
    rwa [he.settle_eq, ← afterFirst_eq hl] at this

/-- In a comment nothing can be suggested. -/
theorem position_afterFirst_comment {t : Token} (h : (Lexer.piece l).1 = .token t)
    (ht : t.kind = .comment) (hl : l ≠ []) (e : Chain) :
    Position.ofChain? (e.afterFirst l).valid = none := by
  rw [afterFirst_eq hl, h, react, if_pos ht]
  rfl

/-- A name that the position takes leaves what is offered there. -/
theorem IsSettled.offers_afterFirst (he : e.IsSettled) (hent : e.top.IsEntered)
    (hcolon : ¬e.top.AwaitsColon) (ho : Position.ofChain? e = some o)
    (h : (Lexer.piece l).1 = .token (.word n)) (hn : o.Takes n) (hl : l ≠ []) (s : Schema)
    (q p : List Char) : (e.afterFirst l).offers s q = e.offers s p := by
  have hname := Lexer.isName_of_piece h
  have hdots : n ≠ "..." := hname.ne (by decide)
  have hpos := (keeps_afterName he hent hcolon ho hname hn s).position
  have hreg : e.IsRegular := .inside he.isPlaced
  rw [afterFirst_eq hl, h,
    hreg.offers_react_word hdots (not_atSpread_of_takes hpos hn) s _ q p]
  exact he.offers_afterName hent hcolon ho hname hn s p p

/-- The first piece of a line **stays** where a chain is, up to a column of it, if it and its part
before the column leave what can be suggested there. -/
inductive StaysFor (e : Chain) (l : List Char) (column : Nat) : Prop where
  /-- Ignored characters and text that is no token. -/
  | skipped (h : ∀ t, (Lexer.piece l).1 ≠ .token t)
  /-- A comment with the column in it. -/
  | comment {t : Token} (h : (Lexer.piece l).1 = .token t) (ht : t.kind = .comment)
    (h0 : column ≠ 0)
  /-- A name that the position takes, as it takes its part. -/
  | word {n : String} {o : Position} (h : (Lexer.piece l).1 = .token (.word n))
    (ho : Position.ofChain? e = some o) (hn : o.Takes n)
    (hpart : column ≠ 0 → o.Takes (String.ofList (l.take column)))
  /-- The name of a directive. -/
  | directive {n : String} (h : (Lexer.piece l).1 = .token (.word n))
    (hk : e.top.kind = some .directive) (hi : e.top.step = 1)
  /-- A token that does not fit, and neither does its part. -/
  | misfit (hfront : column ≠ 0 → (Lexer.piece (l.take column)).2 = column)
    (h : RestsAt e (e.afterFirst l)) (hpart : RestsAt e (e.afterFirst (l.take column)))
  /-- A token where nothing can be suggested, neither in it nor in its part. -/
  | nowhere (hfront : column ≠ 0 → (Lexer.piece (l.take column)).2 = column)
    (h : Position.ofChain? (e.afterFirst l).valid = none)
    (hpart : Position.ofChain? (e.afterFirst (l.take column)).valid = none)

namespace StaysFor

/-- What is before the column is one piece. -/
theorem piece_take (h : e.StaysFor l column) (hl : l ≠ []) (hcol : column < (Lexer.piece l).2)
    (h0 : column ≠ 0) : (Lexer.piece (l.take column)).2 = column := by
  have hname : ∀ {n}, (Lexer.piece l).1 = .token (.word n) →
      (Lexer.piece (l.take column)).2 = column := fun hp => by
    rw [(Lexer.isName_take hp hcol h0 hl).piece_eq]
    exact Lexer.length_take_of_lt_piece hcol hl
  cases h with
  | skipped h => rw [Lexer.piece_take_skipped h hcol h0 hl]
  | comment h ht => rw [Lexer.piece_take_comment h ht hcol h0 hl]
  | word h | directive h => exact hname h
  | misfit hfront | nowhere hfront => exact hfront h0

/-- What is offered stays the same. -/
theorem offers_eq (h : e.StaysFor l column) (he : e.IsSettled) (hent : e.top.IsEntered)
    (hcolon : ¬e.top.AwaitsColon) (hl : l ≠ []) (hcol : column < (Lexer.piece l).2)
    (hs : ¬AtSpread (e.afterFirst (l.take column))) (s : Schema) (q p : List Char) :
    (e.afterFirst l).offers s q = (e.afterFirst (l.take column)).offers s p := by
  have hne : column ≠ 0 → l.take column ≠ [] := fun h0 =>
    Lexer.take_ne_nil_of_lt_piece hcol h0 hl
  have hrest : RestsAt e (e.afterFirst l) → RestsAt e (e.afterFirst (l.take column)) →
      (e.afterFirst l).offers s q = (e.afterFirst (l.take column)).offers s p := fun h h' => by
    rw [h.offers_eq he, h'.offers_eq he]
    refine offers_eq_of_not_atSpread (fun hat => hs ?_) s q p
    rwa [AtSpread, h'.valid_eq he.isPlaced.kind_ne_invalid, ← he.isPlaced.valid_eq]
  -- The cases are the ways in which a place can stay the same.
  cases h with
  | skipped h =>
    refine hrest (he.restsAt_afterFirst h) ?_
    by_cases h0 : column = 0
    · rw [h0, List.take_zero, afterFirst_nil]
      exact .inl rfl
    · refine he.restsAt_afterFirst fun t => ?_
      rw [Lexer.piece_take_skipped h hcol h0 hl]
      exact h t
  | @comment t h ht h0 =>
    have hpart := congrArg Prod.fst (Lexer.piece_take_comment h ht hcol h0 hl)
    rw [offers_of_position_none (position_afterFirst_comment h ht hl e),
      offers_of_position_none (position_afterFirst_comment hpart ht (hne h0) e)]
  | @word n o h ho hn htake =>
    rw [he.offers_afterFirst hent hcolon ho h hn hl s q p]
    by_cases h0 : column = 0
    · rw [h0, List.take_zero, afterFirst_nil]
    · have hpart := congrArg Prod.fst (Lexer.isName_take h hcol h0 hl).piece_eq
      exact (he.offers_afterFirst hent hcolon ho hpart (htake h0) (hne h0) s p p).symm
  | @directive n h hk hi =>
    rw [afterFirst_eq hl, h, he.offers_react_directive hk hi s _ q p]
    by_cases h0 : column = 0
    · rw [h0, List.take_zero, afterFirst_nil]
    · rw [afterFirst_eq (hne h0), (Lexer.isName_take h hcol h0 hl).piece_eq]
      exact (he.offers_react_directive hk hi s _ p p).symm
  | misfit hfront h h' => exact hrest h h'
  | nowhere hfront h h' => rw [offers_of_position_none h, offers_of_position_none h']

end StaysFor

end Chain

/-! ### The text before a cursor -/

/-- The document **up to a cursor**, with a space before the row of the cursor. -/
def spacedAt (document : List Char) (row column : Nat) : List Char :=
  joinLines ((splitLines document).take row ++
    [' ' :: ((splitLines document)[row]?.getD []).take column])

/-- The text up to a cursor has the lines before its row, and a last one with a space before it. -/
theorem splitLines_spacedAt {document : List Char} {ls ms : List (List Char)} {l : List Char}
    (h : splitLines document = ls ++ l :: ms) (column : Nat) :
    splitLines (spacedAt document ls.length column) = ls ++ [' ' :: l.take column] := by
  have heq : spacedAt document ls.length column = joinLines (ls ++ [' ' :: l.take column]) := by
    simp [spacedAt, h]
  have hbreak : ∀ m ∈ splitLines document, '\n' ∉ m := fun m hm => notMem_of_mem_splitLines hm
  rw [heq]
  refine splitLines_joinLines (by simp) fun m hm hn => ?_
  rw [List.mem_append, List.mem_singleton] at hm
  obtain hm | rfl := hm
  · exact hbreak m (by simp [h, hm]) hn
  · rcases List.mem_cons.1 hn with hn | hn
    · exact absurd hn (by decide)
    · exact hbreak l (by simp [h]) (List.mem_of_mem_take hn)

namespace Lexer

/-- A space belongs to the gap that it stands before. -/
theorem piece_space (v : List Char) :
    piece (' ' :: v) = (.gap, (v.takeWhile isIgnored).length + 1) :=
  piece_of_takeWhile (List.takeWhile_cons_of_pos (by decide))

/-- A gap narrows nothing. -/
theorem isFilterable_of_gap {v : List Char} (h : (piece v).1 = .gap)
    (hn : (piece v).2 = v.length) : isFilterable v = false := by
  have hword := isWord_of_isBoundary (v := v) (by rw [h]; rfl)
  rw [hn, List.take_length] at hword
  rw [isFilterable, List.any_eq_false]
  exact fun c hc => Bool.eq_false_iff.1 (hword c hc)

end Lexer

namespace Scan

open Chain

variable {row column : Nat} {c : Chain} {l v : List Char}

/-- The chain with which a row is read. -/
def chainBefore (document : List Char) (row : Nat) : Chain :=
  (chainAfter .start (tokensFrom 0 .start ((splitLines document).take row))).settle

/-- The first token of a line. -/
theorem exists_lineTokens_afterFirst (row : Nat) (hc : c.IsRegular) {s : Stream}
    (hs : s.rest ≠ []) : ∃ style, lineTokens row s c =
      place (s.take (Lexer.piece s.rest).2) (c.settle.afterFirst s.rest) style row ::
        lineTokens row (s.take (Lexer.piece s.rest).2) (c.settle.afterFirst s.rest) := by
  obtain ⟨style, -, hline⟩ := exists_lineTokens_eq row hc hs
  have hreact : ∀ x a, react standard c.settle x a = react standard c x a :=
    react_congr hc.settle.settle_eq
  exact ⟨style, by rw [hline, afterFirst_eq hs, hreact]⟩

/-- What ends with the last piece of a line is the last token. -/
theorem exists_lineTokens_last (row : Nat) (hc : c.IsRegular) {s : Stream} (hs : s.rest ≠ [])
    (hn : (Lexer.piece s.rest).2 = s.rest.length) : ∃ style, lineTokens row s c =
      [place (s.take s.rest.length) (c.settle.afterFirst s.rest) style row] := by
  obtain ⟨style, hline⟩ := exists_lineTokens_afterFirst row hc hs
  refine ⟨style, ?_⟩
  rw [hline, hn, lineTokens, dif_pos]
  rw [Stream.rest_take, List.drop_length]

/-- A line of ignored characters is one token, which narrows nothing. -/
theorem exists_getLast?_gap (row : Nat) (hc : c.IsRegular) (hv : v ≠ [])
    (hgap : (Lexer.piece v).1 = .gap) (hn : (Lexer.piece v).2 = v.length) :
    ∃ t, (lineTokens row (.ofLine v) c).getLast? = some t ∧ t.row = row ∧ t.chain = c.settle ∧
      isFilterable t.text.toList = false := by
  obtain ⟨style, hline⟩ := exists_lineTokens_last row hc (s := .ofLine v) hv hn
  refine ⟨_, by rw [hline]; rfl, rfl, hc.settle.afterFirst_gap hgap, ?_⟩
  have htext : (place ((Stream.ofLine v).take v.length) (c.settle.afterFirst v) style
      row).text.toList = v := by
    simp [place, Stream.current]
  exact (congrArg _ htext).trans (Lexer.isFilterable_of_gap hgap hn)

/-- A space and another piece after it are two tokens. -/
theorem exists_getLast?_piece (row : Nat) (hc : c.IsRegular) (hv : v ≠ [])
    (hgap : (Lexer.piece v).1 ≠ .gap) (hn : (Lexer.piece v).2 = v.length) :
    ∃ t, (lineTokens row (.ofLine (' ' :: v)) c).getLast? = some t ∧ t.row = row ∧
      t.chain = c.settle.afterFirst v ∧ t.start = 1 ∧ t.text = String.ofList v := by
  have hspace : (Lexer.piece (' ' :: v)).1 = .gap := by rw [Lexer.piece_space]
  have hreg : c.settle.IsRegular := .inside hc.settle.isPlaced
  obtain ⟨style, hline⟩ := exists_lineTokens_afterFirst row hc (s := .ofLine (' ' :: v)) (by simp)
  obtain ⟨style', hlast⟩ := exists_lineTokens_last row hreg
    (s := (Stream.ofLine (' ' :: v)).take 1) hv hn
  rw [Stream.rest_ofLine, hc.settle.afterFirst_gap hspace, Lexer.piece_space,
    Lexer.takeWhile_of_piece_ne_gap hgap] at hline
  refine ⟨_, by rw [hline]; exact congrArg _ (congrArg _ hlast), rfl, ?_, rfl, ?_⟩
  · change c.settle.settle.afterFirst v = _
    rw [hc.settle.settle_eq]
  · simp [place, Stream.current]

/-- A space and one piece after it end a line with that piece, or with ignored characters only. -/
theorem exists_getLast?_spaced (row : Nat) (hc : c.IsRegular)
    (hv : v ≠ [] → (Lexer.piece v).2 = v.length) :
    ∃ t, (lineTokens row (.ofLine (' ' :: v)) c).getLast? = some t ∧ t.row = row ∧
      t.chain = c.settle.afterFirst v ∧
      ((isFilterable t.text.toList = false ∧ isFilterable v = false) ∨
        (t.start = 1 ∧ t.text = String.ofList v)) := by
  have hgap : ∀ w, (Lexer.piece (' ' :: w)).1 = .gap := fun w => by rw [Lexer.piece_space]
  by_cases hnil : v = []
  · subst hnil
    obtain ⟨t, ht, hrow, hchain, htext⟩ := exists_getLast?_gap row hc (by simp) (hgap []) rfl
    exact ⟨t, ht, hrow, hchain, .inl ⟨htext, rfl⟩⟩
  · by_cases hg : (Lexer.piece v).1 = .gap
    · have hn : (Lexer.piece (' ' :: v)).2 = (' ' :: v).length := by
        rw [Lexer.piece_space, ← Lexer.piece_eq_gap hg, hv hnil]
        rfl
      obtain ⟨t, ht, hrow, hchain, htext⟩ := exists_getLast?_gap row hc (by simp) (hgap v) hn
      exact ⟨t, ht, hrow, hchain.trans (hc.settle.afterFirst_gap hg).symm,
        .inl ⟨htext, Lexer.isFilterable_of_gap hg (hv hnil)⟩⟩
    · obtain ⟨t, ht, hrow, hchain, hlast⟩ := exists_getLast?_piece row hc hnil hg (hv hnil)
      exact ⟨t, ht, hrow, hchain, .inr hlast⟩

variable {document : List Char} {ls ms : List (List Char)}

/-- The chain before a row is the one after the lines above it. -/
theorem chainBefore_eq (hl : splitLines document = ls ++ ms) :
    chainBefore document ls.length = (chainAfter .start (tokensFrom 0 .start ls)).settle := by
  rw [chainBefore, hl, List.take_left' rfl]

/-- The first token of a line stops where the first piece ends. -/
theorem stop_place_first (hl : l ≠ []) (d : Chain) (style : String) (row : Nat) :
    (place ((Stream.ofLine l).take (Lexer.piece l).2) d style row).stop = (Lexer.piece l).2 := by
  change ((Stream.ofLine l).take _).position = _
  rw [Stream.position_take, Stream.position_ofLine, Nat.zero_add]
  exact min_eq_left (Lexer.piece_length_le hl)

/-- A row with a token is not empty, and its first piece ends where the token does. -/
theorem piece_of_find? (hl : splitLines document = ls ++ l :: ms) {t : PlacedToken}
    (ht : (tokens document).find? (·.row == ls.length) = some t) :
    l ≠ [] ∧ t.stop = (Lexer.piece l).2 := by
  have hc : (chainAfter .start (tokensFrom 0 .start ls)).IsRegular :=
    isRegular_chainAfter_tokensFrom isRegular_start
  have hfirst := filter_row_tokens hl
  rw [← List.head?_filter, hfirst] at ht
  have hne : l ≠ [] := by
    rintro rfl
    rw [lineTokens_empty] at ht
    cases ht
  obtain ⟨style, hline⟩ := exists_lineTokens_afterFirst ls.length hc (s := .ofLine l) hne
  rw [hline] at ht
  obtain rfl := Option.some.inj ht
  exact ⟨hne, stop_place_first hne ..⟩

/-- At a cursor in the first token of a row the chain is the one after it. -/
theorem locate_first (hl : splitLines document = ls ++ l :: ms) (hne : l ≠ [])
    (hcol : column < (Lexer.piece l).2) :
    ∃ style, Cursor.locate ⟨ls.length, column⟩ document =
      place ((Stream.ofLine l).take (Lexer.piece l).2)
        ((chainBefore document ls.length).afterFirst l) style ls.length := by
  have hc : (chainAfter .start (tokensFrom 0 .start ls)).IsRegular :=
    isRegular_chainAfter_tokensFrom isRegular_start
  have hpair := pairwise_lineTokens ls.length (.ofLine l)
    (chainAfter .start (tokensFrom 0 .start ls))
  obtain ⟨style, hline⟩ := exists_lineTokens_afterFirst ls.length hc (s := .ofLine l) hne
  refine ⟨style, ?_⟩
  rw [Cursor.locate_row hl, tokenAt_eq hl, chainBefore_eq hl]
  rw [Stream.rest_ofLine] at hline
  rw [hline] at hpair ⊢
  -- No token of the row ends before the cursor.
  dsimp only
  rw [List.filter_eq_nil_iff.2]
  · rfl
  · intro t ht
    rw [decide_eq_true_eq]
    have hstop := stop_place_first hne
      ((chainAfter .start (tokensFrom 0 .start ls)).settle.afterFirst l) style ls.length
    obtain rfl | ht := List.mem_cons.1 ht
    · omega
    · have := List.rel_of_pairwise_cons hpair ht
      omega

end Scan

open Chain

/-- The cursor at the end of the text before a cursor. -/
theorem atEnd_spacedAt {document : List Char} {ls ms : List (List Char)} {l : List Char}
    (hl : splitLines document = ls ++ l :: ms) {column : Nat} (hcol : column ≤ l.length) :
    Cursor.atEnd (spacedAt document ls.length column) = ⟨ls.length, column + 1⟩ := by
  simp [Cursor.atEnd, splitLines_spacedAt hl, List.length_take_of_le hcol]

/-- What is typed of a token on the row of a cursor is what stands before the cursor. -/
theorem Cursor.typed_eq (row start column : Nat) (text : List Char) :
    Cursor.typed ⟨row, (column + start : Nat)⟩ row start (String.ofList text) =
      strip (text.take column) := by
  have hcol : (((column + start : Nat) : Int) - start).toNat = column := by omega
  rw [Cursor.typed, if_pos rfl, String.toList_ofList, hcol]

section Spaced

variable {q : List Char} {ls ms : List (List Char)} {l : List Char} {column : Nat}

/-- In the first token of a row what was typed is the part before the cursor. -/
theorem complete_first (hl : splitLines q = ls ++ l :: ms) (hne : l ≠ [])
    (hcol : column < (Lexer.piece l).2) (s : Schema) :
    complete s q ⟨ls.length, column⟩ =
      (((Scan.chainBefore q ls.length).afterFirst l).offers s q).map
        (narrow (strip (l.take column))) := by
  obtain ⟨style, hfirst⟩ := Scan.locate_first hl hne hcol
  have htyped : Cursor.typed ⟨ls.length, column⟩ ls.length (0 : Nat)
      (String.ofList (l.take (Lexer.piece l).2)) = strip (l.take column) := by
    have := Cursor.typed_eq ls.length 0 column (l.take (Lexer.piece l).2)
    rwa [List.take_take, min_eq_left hcol.le] at this
  rw [complete_eq_offers, hfirst, ← htyped]
  rfl

/-- So it is at the end of the text before a cursor, if the part is one piece. -/
theorem complete_end_spacedAt (hl : splitLines q = ls ++ l :: ms) (hcol : column ≤ l.length)
    (hv : l.take column ≠ [] → (Lexer.piece (l.take column)).2 = (l.take column).length) :
    (endToken (spacedAt q ls.length column)).chain =
        (Scan.chainBefore q ls.length).afterFirst (l.take column) ∧
      ∀ s : Schema, complete s (spacedAt q ls.length column) ⟨ls.length, column + 1⟩ =
        (((Scan.chainBefore q ls.length).afterFirst (l.take column)).offers s
          (spacedAt q ls.length column)).map (narrow (strip (l.take column))) := by
  have hc : (Scan.chainAfter .start (Scan.tokensFrom 0 .start ls)).IsRegular :=
    Scan.isRegular_chainAfter_tokensFrom isRegular_start
  -- The last token of what is left of the cursor decides, and its text is what was typed.
  obtain ⟨u, hu, hrow, hchain, htext⟩ := Scan.exists_getLast?_spaced ls.length hc hv
  rw [← Scan.chainBefore_eq hl] at hchain
  have hend : endToken (spacedAt q ls.length column) = u :=
    Cursor.locate_atEnd_eq (splitLines_spacedAt hl column) hu
  refine ⟨hend ▸ hchain, fun s => ?_⟩
  rw [endToken, atEnd_spacedAt hl hcol] at hend
  have htyped : Cursor.typed ⟨ls.length, column + 1⟩ ls.length (1 : Nat)
      (String.ofList (l.take column)) = strip (l.take column) := by
    have := Cursor.typed_eq ls.length 1 column (l.take column)
    rwa [List.take_take, min_self] at this
  rw [complete_eq_offers, hend, hchain]
  refine congrArg (Except.map · _) (funext fun ss => ?_)
  obtain ⟨hu, hv⟩ | ⟨hstart, htext⟩ := htext
  · -- Ignored characters narrow nothing, with the space or without it.
    rw [← htyped, narrow_of_not_isFilterable (isFilterable_typed hu ..),
      narrow_of_not_isFilterable (isFilterable_typed (by simpa using hv) ..)]
  · rw [hrow, hstart, htext, htyped]

end Spaced

/-- **A cursor in the first token of a line is completed from the text before it**, where that token
stays: what stands to the right of the cursor neither narrows the suggestions nor moves them. -/
theorem complete_spacedAt (s : Schema) {q : List Char} {row column : Nat} {l : List Char}
    (hl : (splitLines q)[row]? = some l) {t : PlacedToken}
    (ht : (Scan.tokens q).find? (·.row == row) = some t) (hcol : column < t.stop)
    (hs : ¬AtSpread (endToken (spacedAt q row column)).chain)
    (h : (Scan.chainBefore q row).StaysFor l column) :
    complete s q ⟨row, column⟩ = complete s (spacedAt q row column) ⟨row, column + 1⟩ := by
  obtain ⟨ls, ms, hlines, rfl⟩ := exists_append_of_getElem? hl
  obtain ⟨hne, hstop⟩ := Scan.piece_of_find? hlines ht
  rw [hstop] at hcol
  have hlen : (l.take column).length = column := Lexer.length_take_of_lt_piece hcol hne
  obtain ⟨hend, hspaced⟩ := complete_end_spacedAt hlines (hlen ▸ List.length_take_le' column l)
    fun hv => by
      rw [hlen]
      refine h.piece_take hne hcol fun h0 => hv ?_
      rw [h0, List.take_zero]
  have hrests : Rests (Scan.chainAfter .start (Scan.tokensFrom 0 .start ls)) [] :=
    Scan.rests_chainAfter_tokensFrom (rests_start [])
  have hchain := Scan.chainBefore_eq hlines
  rw [hend] at hs
  rw [complete_first hlines hne hcol, hspaced, h.offers_eq (hchain ▸ hrests.regular.settle)
    (hchain ▸ hrests.entered) (hchain ▸ hrests.not_awaitsColon) hne hcol hs s q
    (spacedAt q ls.length column)]

/-- In a name that begins its line the suggestions are narrowed by the part before the cursor, and
what is behind it on the line does not matter. -/
theorem complete_spacedAt_name :
    ∃ (s : Schema) (q : List Char) (t : PlacedToken), q = "\x7b hero \x7b\nname \x7d\n\x7d".toList ∧
      (splitLines q)[1]? = some "name \x7d".toList ∧
      (Scan.tokens q).find? (·.row == 1) = some t ∧ 2 < t.stop ∧
      spacedAt q 1 2 = "\x7b hero \x7b\n na".toList ∧
      ¬AtSpread (endToken (spacedAt q 1 2)).chain ∧
      (Scan.chainBefore q 1).StaysFor "name \x7d".toList 2 ∧
      complete s q ⟨1, 2⟩ = .ok [{ text := "name", type := some (.named "String") }] ∧
      complete s q ⟨1, 2⟩ = complete s (spacedAt q 1 2) ⟨1, 3⟩ := by
  let s : Schema := {
    query := some "Query",
    types := [
      { name := "Query", body := .object [] [{ name := "hero", type := .named "Hero" }] },
      { name := "Hero", body := .object [] [
        { name := "id", type := .named "ID" }, { name := "name", type := .named "String" }] }] }
  obtain ⟨t, ht, hcol⟩ : ∃ t,
      (Scan.tokens "\x7b hero \x7b\nname \x7d\n\x7d".toList).find? (·.row == 1) = some t ∧
        2 < t.stop := by
    refine ⟨_, Option.some_get ?_ |>.symm, ?_⟩ <;> decide +kernel
  have hl : (splitLines "\x7b hero \x7b\nname \x7d\n\x7d".toList)[1]? =
      some "name \x7d".toList := by decide +kernel
  have hs : ¬AtSpread (endToken
      (spacedAt "\x7b hero \x7b\nname \x7d\n\x7d".toList 1 2)).chain := by
    unfold AtSpread
    decide +kernel
  have hstay : (Scan.chainBefore "\x7b hero \x7b\nname \x7d\n\x7d".toList 1).StaysFor
      "name \x7d".toList 2 :=
    .word (by decide +kernel : _ = Piece.token (.word "name"))
      (by decide +kernel : _ = some Position.field) trivial fun _ => trivial
  exact ⟨s, _, t, rfl, hl, ht, hcol, by decide +kernel, hs, hstay, by decide +kernel,
    complete_spacedAt s hl ht hcol hs hstay⟩

/-- Before a brace that ends a selection set the fields of the set around it are suggested, although
the text before the cursor is still inside the inner one. -/
theorem complete_before_brace :
    ∃ (s : Schema) (q : List Char), q = "\x7b a \x7b\n\x7d \x7d".toList ∧
      ((Scan.tokens q).find? (·.row == 1)).map (·.stop) = some 1 ∧
      ¬AtSpread (endToken (spacedAt q 1 0)).chain ∧
      (complete s q ⟨1, 0⟩).toOption.map (fun ss => ss.map (·.text)) =
        some ["a", "__schema", "__type"] ∧
      (complete s (spacedAt q 1 0) ⟨1, 1⟩).toOption.map (fun ss => ss.map (·.text)) =
        some ["b"] := by
  let s : Schema := {
    query := some "Query",
    types := [
      { name := "Query", body := .object [] [{ name := "a", type := .named "A" }] },
      { name := "A", body := .object [] [{ name := "b", type := .named "String" }] }] }
  refine ⟨s, _, rfl, by decide +kernel, ?_, by decide +kernel, by decide +kernel⟩
  unfold AtSpread
  decide +kernel

end QueryAssist
