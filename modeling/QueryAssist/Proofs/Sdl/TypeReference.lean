import QueryAssist.Proofs.Steps
import QueryAssist.Sdl.Parse

/-! # Type references as they are written

A type reference is read as it was written, however deep its lists are nested, as far as the reader
and its stack go. Main definitions:

* **`TypeRef.isWritten`**, **`TypeRef.lexemes`** — references that can be written, and how.
* **`Sdl.Context.enter`** — opening a bracket, which may be refused or be too much for the stack.

Main statements:

* `Sdl.typeRef_lexemes` — a reference ahead is read if its lists can be opened.
* `Sdl.ofText_render` — the same of its text.
* `Sdl.ofText_render_eq_ok_iff`, `Sdl.ofText_render_eq_overflow_iff` — how deep that goes.
* `TypeRef.parse?_render` — how deep the usual reader goes. -/

namespace QueryAssist

/-! ### Lexemes -/

namespace Lexeme

variable {cs : List Char}

/-- A mark begins nothing else. -/
theorem of_isMark {c : Char} (hc : isMark c = true) :
    isIgnored c = false ∧ c ≠ '#' ∧ isNameStart c = false := by
  have hmarks : ['!', '$', '&', '(', ')', ':', '=', '@', '[', ']', '{', '|', '}'].all
      (fun d => !isIgnored d && d != '#' && !isNameStart d) = true := by decide
  simpa [and_assoc] using List.all_eq_true.1 hmarks c (List.contains_iff_mem.1 hc)

/-- A mark is a lexeme of its own, whatever follows. -/
theorem all_mark {c : Char} (hc : isMark c = true) (cs : List Char) :
    all (c :: cs) = .mark (String.singleton c) :: all cs := by
  obtain ⟨hignored, hcomment, -⟩ := of_isMark hc
  have hread : read? (c :: cs) = some (.mark (String.singleton c), cs) := by
    unfold read?
    split
    · next h => cases h; exact absurd hc (by decide)
    · next h => cases h; exact absurd hc (by decide)
    · next h => cases h; exact absurd hc (by decide)
    · next h => cases h; exact if_pos hc
    · next h => cases h
  rw [all, hignored, if_neg Bool.false_ne_true, if_neg hcomment, hread]
  simp

/-- What begins a name begins nothing else. -/
theorem of_isNameStart {c : Char} (hc : isNameStart c = true) :
    isIgnored c = false ∧ c ≠ '#' ∧ c ≠ '.' ∧ c ≠ '"' ∧ isMark c = false := by
  have hne : ∀ {d : Char}, isNameStart d = false → c ≠ d := by
    rintro d hd rfl
    rw [hc] at hd
    cases hd
  refine ⟨?_, hne (by decide), hne (by decide), hne (by decide), ?_⟩
  · simp only [isIgnored, Bool.or_eq_false_iff, beq_eq_false_iff_ne]
    exact ⟨⟨⟨⟨⟨hne (by decide), hne (by decide)⟩, hne (by decide)⟩, hne (by decide)⟩,
      hne (by decide)⟩, hne (by decide)⟩
  · exact Bool.eq_false_iff.2 fun hm => hne (of_isMark hm).2.2 rfl

/-- A name is a lexeme where it does not go on. -/
theorem all_name {n : List Char} (hn : isName n = true)
    (hcs : ∀ c ∈ cs.head?, isNamePart c = false) :
    all (n ++ cs) = .name (String.ofList n) :: all cs := by
  obtain - | ⟨c, r⟩ := n
  · cases hn
  obtain ⟨hc, hr⟩ := Bool.and_eq_true_iff.1 hn
  rw [List.all_eq_true] at hr
  obtain ⟨hignored, hcomment, hdot, hquote, hmark⟩ := of_isNameStart hc
  have htake : (r ++ cs).takeWhile isNamePart = r ∧ (r ++ cs).dropWhile isNamePart = cs := by
    rw [List.takeWhile_append_of_pos hr, List.dropWhile_append_of_pos hr]
    cases cs with
    | nil => simp
    | cons d ds => simp [hcs d rfl]
  have hread : read? (c :: (r ++ cs)) = some (.name (String.ofList (c :: r)), cs) := by
    unfold read?
    split
    · next h => exact absurd (List.cons.inj h).1 hdot
    · next h => exact absurd (List.cons.inj h).1 hquote
    · next h => exact absurd (List.cons.inj h).1 hquote
    · next h => cases h; rw [hmark, hc, htake.1, htake.2]; rfl
    · next h => cases h
  rw [List.cons_append, all, hignored, if_neg Bool.false_ne_true, if_neg hcomment, hread]
  simp

end Lexeme

/-! ### Written references -/

namespace TypeRef

/-- Whether a reference **can be written**: its name is one of the language, and no mark of it
follows another. -/
def isWritten : TypeRef → Bool
  | named n => Lexeme.isName n.toList
  | list t => t.isWritten
  | nonNull (nonNull _) => false
  | nonNull t => t.isWritten

/-- The **lexemes** of a reference. -/
def lexemes : TypeRef → List Lexeme
  | named n => [.name n]
  | list t => .mark "[" :: (t.lexemes ++ [.mark "]"])
  | nonNull t => t.lexemes ++ [.mark "!"]

/-- How many lists are around the name. -/
def depth : TypeRef → Nat
  | named _ => 0
  | list t => t.depth + 1
  | nonNull t => t.depth

variable {t : TypeRef}

/-- A reference without a mark can be written with one. -/
theorem isWritten_of_nonNull (h : (nonNull t).isWritten = true) :
    t.isWritten = true ∧ ∀ u, t ≠ nonNull u := by
  cases t with
  | nonNull u => cases h
  | _ => exact ⟨h, fun _ => nofun⟩

/-- The text of a reference **has its lexemes**, if no name follows at once. -/
theorem all_render (h : t.isWritten = true) {cs : List Char}
    (hcs : ∀ c ∈ cs.head?, Lexeme.isNamePart c = false) :
    Lexeme.all (t.render.toList ++ cs) = t.lexemes ++ Lexeme.all cs := by
  induction t generalizing cs with
  | named n => simpa [render, lexemes] using Lexeme.all_name h hcs
  | list t ih =>
    have hclose : ∀ c ∈ (']' :: cs).head?, Lexeme.isNamePart c = false := by
      rintro c ⟨⟩
      decide
    simp only [render, lexemes, String.toList_append, List.append_assoc, List.cons_append]
    change Lexeme.all ('[' :: (t.render.toList ++ ']' :: cs)) = _
    rw [Lexeme.all_mark (by decide), ih h hclose, Lexeme.all_mark (by decide)]
    rfl
  | nonNull t ih =>
    have hmark : ∀ c ∈ ('!' :: cs).head?, Lexeme.isNamePart c = false := by
      rintro c ⟨⟩
      decide
    simp only [render, lexemes, String.toList_append, List.append_assoc]
    change Lexeme.all (t.render.toList ++ '!' :: cs) = _
    rw [ih (isWritten_of_nonNull h).1 hmark, Lexeme.all_mark (by decide)]
    rfl

end TypeRef

/-! ### Open brackets -/

namespace Sdl

variable {α : Type} {c : Context} {ts : List Lexeme} {t : TypeRef} {nesting : Nesting}

/-- **Opening a bracket**: the reader may refuse to, and the stack may give out. -/
def Context.enter (c : Context) (b : Bracket) : Except Fault Context :=
  if c.nesting.limit.any (· ≤ c.opened.length) then .error .malformed
  else if c.nesting.fits (b :: c.opened) then .ok { c with opened := b :: c.opened }
  else .error .overflow

/-- Opening some lists, one in the other. -/
def Context.enterLists (c : Context) : Nat → Except Fault Context
  | 0 => .ok c
  | n + 1 => c.enter .listType >>= fun d => d.enterLists n

/-- A part inside a bracket is read **in the context** that the bracket opens. -/
theorem inside_apply (b : Bracket) (part : Parse α) (c : Context) (ts : List Lexeme) :
    inside b part c ts = c.enter b >>= fun d => part d ts := by
  change (if _ then refuse else if _ then _ else _ : Parse α) c ts = _
  rw [Context.enter]
  split
  · rfl
  · split <;> rfl

/-- A lexeme is taken if it is ahead, and only then. -/
theorem accept_apply (t : Lexeme) (c : Context) (ts : List Lexeme) :
    accept t c ts =
      .ok (ts.head? == some t, if ts.head? == some t then ts.tail else ts) := by
  change (if ts.head? == some t then (do let _ ← next; pure true) else pure false : Parse Bool)
    c ts = _
  cases ts with
  | nil => rfl
  | cons u us =>
    split
    · next h => rw [h]; rfl
    · next h => rw [Bool.eq_false_iff.2 h]; rfl

/-- A mark that is ahead is taken. -/
theorem mark_cons (m : String) (c : Context) (ts : List Lexeme) :
    mark m c (.mark m :: ts) = .ok ((), ts) := by
  change (if Lexeme.mark m = .mark m then pure () else refuse : Parse Unit) c ts = _
  rw [if_pos rfl]
  rfl

/-! ### Reading a reference -/

/-- The rest of a reference, which may have a mark. -/
def marked (t : TypeRef) : Parse TypeRef := do
  if ← accept (.mark "!") then pure (.nonNull t) else pure t

/-- A reference that is a name, up to its mark. -/
theorem typeRef_name (n : String) (c : Context) (ts : List Lexeme) :
    typeRef c (.name n :: ts) = marked (.named n) c ts := by
  rw [typeRef, nested]
  rfl

/-- A reference to lists, up to its mark. -/
theorem typeRef_open (c : Context) (ts : List Lexeme) :
    typeRef c (.mark "[" :: ts) = (c.enter .listType >>= fun d => typeRef d ts) >>= fun r =>
      (do mark "]"; marked (.list r.1) : Parse TypeRef) c r.2 := by
  have hin : inside .listType (fun c rest => if _h : rest.length < (Lexeme.mark "[" :: ts).length
      then typeRef c rest else .error .malformed) c ts =
        c.enter .listType >>= fun d => typeRef d ts := by
    rw [inside_apply]
    exact congrArg _ (funext fun d => dif_pos (Nat.lt_succ_self _))
  rw [← hin, typeRef, nested]
  rfl

/-- A reference has a mark if that is ahead. -/
theorem marked_apply (t : TypeRef) (c : Context) (ts : List Lexeme) :
    marked t c ts =
      .ok (if ts.head? == some (.mark "!") then (.nonNull t, ts.tail) else (t, ts)) := by
  change (accept (.mark "!") c ts >>= fun r =>
    (if r.1 then pure (.nonNull t) else pure t : Parse TypeRef) c r.2) = _
  rw [accept_apply]
  cases ts.head? == some (Lexeme.mark "!") <;> rfl

/-- A reference is read with its mark, if it is read up to there. -/
theorem typeRef_lexemes_of_nullable
    (hread : ∀ ts, typeRef c (t.nullable.lexemes ++ ts) =
      c.enterLists t.depth >>= fun _ => marked t.nullable c ts)
    (hts : ts.head? ≠ some (.mark "!")) :
    typeRef c (t.lexemes ++ ts) = (c.enterLists t.depth).map fun _ => (t, ts) := by
  cases t with
  | nonNull u =>
    have hmark := hread (.mark "!" :: ts)
    simp only [marked_apply, TypeRef.nullable] at hmark
    simp only [TypeRef.lexemes, List.append_assoc, List.cons_append, List.nil_append]
    rw [hmark]
    cases c.enterLists u.nonNull.depth <;> rfl
  | _ =>
    refine (hread ts).trans ?_
    simp only [marked_apply, beq_eq_false_iff_ne.2 hts]
    cases c.enterLists _ <;> rfl

/-- A reference is read **up to its mark** if its lists can be opened. -/
theorem typeRef_nullable (h : t.isWritten = true) (c : Context) (ts : List Lexeme) :
    typeRef c (t.nullable.lexemes ++ ts) =
      c.enterLists t.depth >>= fun _ => marked t.nullable c ts := by
  -- The induction is on the reference. The item of a list may have a mark of its own.
  induction t generalizing c ts with
  | named n => exact typeRef_name n c ts
  | list t ih =>
    have hitem : ∀ d, typeRef d (t.lexemes ++ .mark "]" :: ts) =
        (d.enterLists t.depth).map fun _ => (t, .mark "]" :: ts) := fun d =>
      typeRef_lexemes_of_nullable (ih h d) (by simp)
    simp only [TypeRef.nullable, TypeRef.lexemes, List.cons_append, List.append_assoc,
      List.nil_append, typeRef_open, hitem, TypeRef.depth, Context.enterLists]
    cases c.enter .listType with
    | error f => rfl
    | ok d =>
      change ((d.enterLists t.depth).map _ >>= _) = (d.enterLists t.depth >>= _)
      cases d.enterLists t.depth with
      | error f => rfl
      | ok e =>
        change (mark "]" c (.mark "]" :: ts) >>= fun r => marked t.list c r.2) = _
        rw [mark_cons]
        rfl
  | nonNull t ih =>
    obtain ⟨ht, hne⟩ := TypeRef.isWritten_of_nonNull h
    have hnullable : t.nullable = t := by
      cases t with
      | nonNull u => exact absurd rfl (hne u)
      | _ => rfl
    have hread := ih ht c ts
    rwa [hnullable] at hread

/-- **A reference that is ahead is read** if its lists can be opened, and fails as the opening of
them does if not. -/
theorem typeRef_lexemes (h : t.isWritten = true) (hts : ts.head? ≠ some (.mark "!"))
    (c : Context) :
    typeRef c (t.lexemes ++ ts) = (c.enterLists t.depth).map fun _ => (t, ts) :=
  typeRef_lexemes_of_nullable (typeRef_nullable h c) hts

/-- **A reference is read as it was written** if its lists can be opened. -/
theorem ofText_render (h : t.isWritten = true) (nesting : Nesting) :
    ofText nesting typeRef t.render.toList =
      (Context.enterLists { nesting } t.depth).map fun _ => t := by
  have hall : Lexeme.all t.render.toList = t.lexemes := by
    have hall : Lexeme.all (t.render.toList ++ []) = t.lexemes ++ Lexeme.all [] :=
      TypeRef.all_render h nofun
    rwa [List.append_nil, Lexeme.all, List.append_nil] at hall
  have hread : typeRef { nesting } (t.lexemes ++ []) =
      (Context.enterLists { nesting } t.depth).map fun _ => (t, []) :=
    typeRef_lexemes h (by simp) { nesting }
  rw [List.append_nil] at hread
  rw [ofText, hall, hread]
  cases Context.enterLists { nesting } t.depth <;> rfl

/-! ### How deep that goes -/

namespace Context

/-- The brackets that are open inside some lists. -/
def openedIn (c : Context) (k : Nat) : List Bracket := List.replicate k .listType ++ c.opened

/-- The reader **allows** one more list inside some. -/
def Allows (c : Context) (k : Nat) : Prop := ∀ l ∈ c.nesting.limit, (c.openedIn k).length < l

/-- The context in a list. -/
def inList (c : Context) : Context := { c with opened := .listType :: c.opened }

/-- The lists inside a list are one less than those around it. -/
theorem openedIn_inList (c : Context) (k : Nat) : c.inList.openedIn k = c.openedIn (k + 1) := by
  rw [openedIn, openedIn, inList, List.replicate_succ', List.append_assoc]
  rfl

/-- A reader allows a list inside others as it allows one more inside one. -/
theorem allows_inList (k : Nat) : c.inList.Allows k ↔ c.Allows (k + 1) := by
  rw [Allows, Allows, openedIn_inList]
  exact Iff.rfl

/-- What is asked before one list is opened. -/
theorem allows_zero : c.Allows 0 ↔ c.nesting.limit.any (· ≤ c.opened.length) = false := by
  cases h : c.nesting.limit <;> simp [Allows, openedIn, h]

/-- One list is opened if it is allowed and fits. -/
theorem enter_eq_ok_iff {d : Context} : c.enter .listType = .ok d ↔
    (c.Allows 0 ∧ c.nesting.fits (c.openedIn 1) = true) ∧ d = c.inList := by
  rw [allows_zero, enter]
  cases c.nesting.limit.any (· ≤ c.opened.length) with
  | true => simp
  | false =>
    change (if c.nesting.fits (c.openedIn 1) = true then Except.ok c.inList
      else .error Fault.overflow) = .ok d ↔ _
    split
    · next h => simp [h, eq_comm]
    · next h => simp [h]

/-- The stack gives out on one list if that is allowed and does not fit. -/
theorem enter_eq_overflow_iff : c.enter .listType = .error .overflow ↔
    c.Allows 0 ∧ c.nesting.fits (c.openedIn 1) = false := by
  rw [allows_zero, enter]
  cases c.nesting.limit.any (· ≤ c.opened.length) with
  | true => simp
  | false =>
    change (if c.nesting.fits (c.openedIn 1) = true then Except.ok c.inList
      else .error Fault.overflow) = .error .overflow ↔ _
    split
    · next h => simp [h]
    · next h => simp [h]

/-- **Lists are opened** if each of them is allowed and fits. -/
theorem exists_enterLists_iff {n : Nat} : (∃ d, c.enterLists n = .ok d) ↔
    ∀ k < n, c.Allows k ∧ c.nesting.fits (c.openedIn (k + 1)) = true := by
  induction n generalizing c with
  | zero => exact iff_of_true ⟨c, rfl⟩ nofun
  | succ n ih =>
    have hin : (∃ d, c.inList.enterLists n = .ok d) ↔
        ∀ k < n, c.Allows (k + 1) ∧ c.nesting.fits (c.openedIn (k + 1 + 1)) = true := by
      simp only [ih, allows_inList, openedIn_inList]
      exact Iff.rfl
    simp only [enterLists, bind_eq_ok_iff, enter_eq_ok_iff, Nat.forall_lt_succ_left, ← hin]
    constructor
    · rintro ⟨d, e, ⟨hone, rfl⟩, hd⟩
      exact ⟨hone, d, hd⟩
    · rintro ⟨hone, d, hd⟩
      exact ⟨d, c.inList, ⟨hone, rfl⟩, hd⟩

/-- A reader that allows a list allows those around it. -/
theorem Allows.mono {j k : Nat} (h : c.Allows k) (hj : j ≤ k) : c.Allows j := by
  intro l hl
  have hk := h l hl
  simp only [openedIn, List.length_append, List.length_replicate] at hk ⊢
  omega

/-- **The stack gives out** on some lists if one that is allowed does not fit. -/
theorem enterLists_eq_overflow_iff {n : Nat} : c.enterLists n = .error .overflow ↔
    ∃ k < n, c.Allows k ∧ c.nesting.fits (c.openedIn (k + 1)) = false := by
  induction n generalizing c with
  | zero => exact iff_of_false nofun (by simp)
  | succ n ih =>
    -- The lists inside begin one bracket further in.
    have hin : c.inList.enterLists n = .error .overflow ↔
        ∃ k < n, c.Allows (k + 1) ∧ c.nesting.fits (c.openedIn (k + 1 + 1)) = false := by
      simp only [ih, allows_inList, openedIn_inList]
      exact Iff.rfl
    simp only [enterLists, bind_eq_error_iff, enter_eq_ok_iff, enter_eq_overflow_iff,
      Nat.exists_lt_succ_left, ← hin]
    constructor
    · rintro (h | ⟨d, ⟨-, rfl⟩, hd⟩)
      · exact .inl h
      · exact .inr hd
    · rintro (h | hd)
      · exact .inl h
      · obtain ⟨k, -, hallows, -⟩ := hin.1 hd
        have hzero := hallows.mono (Nat.zero_le _)
        cases hfits : c.nesting.fits (c.openedIn 1) with
        | false => exact .inl ⟨hzero, rfl⟩
        | true => exact .inr ⟨c.inList, ⟨⟨hzero, rfl⟩, rfl⟩, hd⟩

end Context

/-- Outside all brackets there are only the lists. -/
theorem openedIn_start (nesting : Nesting) (k : Nat) :
    Context.openedIn { nesting } k = List.replicate k .listType := List.append_nil _

/-- A reader that is outside all brackets allows lists up to its limit. -/
theorem allows_start {k : Nat} : Context.Allows { nesting } k ↔ ∀ l ∈ nesting.limit, k < l := by
  simp only [Context.Allows, openedIn_start, List.length_replicate]

/-- A reference **is read as it was written** if the reader goes as deep as it is and the stack has
room for all of its lists. -/
theorem ofText_render_eq_ok_iff (h : t.isWritten = true) :
    ofText nesting typeRef t.render.toList = .ok t ↔
      (∀ l ∈ nesting.limit, t.depth ≤ l) ∧
        ∀ k < t.depth, nesting.fits (List.replicate (k + 1) .listType) = true := by
  have hlimit : (∀ l ∈ nesting.limit, t.depth ≤ l) ↔
      ∀ k < t.depth, Context.Allows { nesting } k := by
    simp only [allows_start]
    exact ⟨fun hl k hk l hm => Nat.lt_of_lt_of_le hk (hl l hm), fun hk l hm =>
      Nat.le_of_not_lt fun hlt => Nat.lt_irrefl l (hk l hlt l hm)⟩
  have hopen := Context.exists_enterLists_iff (c := { nesting }) (n := t.depth)
  simp only [openedIn_start, imp_and, forall_and] at hopen
  rw [hlimit, ← hopen, ofText_render h]
  cases Context.enterLists { nesting } t.depth with
  | ok d => exact iff_of_true rfl ⟨d, rfl⟩
  | error f => exact iff_of_false nofun nofun

/-- The stack **gives out** on a reference if it has no room for a list that the reader goes to. -/
theorem ofText_render_eq_overflow_iff (h : t.isWritten = true) :
    ofText nesting typeRef t.render.toList = .error .overflow ↔
      ∃ k < t.depth, (∀ l ∈ nesting.limit, k < l) ∧
        nesting.fits (List.replicate (k + 1) .listType) = false := by
  have hopen := Context.enterLists_eq_overflow_iff (c := { nesting }) (n := t.depth)
  simp only [openedIn_start, allows_start] at hopen
  rw [← hopen, ofText_render h]
  cases Context.enterLists { nesting } t.depth with
  | ok d => exact iff_of_false nofun nofun
  | error f => simp [Except.map]

end Sdl

/-- A reference that is nested as deep as the usual reader goes is **read as it was written**. -/
theorem TypeRef.parse?_render {t : TypeRef} (h : t.isWritten = true) (hdepth : t.depth ≤ 200) :
    TypeRef.parse? t.render.toList = some t := by
  have hread : Sdl.ofText {} Sdl.typeRef t.render.toList = .ok t :=
    (Sdl.ofText_render_eq_ok_iff h).2 ⟨fun l hl => Option.some.inj hl ▸ hdepth, fun _ _ => rfl⟩
  rw [parse?, hread]
  rfl

end QueryAssist
