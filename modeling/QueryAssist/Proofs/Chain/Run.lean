import QueryAssist.Proofs.Chain.Matching
import QueryAssist.Proofs.Layout.Document

/-! # Runs of a chain

Tokens are read one after another, and each is held against the chain that the ones before it leave.
What is read may end in a construct that could go on. It is left only when the next token is seen,
so a run leads to a chain up to a class of tokens that would go on instead. Main definitions:

* **`Alike n ls ms`** — links that differ at most in the names and types of the first `n`.
* **`Chain.Takes`**, **`Chain.TakesAll`** — a chain reads one token, or some.
* **`Chain.Lags`** — whether a chain falls to another for each token outside some classes.
* **`Chain.Reads`** — a run to a chain, up to such a lag.

Main statements: `Reads.trans`, and `reads_nil_of_isFlexible`, a step that may be passed over is
passed over when nothing begins it. -/

namespace QueryAssist

open Grammar

/-! ### Links up to their labels -/

namespace Link

/-- The link at a given place of its rule. -/
def place (l : Link) (i : Nat) (b : Bool) : Link := { l with needsSeparator := b, step := i }

/-- The link with another name and type. -/
def relabel (l : Link) (n t : Option String) : Link := { l with name := n, type := t }

variable {l : Link}

end Link

/-- Links are **alike** up to some number if they differ at most in the names and types of that
many, the innermost ones. -/
inductive Alike : Nat → List Link → List Link → Prop
  /-- Nothing differs. -/
  | refl (n : Nat) (ls : List Link) : Alike n ls ls
  /-- The first name or type differs. -/
  | relabel {n : Nat} {ls ms : List Link} (l : Link) (a t : Option String) (h : Alike n ls ms) :
      Alike (n + 1) (l :: ls) (l.relabel a t :: ms)

/-- Links are **plain** if nothing is due in them and none is shared. -/
def Plain (ls : List Link) : Prop := ∀ l ∈ ls, l.needsAdvance = false ∧ l.cell = none

namespace Alike

variable {n m : Nat} {l l' : Link} {ls ms ks : List Link}

/-- Links that are alike up to a number are alike up to a larger one. -/
theorem mono (h : Alike n ls ms) (hn : n ≤ m) : Alike m ls ms := by
  induction h generalizing m with
  | refl => exact .refl _ _
  | relabel l a t h ih =>
    obtain ⟨m, rfl⟩ : ∃ m', m = m' + 1 := ⟨m - 1, by omega⟩
    exact .relabel l a t (ih (by omega))

/-- Links that are alike to the same ones are alike. -/
theorem trans (h : Alike n ls ms) (h' : Alike n ms ks) : Alike n ls ks := by
  induction h generalizing ks with
  | refl => exact h'
  | relabel l a t h ih =>
    cases h' with
    | refl => exact .relabel l a t h
    | relabel _ a' t' h' => exact .relabel l a' t' (ih h')

/-- What is alike up to no link is equal. -/
theorem eq_of_zero (h : Alike 0 ls ms) : ls = ms := by
  cases h
  rfl

/-- Only no links are alike to none. -/
theorem eq_nil (h : Alike n [] ms) : ms = [] := by
  cases h
  rfl

/-- The links around the innermost ones are alike up to one less. -/
theorem tail (h : Alike (n + 1) (l :: ls) (l' :: ms)) : Alike n ls ms := by
  cases h with
  | refl => exact .refl _ _
  | relabel _ _ _ h => exact h

/-- What is alike to some links has an innermost one as well. -/
theorem exists_cons (h : Alike n (l :: ls) ks) : ∃ l' ms, ks = l' :: ms := by
  cases h with
  | refl => exact ⟨_, _, rfl⟩
  | relabel => exact ⟨_, _, rfl⟩

/-- The innermost links of both differ at most in their labels. -/
theorem head (h : Alike n (l :: ls) (l' :: ms)) : ∃ a t, l' = l.relabel a t := by
  cases h with
  | refl => exact ⟨l.name, l.type, rfl⟩
  | relabel _ a t => exact ⟨a, t, rfl⟩

/-- The innermost links are alike before a change that leaves labels alone, if they are after it. -/
theorem of_place {i : Nat} {b : Bool} (h : Alike n (l.place i b :: ls) (l' :: ms)) :
    ∃ k : Link, l' = k.place i b ∧ Alike n (l :: ls) (k :: ms) := by
  cases h with
  | refl => exact ⟨l, rfl, .refl _ _⟩
  | relabel _ a t h => exact ⟨l.relabel a t, rfl, .relabel l a t h⟩

/-- Links stay alike where both innermost ones go to the same place. -/
theorem place (h : Alike n (l :: ls) (l' :: ms)) (i : Nat) (b : Bool) :
    Alike n (l.place i b :: ls) (l'.place i b :: ms) := by
  cases h with
  | refl => exact .refl _ _
  | relabel _ a t h => exact .relabel (l.place i b) a t h

/-- What is alike to plain links is plain. -/
theorem plain (h : Alike n ls ms) (hp : Plain ls) : Plain ms := by
  induction h with
  | refl => exact hp
  | relabel l a t h ih =>
    obtain ⟨hl, hs⟩ := List.forall_mem_cons.1 hp
    exact List.forall_mem_cons.2 ⟨hl, ih hs⟩

end Alike

namespace Plain

variable {l : Link} {ls : List Link}

/-- The links around a plain one are plain. -/
theorem tail (h : Plain (l :: ls)) : Plain ls := (List.forall_mem_cons.1 h).2

/-- Nothing is due in the innermost of plain links, and it has no cell. -/
theorem head (h : Plain (l :: ls)) : l.needsAdvance = false ∧ l.cell = none :=
  (List.forall_mem_cons.1 h).1

/-- Plain links stay plain where the innermost one goes to another place. -/
theorem place (h : Plain (l :: ls)) (i : Nat) (b : Bool) : Plain (l.place i b :: ls) :=
  List.forall_mem_cons.2 ⟨h.head, h.tail⟩

/-- A plain link that is left is as it was. -/
theorem release_eq (h : Plain (l :: ls)) :
    ({ l with needsAdvance := false, cell := none } : Link) = l := by
  rw [← h.head.1, ← h.head.2]

end Plain

namespace Chain

/-! ### Reading tokens -/

/-- A chain **takes** a token if it admits it after some moves. What is due after it is made
up for. -/
def Takes (x : SpacedToken) (ahead : List Char) (c d : Chain) : Prop :=
  ∃ b e, Falls x.token ahead c b ∧ Admits x.token ahead b e ∧
    d = (b.record e.trace x.token.text).advance true

/-- A **run** takes tokens one after another. Others come after them. -/
inductive TakesAll (rest : List SpacedToken) : Chain → List SpacedToken → Chain → Prop
  /-- Nothing is left to take. -/
  | nil {c : Chain} : TakesAll rest c [] c
  /-- One token and a run after it. -/
  | cons {c d e : Chain} {x : SpacedToken} {w : List SpacedToken}
      (hx : Takes x (x.ahead (w ++ rest)) c d)
      (h : TakesAll rest d w e) : TakesAll rest c (x :: w) e

/-- A chain **lags** behind another if it falls to it for each token outside some classes. -/
def Lags (ms : List Matcher) (c d : Chain) : Prop :=
  ∀ t ahead, t.IsOutside ms → Falls t ahead c d

/-- A chain **reads** tokens up to another chain if a run takes them and leaves it to lag. Without
classes that could go on it does not lag. -/
def Reads (c : Chain) (w rest : List SpacedToken) (ms : List Matcher) (d : Chain) : Prop :=
  ∃ b, TakesAll rest c w b ∧ Lags ms b d ∧ (ms = [] → b = d)

variable {b c d e : Chain} {v w rest : List SpacedToken} {ms ns : List Matcher}

/-- A chain takes what a chain takes to which it falls. -/
theorem Takes.of_falls {x : SpacedToken} {ahead : List Char} (h : Takes x ahead d e)
    (hf : Falls x.token ahead c d) : Takes x ahead c e := by
  obtain ⟨b, t, hb, ha⟩ := h
  exact ⟨b, t, hf.trans hb, ha⟩

/-- A run of no tokens leads nowhere. -/
theorem TakesAll.eq_of_nil (h : TakesAll rest c [] d) : d = c := by
  cases h
  rfl

/-- A run of some tokens takes the first one and goes on with the others. -/
theorem TakesAll.exists_of_cons {x : SpacedToken} (h : TakesAll rest c (x :: w) e) :
    ∃ d, Takes x (x.ahead (w ++ rest)) c d ∧ TakesAll rest d w e := by
  cases h with
  | cons hx h => exact ⟨_, hx, h⟩

/-- Two runs, one after the other, are a run. -/
theorem TakesAll.append (h : TakesAll (w ++ rest) c v d) (h' : TakesAll rest d w e) :
    TakesAll rest c (v ++ w) e := by
  induction h with
  | nil => exact h'
  | cons hx _ ih =>
    rw [← List.append_assoc] at hx
    exact .cons hx (ih h')

/-- A run may begin at a chain that falls to its first one. -/
theorem TakesAll.of_falls {x : SpacedToken} (h : TakesAll rest d (x :: w) e)
    (hf : Falls x.token (x.ahead (w ++ rest)) c d) : TakesAll rest c (x :: w) e := by
  cases h with
  | cons hx h => exact .cons (hx.of_falls hf) h

/-- A chain that lags outside some classes lags outside more of them. -/
theorem Lags.mono (h : Lags ms c d) (hm : ms ⊆ ns) : Lags ns c d :=
  fun t ahead ht => h t ahead fun m hn => ht m (hm hn)

/-- A chain lags behind what the chain lags behind that it lags behind. -/
theorem Lags.trans (h : Lags ms c d) (h' : Lags ms d e) : Lags ms c e :=
  fun t ahead ht => (h t ahead ht).trans (h' t ahead ht)

/-- What is read but for some classes is read but for more of them. -/
theorem Reads.mono (h : Reads c w rest ms d) (hm : ms ⊆ ns) : Reads c w rest ns d := by
  obtain ⟨b, hr, hl, he⟩ := h
  exact ⟨b, hr, hl.mono hm, fun hn => he (List.subset_nil.1 (hn ▸ hm))⟩

/-- No tokens are read by standing still. -/
theorem reads_nil (c : Chain) (rest : List SpacedToken) : Reads c [] rest [] c :=
  ⟨c, .nil, fun _ _ _ => .refl, fun _ => rfl⟩

/-- A chain that reads nothing lags. -/
theorem Reads.lags (h : Reads c [] rest ms d) : Lags ms c d := by
  obtain ⟨b, hr, hl, -⟩ := h
  exact hr.eq_of_nil ▸ hl

/-- What is read without a lag is taken. -/
theorem Reads.takesAll (h : Reads c w rest [] d) : TakesAll rest c w d := by
  obtain ⟨b, hr, -, hb⟩ := h
  exact hb rfl ▸ hr

/-- A chain that takes one token does not lag after it. -/
theorem Takes.reads {x : SpacedToken} (h : Takes x (x.ahead rest) c d) : Reads c [x] rest [] d :=
  ⟨d, .cons h .nil, fun _ _ _ => .refl, fun _ => rfl⟩

/-- What is read in two parts is **read as a whole**, if the second part does not begin with a token
that goes on with the first. -/
theorem Reads.trans (h : Reads c v (w ++ rest) ms d) (h' : Reads d w rest ns e)
    (hw : Follows ms w) (hm : w = [] → ms ⊆ ns) : Reads c (v ++ w) rest ns e := by
  obtain ⟨b, hr, hl, he⟩ := h
  obtain ⟨b', hr', hl', he'⟩ := h'
  -- With nothing after it the first part goes on lagging. Otherwise the next token ends that.
  cases w with
  | nil =>
    cases hr'
    have hm := hm rfl
    refine ⟨b, hr.append .nil, (hl.mono hm).trans hl', fun hn => ?_⟩
    rw [he (List.subset_nil.1 (hn ▸ hm)), he' hn]
  | cons x w => exact ⟨b', hr.append (hr'.of_falls (hl _ _ (hw x rfl))), hl', he'⟩

/-- What does not lag is read on from where it ends. -/
theorem Reads.append (h : Reads c v (w ++ rest) [] d) (h' : Reads d w rest ns e) :
    Reads c (v ++ w) rest ns e :=
  h.trans h' (follows_nil w) fun _ => List.nil_subset _

/-- What lags is read on if the next token does not go on with it. -/
theorem Reads.append_cons {x : SpacedToken} (h : Reads c v ((x :: w) ++ rest) ms d)
    (h' : Reads d (x :: w) rest ns e) (hx : x.token.IsOutside ms) :
    Reads c (v ++ (x :: w)) rest ns e :=
  h.trans h' (follows_cons hx w) fun hn => absurd hn (List.cons_ne_nil _ _)

/-- A chain with a move to another for any token reads what that one reads. -/
theorem Reads.of_falls {x : SpacedToken} (h : Reads d (x :: w) rest ms e)
    (hf : Falls x.token (x.ahead (w ++ rest)) c d) : Reads c (x :: w) rest ms e := by
  obtain ⟨b, hr, hl⟩ := h
  exact ⟨b, hr.of_falls hf, hl⟩

/-! ### Unwinding plain links -/

/-- An open chain has nothing due and no shared link. -/
theorem IsOpen.plain (h : c.IsOpen) : Plain c.links := by
  have hcell : ∀ {ls}, Nested ls → ∀ l ∈ ls, l.cell = none := by
    intro ls hn
    induction hn with
    | document hl => exact List.forall_mem_cons.2 ⟨hl.cell, by simp⟩
    | inside hl _ _ ih => exact List.forall_mem_cons.2 ⟨hl.cell, ih⟩
  exact fun l hl => ⟨h.idle l hl, hcell h.nested l hl⟩

/-- A link that is not complete stays innermost. -/
theorem unwind_eq_self {t : Link} {ps : List Link} (h : t.isComplete = false) :
    unwind t ps = ⟨t, ps⟩ := by
  cases ps with
  | nil => simp [unwind, h]
  | cons p ps => exact unwind_of_not_isComplete h

/-- A complete link is left for the one around it, which is taken up again. -/
theorem unwind_cons {t p : Link} {ps : List Link} (ht : t.isComplete = true)
    (ha : t.needsAdvance = false) (hp : Plain (p :: ps)) :
    unwind t (p :: ps) = unwind p.resume ps := by
  rw [unwind_of_isComplete ht, ha, hp.release_eq]

/-- A link at a step of its rule is not complete. -/
theorem isComplete_eq_false_of_currentStep? {l : Link} {s : Step} (h : l.currentStep? = some s) :
    l.isComplete = false := by
  unfold Link.currentStep? at h
  cases hr : l.rule with
  | none => simp [Link.isComplete, hr]
  | some r =>
    rw [hr] at h
    cases r with
    | fork f => cases h
    | steps ss =>
      have hlt : l.step < ss.length := (List.getElem?_eq_some_iff.1 h).1
      have hle : ¬(Rule.steps ss).length ≤ l.step := Nat.not_le.2 hlt
      simp [Link.isComplete, hr, hle]

/-- After a step that was taken the construct is taken up again. -/
theorem advance_true_eq {l : Link} {ps : List Link} (hr : l.rule.isNone = false) :
    advance ⟨l, ps⟩ true = unwind l.resume ps := by
  unfold Chain.advance Link.resume
  rw [hr]
  simp only [Bool.false_eq_true, if_false, Bool.true_or, if_true]
  split
  · next s hs => exact (unwind_eq_self (isComplete_eq_false_of_currentStep? hs)).symm
  · next s sep hs =>
    refine (unwind_eq_self ?_).symm
    exact isComplete_eq_false_of_currentStep?
      (l := { l with needsSeparator := !l.needsSeparator }) (s := .separated s sep) hs
  · rfl

/-! ### Passing over a step -/

/-- A construct that a token does not begin is entered and given up again. -/
theorem falls_giveUp_enter {k : RuleKind} {r : Rule} {t : Token} {ahead : List Char}
    (hr : standard k = some r) (hk : k ≠ .document) (ht : t.IsOutside (Step.rule k).openings)
    (c : Chain) : Falls t ahead (c.enter k r) (c.enter k r).giveUp := by
  induction hd : depth k using Nat.strongRecOn generalizing c k r with
  | ind m ih =>
    subst hd
    -- What is wanted inside it is entered and given up in turn.
    have hin : ∀ k', (c.enter k r).top.wanted? t ahead = some (.rule k') → k' ∈ r.names →
        depth k' < depth k → t.IsOutside (Step.rule k').openings →
        Falls t ahead (c.enter k r) (c.enter k r).giveUp := by
      intro k' hw hn hlt ho
      obtain ⟨r', hr'⟩ := Option.isSome_iff_exists.1 (isSome_of_mem_names hr hn)
      have hk' : k' ≠ .document := by
        rintro rfl
        exact document_notMem_names hr hn
      have hf := ih _ hlt hr' hk' ho (c.enter k r) rfl
      rw [giveUp_enter rfl (isFlexible_enter hr' hk')] at hf
      exact hf.head (.enter rfl hw hr')
    -- The first step of a sequence is wanted, or what a fork chooses.
    match r, hr with
    | .steps [], hr => exact absurd rfl (steps_ne_nil hr)
    | .steps (s :: ss), hr =>
      rw [openings_of_steps hr hk] at ht
      obtain ⟨e, rfl⟩ | ⟨k', rfl, hlt⟩ := head_cases hr hk
      · refine .single (.giveUp rfl nofun fun e' he => ?_)
        obtain rfl : e = e' := by
          simpa [Link.wanted?, Link.expected?, Chain.enter, Step.body] using he
        exact ht _ (by simp [Step.openings, Step.body])
      · exact hin k' rfl (by simp [Rule.names, Step.body, Step.construct?]) hlt ht
    | .fork f, hr =>
      rw [openings_of_fork hr] at ht
      cases hc : f.choose t ahead with
      | none =>
        have hw : (c.enter k (.fork f)).top.wanted? t ahead = none := by
          simp [Link.wanted?, Link.expected?, Chain.enter, hc]
        exact .single (.giveUp rfl (by simp [hw]) (by simp [hw]))
      | some k' =>
        have ha := Fork.mem_answers_of_choose hc
        refine hin k' ?_ ha (depth_lt_of_mem_answers hr ha) fun m hm => ?_
        · simp [Link.wanted?, Link.expected?, Chain.enter, hc, Step.body]
        · exact ht m (List.mem_flatMap.2 ⟨k', ha, hm⟩)

/-- A step that a token does not begin is **given up**. -/
theorem falls_giveUp {s : Step} {t : Token} {ahead : List Char} (hc : c.top.cell = none)
    (hr : c.top.rule.isNone = false) (hw : c.top.wanted? t ahead = some s)
    (ho : isOrderly [s] = true) (hs : s.isBare = true) (ht : t.IsOutside s.openings) :
    Falls t ahead c c.giveUp := by
  cases s with
  | terminal e =>
    refine .single (.giveUp hr (by simp [hw]) fun e' he => ?_)
    obtain rfl : e = e' := by simpa [hw] using he
    exact ht _ (by simp [Step.openings, Step.body])
  | rule k =>
    have hk : k ≠ .document := Derives.ne_document_of_isOrderly ho
    cases hk' : standard k with
    | none =>
      have hne := (isOrderly_cons.1 ho).2.1
      obtain rfl | rfl := (standard_eq_none_iff k).1 hk' <;> exact absurd rfl hne
    | some r =>
      have hf : Falls t ahead _ _ := falls_giveUp_enter hk' hk ht c
      rw [giveUp_enter hc (isFlexible_enter hk' hk)] at hf
      exact hf.head (.enter hr hw hk')
  | optional | list | separated => cases hs

/-- Giving up at a link that may pass over its step goes on to the next one. -/
theorem giveUp_of_isFlexible {l : Link} {ps : List Link} (hf : l.isFlexible = true)
    (hsep : ∀ s sep, l.currentStep? = some (.separated s sep) → sep.isFlexible = false) :
    giveUp ⟨l, ps⟩ = unwind l.next ps := by
  have hr := rule_isNone_eq_false_of_isFlexible hf
  -- Backing out stops at this very link.
  have hb : backOut l ps = ⟨l, ps⟩ := by
    cases ps <;> simp [backOut, hf]
  rw [giveUp]
  dsimp only
  rw [hb]
  simp only [hr, Bool.false_eq_true, if_false]
  unfold Chain.advance
  split
  · rfl
  · next s sep hs =>
    simp only [hsep s sep hs, Bool.and_false, Bool.or_self, Bool.false_eq_true, if_false]
    rfl
  · rfl

/-- A step that may be passed over is **passed over** unless the next token begins what is
wanted. -/
theorem reads_nil_of_isFlexible {l : Link} {ps : List Link} {s : Step} (hl : Plain (l :: ps))
    (hf : l.isFlexible = true) (hw : ∀ t ahead, l.wanted? t ahead = some s)
    (ho : isOrderly [s] = true) (hs : s.isBare = true)
    (hsep : ∀ s sep, l.currentStep? = some (.separated s sep) → sep.isFlexible = false) :
    Reads ⟨l, ps⟩ [] rest s.openings (unwind l.next ps) := by
  refine ⟨⟨l, ps⟩, .nil, fun t ahead ht => ?_, fun hn => absurd hn (isOrderly_cons.1 ho).2.1⟩
  rw [← giveUp_of_isFlexible hf hsep]
  exact falls_giveUp (c := ⟨l, ps⟩) hl.head.2 (rule_isNone_eq_false_of_isFlexible hf) (hw t ahead)
    ho hs ht

end Chain

end QueryAssist
