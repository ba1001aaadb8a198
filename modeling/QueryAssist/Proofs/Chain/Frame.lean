import Mathlib.Data.List.Basic
import QueryAssist.Proofs.Chain.Opening

/-! # Frames

A construct is read in the same way whatever stands around it, and no label is written further out
than the reach of what is left of it. Main definitions:

* **`Link.reach`** — how many links, from one out, what is left of its rule can give a label.
* **`Link.Continues D l`** — the link `l` is `D` at the same or a later place.
* **`Chain.Onward`** — some constructs are left, and the next one goes on.
* **`Chain.within`** — a chain with further links around it.
* **`Chain.GrowsFrom D c`** — the outermost link of `c` continues `D`.

Main statement: `Takes.within`, a token that is taken inside a construct is taken there within
further links, which stay as they are until the construct is left. -/

namespace QueryAssist

open Grammar Chain

/-! ### How far what is left of a rule reaches -/

namespace Grammar

/-- The reach of some steps is within a bound if that of each of them is. -/
theorem seqReach_le_iff {ss : List Step} {n : Nat} : seqReach ss ≤ n ↔ ∀ s ∈ ss, s.reach ≤ n := by
  induction ss with
  | nil => simp [seqReach]
  | cons s ss ih => rw [seqReach, Nat.max_le, ih, List.forall_mem_cons]

/-- No step of a rule reaches further than the rule. -/
theorem reach_le_seqReach {ss : List Step} {s : Step} (h : s ∈ ss) : s.reach ≤ seqReach ss :=
  seqReach_le_iff.1 (Nat.le_refl _) s h

/-- Fewer steps do not reach further. -/
theorem seqReach_mono {ss ts : List Step} (h : ss ⊆ ts) : seqReach ss ≤ seqReach ts :=
  seqReach_le_iff.2 fun _ hs => reach_le_seqReach (h hs)

/-- A separator reaches no further than its list. -/
theorem reach_le_of_separator? {s sep : Step} (h : s.separator? = some sep) :
    sep.reach ≤ s.reach := by
  cases s with
  | separated s sep' =>
    obtain rfl : sep' = sep := Option.some.inj h
    exact Nat.le_max_right _ _
  | _ => cases h

end Grammar

namespace Link

/-- The **reach** of a link: the number of links, from itself out, that what is left of its rule can
give a label. -/
def reach (l : Link) : Nat :=
  match l.rule with
  | some (.steps ss) => seqReach (ss.drop l.step)
  | some (.fork f) => seqReach (f.answers.map .rule)
  | none => 0

variable {l m D : Link} {k : RuleKind} {r : Rule}

/-- The reach of a link is that of the steps from its place on. -/
theorem reach_of_steps {ss : List Step} (h : l.rule = some (.steps ss)) :
    l.reach = seqReach (ss.drop l.step) := by
  simp [reach, h]

/-- A step that is next reaches no further than the link. -/
theorem reach_le_of_getElem? {ss : List Step} {s : Step} (h : l.rule = some (.steps ss))
    (hs : ss[l.step]? = some s) : s.reach ≤ l.reach := by
  rw [reach_of_steps h]
  refine reach_le_seqReach (List.mem_of_getElem? (i := 0) ?_)
  rw [List.getElem?_drop, Nat.add_zero, hs]

/-- A construct that is named reaches no further than the link that names it. -/
theorem reach_le_of_names (h : l.Names k) : k.reach ≤ l.reach := by
  obtain ⟨r, hr, hk⟩ := h
  cases r with
  | fork f =>
    simp only [reach, hr]
    exact reach_le_seqReach (List.mem_map_of_mem (f := Step.rule) hk)
  | steps ss =>
    obtain ⟨s, hs, hk⟩ : ∃ s, ss[l.step]? = some s ∧ s.body.construct? = some k := by
      simpa [Rule.namesAt, Option.bind_eq_some_iff] using hk
    have hb : s.body = .rule k := by
      cases hb : s.body with
      | rule k' =>
        rw [hb] at hk
        rw [Option.some.inj hk]
      | _ => rw [hb] at hk; cases hk
    calc k.reach
      _ = s.body.reach := by rw [hb]; rfl
      _ ≤ s.reach := s.reach_body_le
      _ ≤ l.reach := reach_le_of_getElem? hr hs

/-- What is left of a construct reaches at most one link further than the construct. -/
theorem IsLive.reach_le (h : l.IsLive k r) : l.reach ≤ k.reach + 1 := by
  cases r with
  | fork f =>
    simp only [reach, h.rule]
    refine seqReach_le_iff.2 fun s hs => ?_
    obtain ⟨k', hk', rfl⟩ := List.mem_map.1 hs
    exact reach_le_of_mem_answers h.standard hk'
  | steps ss =>
    rw [reach_of_steps h.rule]
    exact Nat.le_trans (seqReach_mono (List.drop_subset _ _)) (seqReach_le h.standard)

/-- The label of a token that is wanted reaches no further than the link that wants it. -/
theorem IsLive.trace_reach_le {t : Token} {ahead : List Char} {e : Terminal} (h : l.IsLive k r)
    (hw : l.wanted? t ahead = some (.terminal e)) : e.trace.reach ≤ l.reach := by
  cases r with
  | fork f => exact absurd hw (wanted?_ne_terminal_of_fork h e)
  | steps ss =>
    -- The token stands for the step that is next or for its separator.
    obtain ⟨s, s', hs, hle, hb⟩ : ∃ s s' : Step, ss[l.step]? = some s ∧ s'.reach ≤ s.reach ∧
        s'.body = .terminal e := by
      simp only [wanted?, expected?, h.rule, Option.map_eq_some_iff] at hw
      obtain ⟨s', hs', hb⟩ := hw
      split at hs'
      · obtain ⟨s, hs, hsep⟩ := Option.bind_eq_some_iff.1 hs'
        exact ⟨s, s', hs, reach_le_of_separator? hsep, hb⟩
      · exact ⟨s', s', hs', Nat.le_refl _, hb⟩
    calc e.trace.reach
      _ = s'.body.reach := by rw [hb]; rfl
      _ ≤ s'.reach := s'.reach_body_le
      _ ≤ s.reach := hle
      _ ≤ l.reach := reach_le_of_getElem? h.rule hs

/-! ### Later places -/

/-- A construct that is taken up again is at the same or a later place. -/
theorem exists_resume_eq_place (l : Link) : ∃ i b, l.step ≤ i ∧ l.resume = l.place i b := by
  unfold resume
  split
  · exact ⟨_, _, Nat.le_refl _, rfl⟩
  · split
    · exact ⟨_, _, Nat.le_refl _, rfl⟩
    · exact ⟨_, _, Nat.le_refl _, rfl⟩
    · exact ⟨_, _, Nat.le_succ _, rfl⟩

/-- A link **continues** another one if it is at the same or a later place of its rule, with the
same labels unless what was left there could give it one. -/
structure Continues (D l : Link) : Prop where
  kind : l.kind = D.kind
  rule : l.rule = D.rule
  step : D.step ≤ l.step
  labels : D.reach = 0 → l.name = D.name ∧ l.type = D.type

namespace Continues

/-- Each link continues itself. -/
theorem refl (D : Link) : D.Continues D := ⟨rfl, rfl, Nat.le_refl _, fun _ => ⟨rfl, rfl⟩⟩

/-- A later place of the same rule continues a link as well. -/
theorem place (h : D.Continues l) {i : Nat} (hi : l.step ≤ i) (b : Bool) :
    D.Continues (l.place i b) :=
  ⟨h.kind, h.rule, Nat.le_trans h.step hi, h.labels⟩

/-- So do other labels, if what was left of the rule could give a label. -/
theorem relabel (h : D.Continues l) (hr : D.reach ≠ 0) (n t : Option String) :
    D.Continues (l.relabel n t) :=
  ⟨h.kind, h.rule, h.step, fun hz => absurd hz hr⟩

/-- Later on less is left that reaches out. -/
theorem reach_le (h : D.Continues l) : l.reach ≤ D.reach := by
  unfold reach
  rw [h.rule]
  split
  · exact seqReach_mono (List.drop_subset_drop_left _ h.step)
  · exact Nat.le_refl _
  · exact Nat.le_refl _

end Continues

end Link

/-- Each link around another one adds at most one to its reach. -/
theorem Nested.reach_le {ms ps : List Link} {D l : Link} (h : Nested (ms ++ D :: ps))
    (hl : l ∈ (ms ++ [D]).head?) : l.reach ≤ D.reach + ms.length := by
  -- Induction on the links inside: one more of them reaches at most one further.
  induction ms generalizing l with
  | nil =>
    obtain rfl : D = l := Option.some.inj hl
    exact Nat.le_refl _
  | cons m ms ih =>
    obtain rfl : m = l := Option.some.inj hl
    obtain ⟨p, ls, hp⟩ : ∃ p ls, ms ++ D :: ps = p :: ls :=
      List.exists_cons_of_ne_nil (by simp)
    -- The hypothesis is for the next link around, whether it is `D` itself or one of `ms`.
    have hhead : p ∈ (ms ++ [D]).head? := by
      cases ms with
      | nil => exact congrArg some (List.cons.inj hp).1
      | cons q ms => exact congrArg some (List.cons.inj hp).1
    rw [List.cons_append, hp] at h
    cases h with
    | document hl =>
      have hone : m.reach ≤ 1 := hl.reach_le
      rw [List.length_cons]
      omega
    | inside hl hn hs =>
      calc m.reach
        _ ≤ _ := hl.reach_le
        _ ≤ p.reach + 1 := Nat.succ_le_succ (Link.reach_le_of_names hn)
        _ ≤ D.reach + (m :: ms).length := Nat.succ_le_succ (ih (hp ▸ hs) hhead)

/-- Of links that are alike the outermost ones differ at most in their labels. -/
theorem Alike.outermost {n : Nat} {ls ms : List Link} {l : Link} (h : Alike n ls ms)
    (hl : l ∈ ls.getLast?) :
    ∃ a t, l.relabel a t ∈ ms.getLast? ∧ (n < ls.length → l.relabel a t = l) := by
  induction h with
  | refl => exact ⟨l.name, l.type, hl, fun _ => rfl⟩
  | @relabel n ls ms m a t h ih =>
    cases h with
    | refl =>
      cases ls with
      | nil =>
        obtain rfl : m = l := Option.some.inj hl
        exact ⟨a, t, rfl, fun hlt => absurd hlt (by simp)⟩
      | cons p ls => exact ⟨l.name, l.type, List.getLast?_cons_cons.trans hl, fun _ => rfl⟩
    | relabel p a' t' h =>
      obtain ⟨a'', t'', hm, he⟩ := ih (by simpa using hl)
      refine ⟨a'', t'', by simpa using hm, fun hlt => he ?_⟩
      simpa using hlt

/-- A link that is taken up again has nothing due. -/
theorem Plain.resume {l : Link} {ls : List Link} (h : Plain (l :: ls)) :
    Plain (l.resume :: ls) := by
  obtain ⟨i, b, -, he⟩ := l.exists_resume_eq_place
  rw [he]
  exact h.place i b

namespace Chain

variable {c d e : Chain} {D l t p : Link} {ls ps : List Link}

/-! ### Going onward -/

/-- A chain goes **onward** to another one if some of its innermost constructs are left and the next
one is at the same or a later place. -/
def Onward (c d : Chain) : Prop :=
  ∃ us l ls i b, c.links = us ++ l :: ls ∧ l.step ≤ i ∧ d = ⟨l.place i b, ls⟩

/-- A later place of the same construct lies onward. -/
theorem onward_place {i : Nat} (hi : l.step ≤ i) (b : Bool) : Onward ⟨l, ls⟩ ⟨l.place i b, ls⟩ :=
  ⟨[], l, ls, i, b, rfl, hi, rfl⟩

/-- Each chain goes onward to itself. -/
theorem Onward.refl (c : Chain) : Onward c c := onward_place (Nat.le_refl c.top.step) _

/-- Going onward twice is going onward. -/
theorem Onward.trans (h : Onward c d) (h' : Onward d e) : Onward c e := by
  obtain ⟨us, l, ls, i, b, hc, hi, rfl⟩ := h
  obtain ⟨us', l', ls', i', b', hd, hi', rfl⟩ := h'
  cases us' with
  | nil =>
    obtain ⟨rfl, rfl⟩ := List.cons.inj hd
    exact ⟨us, l, ls, i', b', hc, Nat.le_trans hi hi', rfl⟩
  | cons u us' =>
    obtain ⟨-, rfl⟩ := List.cons.inj hd
    exact ⟨us ++ l :: us', l', ls', i', b', by simp [hc], hi', rfl⟩

/-- To leave the innermost construct is to go onward. -/
theorem Onward.of_tail (h : Onward ⟨p, ps⟩ d) (t : Link) : Onward ⟨t, p :: ps⟩ d := by
  obtain ⟨us, l, ls, i, b, hc, hi, rfl⟩ := h
  exact ⟨t :: us, l, ls, i, b, congrArg (List.cons t) hc, hi, rfl⟩

/-- Nothing becomes due on the way onward. -/
theorem Onward.plain (h : Onward c d) (hc : Plain c.links) : Plain d.links := by
  obtain ⟨us, l, ls, i, b, he, -, rfl⟩ := h
  have hp : Plain (l :: ls) := fun m hm => hc m (he ▸ List.mem_append_right us hm)
  exact hp.place i b

/-- Every link onward was there before, at an earlier place perhaps. -/
theorem Onward.exists_mem (h : Onward c d) (hl : l ∈ d.links) :
    ∃ m ∈ c.links, ∃ i b, l = m.place i b := by
  obtain ⟨us, m, ls, i, b, he, -, rfl⟩ := h
  rw [he]
  rcases List.mem_cons.1 hl with rfl | hl
  · exact ⟨m, by simp, i, b, rfl⟩
  · exact ⟨l, by simp [hl], l.step, l.needsSeparator, rfl⟩

/-- **Unwinding** goes onward unless every construct is left. -/
theorem onward_unwind (h : Plain (t :: ps)) :
    (unwind t ps).top.rule.isNone = true ∨ Onward ⟨t, ps⟩ (unwind t ps) := by
  induction ps generalizing t with
  | nil =>
    by_cases ht : t.isComplete = true
    · simp [unwind, ht, Link.vacate]
    · rw [unwind_eq_self (Bool.eq_false_iff.2 ht)]
      exact .inr (.refl _)
  | cons p ps ih =>
    by_cases ht : t.isComplete = true
    · rw [unwind_cons ht h.head.1 h.tail]
      refine (ih h.tail.resume).imp id fun ho => ?_
      obtain ⟨i, b, hi, he⟩ := p.exists_resume_eq_place
      rw [he] at ho ⊢
      exact ((onward_place hi b).trans ho).of_tail t
    · rw [unwind_eq_self (Bool.eq_false_iff.2 ht)]
      exact .inr (.refl _)

/-- So does **advancing**. -/
theorem onward_advance (h : Plain c.links) (successful : Bool) :
    (c.advance successful).top.rule.isNone = true ∨ Onward c (c.advance successful) := by
  have hstep : ∀ d : Chain, Plain d.links → Onward c d →
      d.stepOn.top.rule.isNone = true ∨ Onward c d.stepOn := by
    intro d hd ho
    have hnext : Onward d ⟨d.top.place (d.top.step + 1) false, d.outer⟩ :=
      onward_place (Nat.le_succ _) false
    exact (onward_unwind (hnext.plain hd)).imp id (ho.trans hnext).trans
  have hturn : Onward c ⟨c.top.place c.top.step (!c.top.needsSeparator), c.outer⟩ :=
    onward_place (Nat.le_refl _) _
  unfold Chain.advance
  split
  · split
    · exact .inr (.refl _)
    · exact hstep c h (.refl _)
  · dsimp only
    split
    · exact .inr hturn
    · exact hstep _ (hturn.plain h) hturn
  · exact hstep c h (.refl _)

/-- **Backing out** goes onward unless every construct is left. -/
theorem onward_backOut (h : Plain (t :: ps)) :
    (backOut t ps).top.rule.isNone = true ∨ Onward ⟨t, ps⟩ (backOut t ps) := by
  induction ps generalizing t with
  | nil =>
    unfold backOut
    split
    · exact .inr (.refl _)
    · exact .inl rfl
  | cons p ps ih =>
    unfold backOut
    split
    · exact .inr (.refl _)
    · rw [h.head.1, h.tail.release_eq]
      exact (ih h.tail).imp id (·.of_tail t)

/-- So does **giving up**. -/
theorem onward_giveUp (h : Plain c.links) :
    c.giveUp.top.rule.isNone = true ∨ Onward c c.giveUp := by
  have hback : _ ∨ Onward c (backOut c.top c.outer) := onward_backOut h
  unfold Chain.giveUp
  dsimp only
  split
  · next hr => exact .inl hr
  · next hr =>
    have ho := hback.resolve_left hr
    exact (onward_advance (ho.plain h) false).imp id ho.trans

/-! ### Links around a chain -/

/-- The chain **within** further links. -/
def within (c : Chain) (ps : List Link) : Chain := ⟨c.top, c.outer ++ ps⟩

/-- Further links around a chain leave its innermost one. -/
@[simp] theorem top_within (c : Chain) (ps : List Link) : (c.within ps).top = c.top := rfl

/-- They come after all links of the chain. -/
@[simp] theorem links_within (c : Chain) (ps : List Link) :
    (c.within ps).links = c.links ++ ps := rfl

/-- Within further links the same constructs are left, unless all of them are. -/
theorem unwind_within (h : (unwind t ls).top.rule.isNone = false) (ps : List Link) :
    unwind t (ls ++ ps) = (unwind t ls).within ps := by
  induction ls generalizing t with
  | nil =>
    by_cases ht : t.isComplete = true
    · simp [unwind, ht, Link.vacate] at h
    · rw [unwind_eq_self (Bool.eq_false_iff.2 ht), List.nil_append,
        unwind_eq_self (Bool.eq_false_iff.2 ht)]
      rfl
  | cons p ls ih =>
    by_cases ht : t.isComplete = true
    · rw [unwind_of_isComplete ht] at h
      rw [List.cons_append, unwind_of_isComplete ht, unwind_of_isComplete ht]
      exact ih h
    · rw [unwind_eq_self (Bool.eq_false_iff.2 ht), unwind_eq_self (Bool.eq_false_iff.2 ht)]
      rfl

/-- When all of them are left the next link is taken up again. -/
theorem unwind_within_or (h : Plain (t :: (ls ++ p :: ps))) :
    unwind t (ls ++ p :: ps) = (unwind t ls).within (p :: ps) ∨
      unwind t (ls ++ p :: ps) = unwind p.resume ps := by
  induction ls generalizing t with
  | nil =>
    by_cases ht : t.isComplete = true
    · exact .inr (unwind_cons ht h.head.1 h.tail)
    · rw [List.nil_append, unwind_eq_self (Bool.eq_false_iff.2 ht),
        unwind_eq_self (Bool.eq_false_iff.2 ht)]
      exact .inl rfl
  | cons q ls ih =>
    by_cases ht : t.isComplete = true
    · have hq : Plain (q :: (ls ++ p :: ps)) := h.tail
      have hq' : Plain (q :: ls) := fun l hl =>
        hq l (List.cons_subset_cons q (List.subset_append_left _ _) hl)
      rw [List.cons_append, unwind_cons ht h.head.1 hq, unwind_cons ht h.head.1 hq']
      exact ih hq.resume
    · rw [unwind_eq_self (Bool.eq_false_iff.2 ht), unwind_eq_self (Bool.eq_false_iff.2 ht)]
      exact .inl rfl

/-- **An advance stays within** the chain, whatever is around it, if it does not leave the root. -/
theorem advance_within {successful : Bool} (h : (c.advance successful).top.rule.isNone = false)
    (ps : List Link) : (c.within ps).advance successful = (c.advance successful).within ps := by
  unfold Chain.advance at h ⊢
  rw [top_within]
  -- The cases are those of the definition; where the chain is unwound, it is not left.
  split
  · next hs =>
    simp only [hs] at h
    split
    · rfl
    · next hf =>
      rw [if_neg hf] at h
      exact unwind_within h ps
  · next hs =>
    simp only [hs] at h ⊢
    split
    · rfl
    · next hf =>
      rw [if_neg hf] at h
      exact unwind_within h ps
  · next hl hs =>
    split at h
    · next he => exact absurd he (hl _)
    · next he => exact absurd he (hs _ _)
    · exact unwind_within h ps

/-- So does the way back to a step that may be passed over. -/
theorem backOut_within (h : (backOut t ls).top.rule.isNone = false) (ps : List Link) :
    backOut t (ls ++ ps) = (backOut t ls).within ps := by
  -- A link that may pass over its step ends the search, whatever is around it.
  have hstop : ∀ {l : Link} (qs : List Link), (l.rule.isNone || l.isFlexible) = true →
      backOut l qs = ⟨l, qs⟩ := by
    intro l qs hl
    cases qs <;> simp only [backOut, if_pos hl]
  induction ls generalizing t with
  | nil =>
    by_cases ht : (t.rule.isNone || t.isFlexible) = true
    · rw [hstop _ ht, hstop _ ht]
      rfl
    · rw [backOut, if_neg ht] at h
      cases h
  | cons p ls ih =>
    by_cases ht : (t.rule.isNone || t.isFlexible) = true
    · rw [hstop _ ht, hstop _ ht]
      rfl
    · rw [backOut, if_neg ht] at h
      rw [List.cons_append, backOut, if_neg ht, backOut, if_neg ht]
      exact ih h

/-- Within further links the same step is **given up**, unless nothing else is left. -/
theorem giveUp_within (h : c.giveUp.top.rule.isNone = false) (ps : List Link) :
    (c.within ps).giveUp = c.giveUp.within ps := by
  unfold Chain.giveUp at h ⊢
  dsimp only at h ⊢
  have hback : (backOut c.top c.outer).top.rule.isNone = false := by
    by_cases hr : (backOut c.top c.outer).top.rule.isNone = true
    · rw [if_pos hr] at h
      exact h
    · exact Bool.eq_false_iff.2 hr
  rw [if_neg (by simp [hback])] at h
  have hwithin : backOut (c.within ps).top (c.within ps).outer =
      (backOut c.top c.outer).within ps := backOut_within hback ps
  rw [hwithin, top_within, if_neg (by simp [hback]), if_neg (by simp [hback])]
  exact advance_within h ps

/-! ### What stands outermost -/

/-- A chain **grows from** a link if its outermost link continues that one. -/
def GrowsFrom (D : Link) (c : Chain) : Prop := ∃ l ∈ c.links.getLast?, D.Continues l

/-- A chain in which a construct is entered grows from the same link. -/
theorem GrowsFrom.enter (h : c.GrowsFrom D) (k : RuleKind) (r : Rule) :
    (c.enter k r).GrowsFrom D := by
  obtain ⟨l, hl, hd⟩ := h
  exact ⟨l, List.getLast?_cons_cons.trans hl, hd⟩

/-- Going onward keeps the outermost link. -/
theorem GrowsFrom.onward (h : c.GrowsFrom D) (ho : Onward c d) : d.GrowsFrom D := by
  obtain ⟨m, hm, hd⟩ := h
  obtain ⟨us, l, ls, i, b, he, hi, rfl⟩ := ho
  rw [he, List.getLast?_append_of_ne_nil us (List.cons_ne_nil l ls)] at hm
  cases ls with
  | nil =>
    obtain rfl : l = m := Option.some.inj hm
    exact ⟨_, rfl, hd.place hi b⟩
  | cons p ls =>
    rw [List.getLast?_cons_cons] at hm
    exact ⟨m, List.getLast?_cons_cons.trans hm, hd⟩

/-- A label that does not reach past the outermost link keeps it. -/
theorem GrowsFrom.record (h : c.GrowsFrom D) {tr : Trace}
    (hr : tr.reach + 1 ≤ D.reach + c.links.length) (text : String) :
    (c.record tr text).GrowsFrom D := by
  obtain ⟨l, hl, hd⟩ := h
  obtain ⟨a, t, hm, he⟩ := (alike_record c tr text).outermost hl
  refine ⟨_, hm, ?_⟩
  by_cases hz : D.reach = 0
  · rw [he (by omega)]
    exact hd
  · exact hd.relabel hz a t

/-- What a token leaves behind stays within the chain if it reaches no further. -/
theorem record_within {tr : Trace} (h : tr.reach ≤ c.links.length) (text : String)
    (ps : List Link) : (c.within ps).record tr text = (c.record tr text).within ps := by
  obtain ⟨t, ls⟩ := c
  cases tr with
  | none | name => rfl
  | type =>
    match ls with
    | [] | [_] => exact absurd h (by simp [Trace.reach])
    | _ :: _ :: _ => rfl

/-! ### Runs within further links -/

variable {tok : Token} {ahead : List Char} {x : SpacedToken} {w rest : List SpacedToken}

/-- Only a chain that is in some construct moves. -/
theorem Move.rule_isNone_eq_false (h : Move tok ahead c d) : c.top.rule.isNone = false := by
  cases h with
  | enter hc | giveUp hc => exact hc

/-- A **move** is made within further links too, unless everything else is given up. -/
theorem Move.within (h : Move tok ahead c d) (hd : d.top.rule.isNone = false) (ps : List Link) :
    Move tok ahead (c.within ps) (d.within ps) := by
  cases h with
  | enter hc hw hr => exact .enter (c := c.within ps) hc hw hr
  | giveUp hc hk he =>
    rw [← giveUp_within hd ps]
    exact .giveUp (c := c.within ps) hc hk he

/-- **A move keeps the link** that a chain grows from, unless it leaves that too. -/
theorem Move.growsFrom (h : Move tok ahead c d) (hp : Plain c.links) (hc : c.GrowsFrom D)
    (hd : d.top.rule.isNone = false) : d.GrowsFrom D := by
  cases h with
  | enter => exact hc.enter _ _
  | giveUp =>
    refine hc.onward ((onward_giveUp hp).resolve_left ?_)
    simp [hd]

/-- So are **some moves** that do not leave everything. -/
theorem Falls.within (h : Falls tok ahead c d) (hd : d.top.rule.isNone = false)
    (ho : (c.within ps).IsOpen) (hc : c.GrowsFrom D) :
    Falls tok ahead (c.within ps) (d.within ps) ∧ (d.within ps).IsOpen ∧ d.GrowsFrom D := by
  induction h with
  | refl => exact ⟨.refl, ho, hc⟩
  | @tail d e _ hm ih =>
    obtain ⟨hf, hod, hcd⟩ := ih hm.rule_isNone_eq_false
    have hp : Plain d.links := fun l hl => hod.plain l (List.mem_append_left ps hl)
    have hf := hf.tail (hm.within hd ps)
    refine ⟨hf, (ho.of_falls hf).resolve_left fun hr => ?_, hm.growsFrom hp hcd hd⟩
    rw [← top_within e ps, hr] at hd
    cases hd

/-- What reaches out of the innermost link reaches at most as far as the links and what is left of
the outermost one. -/
theorem GrowsFrom.reach_top_lt (h : c.GrowsFrom D) (hn : Nested (c.within ps).links) :
    c.top.reach < D.reach + c.links.length := by
  obtain ⟨l, hl, hd⟩ := h
  obtain ⟨ms, hms⟩ := List.getLast?_eq_some_iff.1 hl
  have hlen : c.links.length = ms.length + 1 := by rw [hms, List.length_append]; rfl
  rw [links_within, hms, List.append_assoc] at hn
  have hle : c.top.reach ≤ l.reach + ms.length := hn.reach_le (by rw [← hms]; rfl)
  have := hd.reach_le
  omega

/-- An open chain is settled once it has taken a token. -/
theorem Takes.isSettled {a : List Char} (hc : c.IsOpen) (h : Takes x a c d) : d.IsSettled := by
  obtain ⟨b, e, hf, ha, rfl⟩ := h
  have hb := (hc.of_falls hf).resolve_left ha.ne_root
  exact (hb.isSettled_record ha.wanted _).advance

/-- Within further links an **advance** goes on inside, or everything inside is left and the next
link is taken up again. -/
theorem IsSettled.advance_within_cases (h : (c.within (p :: ps)).IsSettled) (hc : c.GrowsFrom D) :
    ((c.within (p :: ps)).advance true = (c.advance true).within (p :: ps) ∧
      (c.advance true).GrowsFrom D) ∨
    ((c.advance true).top.rule.isNone = true ∧
      (c.within (p :: ps)).advance true = unwind p.resume ps) := by
  have hplain : Plain (c.within (p :: ps)).links := h.toIsOpen.plain
  by_cases hd : (c.advance true).top.rule.isNone = true
  · refine .inr ⟨hd, ?_⟩
    obtain ⟨ss, hs⟩ := h.steps
    rw [top_within] at hs
    have hr : c.top.rule.isNone = false := by
      rw [hs]
      rfl
    have hadv : c.advance true = unwind c.top.resume c.outer := advance_true_eq hr
    have hadv' : (c.within (p :: ps)).advance true =
        unwind c.top.resume (c.outer ++ p :: ps) := advance_true_eq hr
    rw [hadv']
    refine (unwind_within_or hplain.resume).resolve_left fun he => ?_
    rw [top_within] at he
    -- A settled chain stays settled, so it is not the inside alone that is left.
    obtain ⟨ss, hs⟩ := h.advance.steps
    rw [hadv', he, ← hadv, top_within] at hs
    rw [hs] at hd
    cases hd
  · have hd := Bool.eq_false_iff.2 hd
    refine .inl ⟨advance_within hd _, hc.onward ((onward_advance ?_ true).resolve_left ?_)⟩
    · exact fun l hl => hplain l (List.mem_append_left _ hl)
    · simp [hd]

/-- A token that is **taken** inside a construct is taken there within further links. If it
completes the construct, the link around it is taken up again. -/
theorem Takes.within {a : List Char} (h : Takes x a c d) (ho : (c.within (p :: ps)).IsOpen)
    (hc : c.GrowsFrom D) (hD : D.reach ≤ 1) :
    (Takes x a (c.within (p :: ps)) (d.within (p :: ps)) ∧ d.GrowsFrom D) ∨
      (d.top.rule.isNone = true ∧ Takes x a (c.within (p :: ps)) (unwind p.resume ps)) := by
  obtain ⟨b, e, hf, ha, rfl⟩ := h
  obtain ⟨hf, hob, hb⟩ := hf.within ha.rule ho hc
  obtain ⟨k, r, hl⟩ := hob.isLive_top
  -- No label is written on a link outside, and none on a link that what is left of it cannot reach.
  have hreach : e.trace.reach + 1 ≤ D.reach + b.links.length :=
    Nat.lt_of_le_of_lt (hl.trace_reach_le ha.wanted) (hb.reach_top_lt hob.nested)
  have hrec : (b.within (p :: ps)).record e.trace x.token.text =
      (b.record e.trace x.token.text).within (p :: ps) := record_within (by omega) _ _
  have hadm : Admits x.token a (b.within (p :: ps)) e := ⟨ha.rule, ha.wanted, ha.accepts⟩
  have htakes : Takes x a (c.within (p :: ps))
      (((b.record e.trace x.token.text).within (p :: ps)).advance true) :=
    ⟨_, e, hf, hadm, by rw [hrec]⟩
  have hset : ((b.record e.trace x.token.text).within (p :: ps)).IsSettled :=
    hrec ▸ hob.isSettled_record hadm.wanted x.token.text
  obtain ⟨he, hm⟩ | ⟨hm, he⟩ := hset.advance_within_cases (hb.record hreach x.token.text)
  · exact .inl ⟨he ▸ htakes, hm⟩
  · exact .inr ⟨hm, he ▸ htakes⟩

/-- Only a chain that is in some construct takes a token. -/
theorem Takes.rule_isNone_eq_false {a : List Char} (h : Takes x a c d) :
    c.top.rule.isNone = false := by
  obtain ⟨b, e, hf, ha, -⟩ := h
  obtain rfl | ⟨d, hm, -⟩ := Relation.ReflTransGen.cases_head hf
  · exact ha.rule
  · exact hm.rule_isNone_eq_false

/-- What completes a construct is taken inside it with nothing around it. -/
theorem exists_takesAll_opened {k : RuleKind} {ks ss : List Step} {s : Step} {i : Nat}
    (hk : standard k = some (.steps ks)) (hd : ks.drop i = s :: ss) (h : Derives (s :: ss) w)
    (he : allExtensions (s :: ss) = []) (hw : LaidOut (w ++ rest)) (n t : Option String) :
    ∃ d, TakesAll rest ⟨.opened k i n t, []⟩ w d ∧ d.top.rule.isNone = true := by
  have ho : isOrderly (s :: ss) = true := hd ▸ isOrderly_drop (isOrderly_of_standard hk) i
  have hlink : (Link.opened k i n t).rule = some (.steps ks) := hk
  have hplain : Plain [Link.opened k i n t] := by
    intro l hl
    obtain rfl := List.mem_singleton.1 hl
    exact ⟨rfl, rfl⟩
  obtain ⟨l, ls, ha, b, hr, -, hb⟩ := h.passes ho _ [] rest ks [] i hlink (by simpa using hd)
    hplain hw (he ▸ follows_nil rest)
  obtain ⟨a, u, rfl⟩ := ha.head
  obtain rfl : ls = [] := (ha.mono (Nat.le_succ _)).tail.eq_nil
  have hbegin : unwind ((Link.opened k i n t).place i false) [] = ⟨.opened k i n t, []⟩ :=
    unwind_place hlink hd false
  rw [hbegin] at hr
  refine ⟨b, hr, ?_⟩
  -- The steps were the last ones of the construct.
  have hlen : ks.length ≤ i + (s :: ss).length := by
    have := congrArg List.length hd
    rw [List.length_drop] at this
    omega
  have hcomplete : (((Link.opened k i n t).relabel a u).place (i + (s :: ss).length)
      false).isComplete = true := by
    simpa [Link.isComplete, Link.place, Link.relabel, hlink, Rule.length] using hlen
  rw [hb he, unwind, if_pos hcomplete]
  rfl

end Chain

end QueryAssist
