import QueryAssist.Proofs.Chain.Regular

/-! # How soon a match ends

The budget of a match is only a means to define it: the match with a chain that readings lead to
ends by itself, after a number of moves that is linear in the depth of the chain. Main definition:

* **`Chain.readAll`** — the chain that some readings lead to.

Main statement: `match?_readAll`, more budget than the linear one changes nothing, and no construct
without a rule is met. -/

namespace QueryAssist

open Grammar

namespace Chain

variable {t : Token} {ahead : List Char} {c : Chain}

/-! ### More budget -/

/-- A match with an open chain that ends comes to the same with **more budget**. -/
theorem IsOpen.match?_eq_of_le {n m : Nat} (h : c.IsOpen)
    (hn : match? standard t ahead n c ≠ .exhausted) (hm : n ≤ m) :
    match? standard t ahead m c = match? standard t ahead n c := by
  -- The induction is on the smaller budget, of which both matches take one unit for each move.
  induction n generalizing m c with
  | zero => exact absurd rfl hn
  | succ n ih =>
    obtain ⟨m, rfl⟩ : ∃ k, m = k + 1 := ⟨m - 1, by omega⟩
    have hle : n ≤ m := by omega
    obtain ⟨e, ha⟩ | ⟨k, r, hk, hr, -, hv⟩ | hv := h.admits_or_move t ahead
    · rw [match?_of_admits ha, match?_of_admits ha]
    · rw [match?_of_move hv] at hn ⊢
      rw [match?_of_move hv]
      exact ih (h.enter hk hr) hn hle
    · rw [match?_of_move hv] at hn ⊢
      rw [match?_of_move hv]
      obtain hg | hg := h.giveUp
      -- The root ends a match at once, so it was seen by both.
      · rw [hg] at hn ⊢
        obtain ⟨n, rfl⟩ := Nat.exists_eq_succ_of_ne_zero (by rintro rfl; exact hn rfl : n ≠ 0)
        obtain ⟨m, rfl⟩ := Nat.exists_eq_succ_of_ne_zero (by omega : m ≠ 0)
        rw [match?_root, match?_root]
      · exact ih hg.toIsOpen hn hle

/-- A match with an open chain meets no construct without a rule, whatever the budget. -/
theorem IsOpen.match?_ne_unknownRule (h : c.IsOpen) (n : Nat) (k : RuleKind) (d : Chain) :
    match? standard t ahead n c ≠ .unknownRule k d := by
  intro hu
  obtain he | he | ⟨b, e, -, -, -, he⟩ := h.match?_cases t ahead n
  · rw [he] at hu
    cases hu
  · rw [he] at hu
    cases hu
  · rw [he] at hu
    cases hu

/-! ### How deep chains are -/

/-- Unwinding leaves no more links than there are. -/
theorem length_outer_unwind_le (t : Link) (ps : List Link) :
    (unwind t ps).outer.length ≤ ps.length := by
  by_cases hp : ps = []
  · subst hp
    simp [unwind]
  · rcases unwind_eq_or_length_lt t ps hp with h | h
    · exact Nat.le_of_eq (congrArg (fun c => c.outer.length) h)
    · exact Nat.le_of_lt h

/-- Advancing makes no chain deeper. -/
theorem length_outer_advance_le (c : Chain) (successful : Bool) :
    (c.advance successful).outer.length ≤ c.outer.length := by
  unfold advance
  split
  · split
    · exact Nat.le_refl _
    · apply length_outer_unwind_le
  · dsimp only
    split
    · exact Nat.le_refl _
    · apply length_outer_unwind_le
  · apply length_outer_unwind_le

/-- Settling makes no chain deeper. -/
theorem length_links_settle_le (c : Chain) : c.settle.links.length ≤ c.links.length := by
  simp only [links, List.length_cons, Nat.add_le_add_iff_right]
  unfold settle
  split
  · unfold leave
    split
    · exact Nat.zero_le _
    · next p ps hp =>
      rw [hp]
      simp
  · split
    · apply length_outer_advance_le
    · exact Nat.le_refl _

/-- The size of a chain is at most **linear** in its depth. -/
theorem size_le (c : Chain) : c.size ≤ 64 * c.links.length := by
  simp only [size, links, List.length_cons]
  omega

/-! ### Reading on -/

/-- The chain after **readings** of some streams, each with whatever text it has left. -/
def readAll (c : Chain) : List Stream → Chain
  | [] => c
  | s :: ss => readAll (Chain.read standard s c).chain ss

/-- Readings keep a chain regular. -/
theorem IsRegular.readAll (h : c.IsRegular) (ss : List Stream) : (c.readAll ss).IsRegular := by
  induction ss generalizing c with
  | nil => exact h
  | cons s ss ih =>
    apply ih
    exact (h.read s).1

end Chain

open Chain in
/-- **Every match ends**: after any readings from the start of a document, on streams with any text
left or none, the match of any token comes to one outcome, which is there after as many moves as 64
for each link of the chain and is the same with every larger number. Neither then nor before is a
construct without a rule met, and the next reading has a style, whatever it is of. -/
theorem match?_readAll (ss : List Stream) :
    let c := Chain.start.readAll ss
    (∀ (t : Token) (ahead : List Char),
      (∃ m, m ≠ .exhausted ∧
        ∀ n, 64 * c.links.length ≤ n → match? standard t ahead n c.settle = m) ∧
      ∀ n k d, match? standard t ahead n c.settle ≠ .unknownRule k d) ∧
    ∀ s, ∃ style, (Chain.read standard s c).style = .ok style := by
  intro c
  have hc : c.IsRegular := isRegular_start.readAll ss
  have ho : c.settle.IsOpen := hc.settle.toIsOpen
  have hle : c.settle.size ≤ 64 * c.links.length := by
    calc c.settle.size ≤ 64 * c.settle.links.length := size_le _
      _ ≤ 64 * c.links.length := Nat.mul_le_mul_left 64 (length_links_settle_le c)
  constructor
  · intro t ahead
    have he : Chain.match? standard t ahead (64 * c.links.length) c.settle ≠ .exhausted :=
      ho.ends t ahead _ hle
    refine ⟨⟨_, he, ?_⟩, ho.match?_ne_unknownRule⟩
    intro n hn
    exact ho.match?_eq_of_le he hn
  · intro s
    exact (hc.read s).2

end QueryAssist
