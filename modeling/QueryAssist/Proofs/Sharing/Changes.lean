import QueryAssist.Proofs.Sharing.Cells

/-! # What a change takes over

A change of a chain leaves some of its links and enters new ones. The links that it still holds keep
their cells, and only new links have none. Main definitions:

* **`Chain.LeftOver`** — what may become of the cells of a chain.
* **`Chain.TakesOver`** — a chain and the one that it was changed from.

Main statements: `Chain.takesOver_read`, on tokens, and one such statement for each other change. -/

namespace QueryAssist

namespace Chain

/-- The cells of the links around the innermost one. -/
def cells (c : Chain) : List (Option Nat) := c.outer.map Link.cell

/-- Cells that are **left over** of some after links were left and new ones entered. -/
inductive LeftOver (is : List (Option Nat)) : List (Option Nat) → Prop
  /-- Nothing was left or entered. -/
  | refl : LeftOver is is
  /-- The innermost of the links was left. -/
  | leave {i : Option Nat} {js : List (Option Nat)} (h : LeftOver is (i :: js)) : LeftOver is js
  /-- A link was put around a new one. -/
  | enter {js : List (Option Nat)} (h : LeftOver is js) : LeftOver is (none :: js)

variable {is js ks : List (Option Nat)} {n : Nat}

/-- What is left over of what is left over is so of the whole. -/
theorem LeftOver.trans (h : LeftOver is js) (hk : LeftOver js ks) : LeftOver is ks := by
  induction hk with
  | refl => exact h
  | leave _ ih => exact ih.leave
  | enter _ ih => exact ih.enter

/-- No cell is made up. -/
theorem LeftOver.mem {i : Nat} (h : LeftOver is js) (hi : some i ∈ js) : some i ∈ is := by
  induction h with
  | refl => exact hi
  | leave _ ih => exact ih (List.mem_cons_of_mem _ hi)
  | enter _ ih => exact ih (by simpa using hi)

/-- Links that are placed around each other stay so. -/
theorem LeftOver.placed (h : LeftOver is js) (hp : Held.Placed n is) : Held.Placed n js := by
  induction h with
  | refl => exact hp
  | leave _ ih => exact ih.tail
  | enter _ ih => exact .new ih

/-- A chain **takes over** from another one if it has left some of its links and entered new ones.
What it still holds may have changed in all but the cell. -/
structure TakesOver (d c : Chain) : Prop where
  top : d.top.cell = none
  outer : LeftOver c.cells d.cells

variable {c d e : Chain} {l : Link} {ls : List Link} {g : Grammar}

theorem TakesOver.refl (h : c.top.cell = none) : c.TakesOver c := ⟨h, .refl⟩

/-- A chain takes over from the one that was taken over from before. -/
theorem TakesOver.trans (h : e.TakesOver d) (hd : d.TakesOver c) : e.TakesOver c :=
  ⟨h.top, hd.outer.trans h.outer⟩

/-- A chain with other data in its innermost link. -/
theorem TakesOver.of_outer (hd : d.top.cell = none) (ho : d.cells = c.cells) : d.TakesOver c :=
  ⟨hd, ho ▸ .refl⟩

/-- Entering a construct puts a new link inside the ones that there are. -/
theorem takesOver_enter (h : c.top.cell = none) (k : RuleKind) (r : Rule) :
    (c.enter k r).TakesOver c := by
  have ho : (c.enter k r).cells = none :: c.cells := by
    rw [cells, outer_enter, List.map_cons, h, cells]
  exact ⟨rfl, ho ▸ .enter .refl⟩

/-- A chain whose innermost link is left. -/
theorem TakesOver.of_tail (hd : d.top.cell = none) (ho : c.outer = l :: d.outer) :
    d.TakesOver c := by
  refine ⟨hd, ?_⟩
  rw [cells, ho, List.map_cons]
  exact .leave .refl

/-- Leaving a construct goes on in the link around it, which loses its cell. -/
theorem takesOver_leave (h : c.top.cell = none) : c.leave.TakesOver c := by
  unfold leave
  split
  · next ho => exact .of_outer h (by rw [cells, cells, ho])
  · next ho => exact .of_tail rfl ho

/-- Whether a link was advanced has nothing to do with its cell. -/
theorem cell_resume (l : Link) : l.resume.cell = l.cell := by
  unfold Link.resume
  split
  · rfl
  · split <;> rfl

/-- Leaving every construct that is done takes over from the chain before. -/
theorem takesOver_unwind (h : l.cell = none) (ls : List Link) :
    (unwind l ls).TakesOver ⟨l, ls⟩ := by
  induction ls generalizing l with
  | nil =>
    rw [unwind]
    split <;> exact .of_outer h rfl
  | cons p ps ih =>
    rw [unwind]
    split
    · exact (ih (cell_resume _)).trans (.of_tail (cell_resume _) rfl)
    · exact .refl h

/-- The next step of a construct is a change in the innermost link. -/
theorem takesOver_stepOn (h : c.top.cell = none) : c.stepOn.TakesOver c := by
  have hu := takesOver_unwind (l := { c.top with needsSeparator := false, step := c.top.step + 1 })
    h c.outer
  exact ⟨hu.top, hu.outer⟩

/-- Advancing takes over, whether a construct goes on or is left. -/
theorem takesOver_advance (h : c.top.cell = none) (successful : Bool) :
    (c.advance successful).TakesOver c := by
  unfold advance
  split
  · split
    · exact .refl h
    · exact takesOver_stepOn h
  · dsimp only
    split
    · exact .of_outer h rfl
    · exact (takesOver_stepOn h).trans (.of_outer h rfl)
  · exact takesOver_stepOn h

/-- Giving up a construct takes over, however many links are left for it. -/
theorem takesOver_backOut (h : l.cell = none) (ls : List Link) :
    (backOut l ls).TakesOver ⟨l, ls⟩ := by
  induction ls generalizing l with
  | nil =>
    rw [backOut]
    split <;> exact .of_outer h rfl
  | cons p ps ih =>
    rw [backOut]
    split
    · exact .refl h
    · exact (ih rfl).trans (.of_tail rfl rfl)

/-- Giving up on a token takes over: constructs are left, and the one around them goes on. -/
theorem takesOver_giveUp (h : c.top.cell = none) : c.giveUp.TakesOver c := by
  have hb := takesOver_backOut h c.outer
  unfold giveUp
  dsimp only
  split
  · exact hb
  · exact (takesOver_advance hb.top false).trans hb

/-- Settling takes over. -/
theorem takesOver_settle (h : c.top.cell = none) : c.settle.TakesOver c := by
  unfold settle
  split
  · exact takesOver_leave h
  · split
    · exact (takesOver_advance (by exact h) true).trans (.of_outer h rfl)
    · exact .refl h

/-- A type is written to a link, not to another cell. -/
theorem takesOver_record (h : c.top.cell = none) (trace : Trace) (text : String) :
    (c.record trace text).TakesOver c := by
  unfold record
  split
  · exact .refl h
  · exact .of_outer h rfl
  · split
    · next ho => exact .of_outer h (by rw [cells, cells, ho]; rfl)
    · exact .refl h

/-- Accepting a token takes over: it notes a name or a type in the links, and no cell. -/
theorem takesOver_accept (h : c.top.cell = none) (e : Terminal) (t : Token) :
    (c.accept e t).TakesOver c := by
  have hr := takesOver_record h e.trace t.text
  unfold accept
  dsimp only
  split
  · exact (takesOver_advance hr.top true).trans hr
  · exact ⟨hr.top, hr.outer⟩

/-- Whatever comes of holding a token against the grammar, a chain that is left takes over from the
one before. -/
def LeavesOver (c : Chain) : Match → Prop
  | .accepted _ d => d.TakesOver c
  | .unknownRule _ d => d.TakesOver c
  | .misfit => True
  | .exhausted => True

/-- A match that goes on from a chain that was taken over from takes over from that one too. -/
theorem LeavesOver.trans {m : Match} (h : LeavesOver d m) (hd : d.TakesOver c) :
    LeavesOver c m := by
  cases m with
  | accepted _ e => exact TakesOver.trans h hd
  | unknownRule _ e => exact TakesOver.trans h hd
  | misfit => trivial
  | exhausted => trivial

/-- A match takes over in whatever chain it leaves. -/
theorem leavesOver_match? (h : c.top.cell = none) (g : Grammar) (t : Token) (ahead : List Char)
    (n : Nat) : LeavesOver c (match? g t ahead n c) := by
  -- The induction is on the moves that are granted; each move takes over from the chain before it.
  induction n generalizing c with
  | zero => trivial
  | succ n ih =>
    have hgo : ∀ {d : Chain}, d.TakesOver c → LeavesOver c (match? g t ahead n d) := fun hd =>
      (ih hd.top).trans hd
    rw [match?]
    split
    · trivial
    · split
      · split
        · exact hgo (takesOver_enter h _ _)
        · exact TakesOver.refl h
      · split
        · exact takesOver_accept h _ t
        · exact hgo (takesOver_giveUp h)
      · exact hgo (takesOver_giveUp h)

/-- **Reading a token** takes over from the chain before. -/
theorem takesOver_read (h : c.top.cell = none) (g : Grammar) (s : Stream) :
    (Chain.read g s c).chain.TakesOver c := by
  have hs := takesOver_settle h
  unfold Chain.read
  dsimp only
  -- The cases are those of a reading, which settles the chain in each of them.
  split
  · exact hs
  · split
    · exact (takesOver_enter hs.top _ _).trans hs
    · split
      · exact (takesOver_enter hs.top _ _).trans hs
      · next t s' _ _ =>
        have hm := leavesOver_match? hs.top g t s'.rest c.settle.budget
        split
        · next heq =>
          rw [heq] at hm
          exact TakesOver.trans hm hs
        · next heq =>
          rw [heq] at hm
          exact TakesOver.trans hm hs
        · exact (takesOver_enter hs.top _ _).trans hs
        · exact (takesOver_enter hs.top _ _).trans hs

end Chain

end QueryAssist
