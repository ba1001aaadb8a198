import QueryAssist.Parse.Sharing

/-! # Links in cells

What is read from cells, and what is written to them. Main definitions:

* **`Link.detached`**, **`Chain.detached`** — a link and a chain without regard to cells.
* **`Held.IsSealed`** — a part of the cells that the links around do not lead out of.
* **`Held.Placed`** — the cells of links that are written: new links, and around them held ones.

Main statements:

* **`Held.linksFrom_congr`** — what is read depends only on a sealed part of the cells.
* **`Held.write_of_placed`** — what is written is read back.
* **`Held.write_frame`** — writing to a part of the cells keeps the rest. -/

namespace QueryAssist

/-- A link without its cell. -/
def Link.detached (l : Link) : Link := { l with cell := none }

/-- A chain without the cells of its links. -/
def Chain.detached (c : Chain) : Chain := ⟨c.top.detached, c.outer.map Link.detached⟩

namespace Held

variable {cells others : Array Held} {q : Nat → Prop} {i n : Nat} {h : Held} {l : Link}
  {ls : List Link}

/-! ### Reading -/

/-- The links from the cell of a link around, if there is one. -/
def linksAround (cells : Array Held) (parent : Option Nat) : List Link :=
  (parent.map (linksFrom cells)).getD []

@[simp] theorem linksAround_none : linksAround cells none = [] := rfl

@[simp] theorem linksAround_some : linksAround cells (some i) = linksFrom cells i := rfl

/-- A held link and the links around it are the chain of it. -/
theorem chain_eq (cells : Array Held) (h : Held) :
    h.chain cells = ⟨h.link.detached, linksAround cells h.parent⟩ := rfl

/-- A held link and the links around it, if those are older. -/
theorem linksFrom_eq (hi : cells[i]? = some h) (hp : ∀ p ∈ h.parent, p < i) :
    linksFrom cells i = { h.link with cell := some i } :: linksAround cells h.parent := by
  rw [linksFrom, hi]
  dsimp only
  cases hh : h.parent with
  | none => rfl
  | some p =>
    dsimp only
    rw [if_pos (hp p hh), linksAround_some]

/-- A part of the cells is **sealed** if the link around each of its links is in it. -/
def IsSealed (cells : Array Held) (q : Nat → Prop) : Prop :=
  ∀ ⦃i : Nat⦄ ⦃h : Held⦄ ⦃p : Nat⦄, q i → cells[i]? = some h → h.parent = some p → p < i → q p

/-- The cells before a given one are sealed, since links are younger than those around them. -/
theorem isSealed_lt (cells : Array Held) (n : Nat) : IsSealed cells (· < n) :=
  fun _ _ _ hi _ _ hp => Nat.lt_trans hp hi

/-- **What is read** from a cell depends only on a sealed part of the cells around it. -/
theorem linksFrom_congr (hq : ∀ j, q j → others[j]? = cells[j]?) (hc : IsSealed cells q)
    (hi : q i) : linksFrom others i = linksFrom cells i := by
  -- The induction is on the cell, since the one around it is older.
  induction i using Nat.strongRecOn with
  | ind i ih =>
    rw [linksFrom, linksFrom, hq i hi]
    cases hh : cells[i]? with
    | none => rfl
    | some h =>
      dsimp only
      cases hp : h.parent with
      | none => rfl
      | some p =>
        dsimp only
        split
        · next hlt => rw [ih p hlt (hc hi hh hp hlt)]
        · rfl

/-- The links around one depend only on a sealed part of the cells. -/
theorem linksAround_congr (hq : ∀ j, q j → others[j]? = cells[j]?) (hc : IsSealed cells q)
    {parent : Option Nat} (hp : ∀ p ∈ parent, q p) :
    linksAround others parent = linksAround cells parent := by
  cases parent with
  | none => rfl
  | some p => exact linksFrom_congr hq hc (hp p rfl)

/-- Links that are read from a sealed part have their cells in it. -/
theorem cell_of_mem_linksFrom (hc : IsSealed cells q) (hi : q i) (hl : l ∈ linksFrom cells i) :
    ∃ j, l.cell = some j ∧ q j := by
  fun_induction linksFrom cells i with
  | case1 => cases hl
  | case2 i h hh ih =>
    obtain rfl | hl := List.mem_cons.1 hl
    · exact ⟨i, rfl, hi⟩
    · cases hp : h.parent with
      | none => simp [hp] at hl
      | some p =>
        simp only [hp] at hl
        split at hl
        · next hlt => exact ih p hlt (hc hi hh hp hlt) hl
        · cases hl

/-! ### Writing -/

/-- Cells that are all taken and **older and older**, the first one before a given number. -/
inductive Aged : Nat → List (Option Nat) → Prop
  | nil {n : Nat} : Aged n []
  | cons {n i : Nat} {is : List (Option Nat)} (hi : i < n) (h : Aged i is) :
      Aged n (some i :: is)

/-- The cells of links that are **placed** around each other: new links have none yet, and the
links around those have cells that are older and older. -/
inductive Placed (n : Nat) : List (Option Nat) → Prop
  /-- Only held links. -/
  | aged {is : List (Option Nat)} (h : Aged n is) : Placed n is
  /-- A new link inside the others. -/
  | new {is : List (Option Nat)} (h : Placed n is) : Placed n (none :: is)

/-- Cells that are older than one are older than any that is younger. -/
theorem Aged.mono {is : List (Option Nat)} {m : Nat} (h : Aged n is) (hn : n ≤ m) : Aged m is := by
  cases h with
  | nil => exact .nil
  | cons hi h => exact .cons (Nat.lt_of_lt_of_le hi hn) h

/-- What is read from a cell has cells that are older and older. -/
theorem aged_linksFrom (cells : Array Held) (i : Nat) :
    Aged cells.size ((linksFrom cells i).map Link.cell) ∧
      Aged (i + 1) ((linksFrom cells i).map Link.cell) := by
  have haged : Aged (i + 1) ((linksFrom cells i).map Link.cell) := by
    fun_induction linksFrom cells i with
    | case1 => exact .nil
    | case2 i h hh ih =>
      refine .cons (Nat.lt_succ_self i) ?_
      cases h.parent with
      | none => exact .nil
      | some p =>
        dsimp only
        split
        · next hlt => exact (ih p hlt).mono hlt
        · exact .nil
  refine ⟨?_, haged⟩
  -- A cell from which anything is read is one of those that there are.
  rw [linksFrom] at haged ⊢
  cases hh : cells[i]? with
  | none => exact .nil
  | some h =>
    rw [hh] at haged
    cases haged with
    | cons _ haged => exact .cons (Array.getElem?_eq_some_iff.1 hh).1 haged

/-- The links around the innermost one are placed too. -/
theorem Placed.tail {i : Option Nat} {is : List (Option Nat)} (h : Placed n (i :: is)) :
    Placed n is := by
  cases h with
  | aged h =>
    cases h with
    | cons hi h => exact .aged (h.mono (Nat.le_of_lt hi))
  | new h => exact h

/-- Links of which none is held are placed. -/
theorem placed_of_none (h : ∀ l ∈ ls, l.cell = none) : Placed n (ls.map Link.cell) := by
  induction ls with
  | nil => exact .aged .nil
  | cons l ls ih =>
    obtain ⟨hl, hls⟩ := List.forall_mem_cons.1 h
    rw [List.map_cons, hl]
    exact .new (ih hls)

/-- The links that are read around another one are placed. -/
theorem placed_linksAround (cells : Array Held) (parent : Option Nat) :
    Placed cells.size ((linksAround cells parent).map Link.cell) := by
  cases parent with
  | none => exact .aged .nil
  | some p => exact .aged (aged_linksFrom cells p).1

/-- One link written to its cell. -/
theorem write_cons_some (hl : l.cell = some i) (cells : Array Held) (ls : List Link) :
    write cells (l :: ls) =
      ((write cells ls).1.setIfInBounds i ⟨l.detached, (write cells ls).2⟩, some i) := by
  rw [write, hl]
  rfl

/-- One link written to a new cell. -/
theorem write_cons_none (hl : l.cell = none) (cells : Array Held) (ls : List Link) :
    write cells (l :: ls) =
      ((write cells ls).1.push ⟨l.detached, (write cells ls).2⟩, some (write cells ls).1.size) := by
  rw [write, hl]
  rfl

/-- Writing takes no cell away. -/
theorem size_le_size_write (cells : Array Held) (ls : List Link) :
    cells.size ≤ (write cells ls).1.size := by
  induction ls with
  | nil => exact Nat.le_refl _
  | cons l ls ih =>
    cases hl : l.cell with
    | none =>
      rw [write_cons_none hl, Array.size_push]
      omega
    | some i => rwa [write_cons_some hl, Array.size_setIfInBounds]

/-- A link that was written to a cell after the links around it. -/
theorem detached_linksFrom {parent : Option Nat} (hi : others[i]? = some ⟨l.detached, parent⟩)
    (hp : ∀ p ∈ parent, p < i) (hq : ∀ j < i, others[j]? = cells[j]?) :
    (linksFrom others i).map Link.detached =
      l.detached :: (linksAround cells parent).map Link.detached := by
  rw [linksFrom_eq hi hp, List.map_cons, linksAround_congr hq (isSealed_lt cells i) hp]
  rfl

/-- Links that have cells are written in place, and **read back**. -/
theorem write_of_aged (h : Aged n (ls.map Link.cell)) (hn : n ≤ cells.size) :
    (∀ p ∈ (write cells ls).2, p < n) ∧
      (linksAround (write cells ls).1 (write cells ls).2).map Link.detached =
        ls.map Link.detached := by
  induction ls generalizing n with
  | nil => exact ⟨by simp [write], rfl⟩
  | cons l ls ih =>
    rw [List.map_cons] at h
    generalize hl : l.cell = cell at h
    cases h with
    | @cons _ i _ hi h =>
      obtain ⟨hparent, hread⟩ := ih h (by omega)
      have hsize := size_le_size_write cells ls
      rw [write_cons_some hl, linksAround_some, List.map_cons, ← hread]
      refine ⟨by simpa using hi, detached_linksFrom ?_ hparent fun j hj => ?_⟩
      · rw [Array.getElem?_setIfInBounds_self_of_lt (by omega)]
      · rw [Array.getElem?_setIfInBounds_ne (by omega)]

/-- **What is written is read back**, if the links are placed around each other. -/
theorem write_of_placed (h : Placed cells.size (ls.map Link.cell)) :
    (∀ p ∈ (write cells ls).2, p < (write cells ls).1.size) ∧
      (linksAround (write cells ls).1 (write cells ls).2).map Link.detached =
        ls.map Link.detached := by
  induction ls with
  | nil => exact ⟨by simp [write], rfl⟩
  | cons l ls ih =>
    rw [List.map_cons] at h
    generalize hl : l.cell = cell at h
    cases h with
    | aged h =>
      -- From here on outwards no link is new.
      rw [← hl, ← List.map_cons] at h
      obtain ⟨hparent, hread⟩ := write_of_aged h (Nat.le_refl _)
      exact ⟨fun p hp => Nat.lt_of_lt_of_le (hparent p hp) (size_le_size_write cells _), hread⟩
    | new h =>
      obtain ⟨hparent, hread⟩ := ih h
      rw [write_cons_none hl, linksAround_some, List.map_cons, ← hread]
      refine ⟨by simp, detached_linksFrom ?_ hparent fun j hj => ?_⟩
      · rw [Array.getElem?_push_size]
      · rw [Array.getElem?_push_lt hj, Array.getElem?_eq_getElem hj]

/-- **Writing is confined**: if a part of the cells is sealed and holds the cells of the links that
are written and all new ones, then it is sealed afterwards and holds the cell of the innermost link,
and no other cell changes. -/
theorem write_frame (cells : Array Held) (ls : List Link) (hls : ∀ l ∈ ls, ∀ i ∈ l.cell, q i)
    (hnew : ∀ i, cells.size ≤ i → i < (write cells ls).1.size → q i) (hc : IsSealed cells q) :
    IsSealed (write cells ls).1 q ∧ (∀ p ∈ (write cells ls).2, q p) ∧
      ∀ i, ¬q i → (write cells ls).1[i]? = cells[i]? := by
  -- The induction is on the links; those around are written before the one inside them.
  induction ls with
  | nil => exact ⟨hc, by simp [write], fun _ _ => rfl⟩
  | cons l ls ih =>
    obtain ⟨hl, hls⟩ := List.forall_mem_cons.1 hls
    have hsize := size_le_size_write cells ls
    cases hcell : l.cell with
    | none =>
      rw [write_cons_none hcell] at hnew ⊢
      simp only [Array.size_push] at hnew
      obtain ⟨hsealed, hparent, hkept⟩ := ih hls fun i hi hlt => hnew i hi (by omega)
      have hq := hnew _ hsize (Nat.lt_succ_self _)
      refine ⟨fun i h p hi hh hp hlt => ?_, by simpa using hq, fun i hi => ?_⟩
      · rw [Array.getElem?_push] at hh
        split at hh
        · obtain rfl := Option.some.inj hh
          exact hparent p hp
        · exact hsealed hi hh hp hlt
      · have hne : i ≠ (write cells ls).1.size := by
          rintro rfl
          exact hi hq
        rw [Array.getElem?_push, if_neg hne, hkept i hi]
    | some j =>
      rw [write_cons_some hcell] at hnew ⊢
      simp only [Array.size_setIfInBounds] at hnew
      obtain ⟨hsealed, hparent, hkept⟩ := ih hls hnew
      have hq := hl j hcell
      refine ⟨fun i h p hi hh hp hlt => ?_, by simpa using hq, fun i hi => ?_⟩
      · rw [Array.getElem?_setIfInBounds] at hh
        split at hh
        · split at hh
          · obtain rfl := Option.some.inj hh
            exact hparent p hp
          · cases hh
        · exact hsealed hi hh hp hlt
      · have hne : j ≠ i := by
          rintro rfl
          exact hi hq
        rw [Array.getElem?_setIfInBounds_ne hne, hkept i hi]

end Held

end QueryAssist
