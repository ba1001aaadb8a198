import QueryAssist.Proofs.Sharing.Changes

/-! # Snapshots

A chain that is kept apart does not change while the parse goes on, although the parse writes to
links in place and chains share links. Main definitions:

* **`Store.Operation`** — what is done with a store, and **`Store.performAll`**, many of them.
* **`Store.Confined`** — the live chain and the kept ones reach only a part of the cells.

Main statements:

* **`Store.chain_act`** — the live chain of a store is changed as a chain of its own would be.
* **`Store.Confined.performAll`** — what is confined to a part of the cells changes no other.
* **`Store.keepApart_lasts`** — a chain that is kept apart stays as it is. -/

namespace QueryAssist

open Held

namespace Store

/-! ### Operations -/

/-- What is done with a store while a document is read. -/
inductive Operation where
  /-- Read the next token of a line. -/
  | read (line : Stream)
  /-- Enter a construct with its rule in a grammar. -/
  | enter (rules : Grammar) (k : RuleKind)
  /-- Leave the innermost construct. -/
  | leave
  /-- Go on to the next step. -/
  | advance (successful : Bool)
  /-- Pass over the nearest step that may be left out. -/
  | giveUp
  /-- Keep the live chain and share its links. -/
  | keepShared (key : String)
  /-- Keep the live chain apart. -/
  | keepApart (key : String)
  /-- Go on from a kept chain. -/
  | restore (key : String)

/-- The key that an operation uses. -/
def Operation.key? : Operation → Option String
  | .keepShared key => some key
  | .keepApart key => some key
  | .restore key => some key
  | _ => none

/-- Do an operation. A construct without a rule is not entered. -/
def perform (g : Grammar) (s : Store) : Operation → Store
  | .read line => s.act fun c => (Chain.read g line c).chain
  | .enter rules k =>
    match rules k with
    | some r => s.act (·.enter k r)
    | none => s
  | .leave => s.act Chain.leave
  | .advance successful => s.act (·.advance successful)
  | .giveUp => s.act Chain.giveUp
  | .keepShared key => s.keepShared key
  | .keepApart key => s.keepApart key
  | .restore key => s.restore key

/-- Do operations one after the other. -/
def performAll (g : Grammar) (s : Store) (os : List Operation) : Store := os.foldl (perform g) s

variable {s s' r : Store} {c d : Chain} {f : Chain → Chain} {key : String} {g : Grammar}
  {o : Operation} {os : List Operation} {q : Nat → Prop} {visible : String → Prop}

@[simp] theorem performAll_nil (g : Grammar) (s : Store) : s.performAll g [] = s := rfl

@[simp] theorem performAll_cons (g : Grammar) (s : Store) (o : Operation) (os : List Operation) :
    s.performAll g (o :: os) = (s.perform g o).performAll g os := rfl

/-! ### The live chain -/

/-- The live chain is the live link and what is read around it. -/
theorem chain_eq (s : Store) :
    s.chain = ⟨s.live.link.detached, linksAround s.cells s.live.parent⟩ := rfl

/-- The links around the live one are placed. -/
theorem placed_chain (s : Store) : Placed s.cells.size s.chain.cells :=
  placed_linksAround s.cells s.live.parent

/-- A chain that takes over from the live one **becomes the live one**. -/
theorem chain_commit (h : d.TakesOver s.chain) : (s.commit d).chain.detached = d.detached := by
  have hplaced : Placed s.cells.size (d.outer.map Link.cell) := h.outer.placed s.placed_chain
  have hread := (write_of_placed hplaced).2
  exact congrArg (Chain.mk d.top.detached) hread

/-- A function that changes chains takes over from each. -/
def IsChange (f : Chain → Chain) : Prop := ∀ c, c.top.cell = none → (f c).TakesOver c

/-- The live chain is changed **as a chain of its own** would be. -/
theorem chain_act (hf : IsChange f) (s : Store) : (s.act f).chain.detached = (f s.chain).detached :=
  chain_commit (hf _ rfl)

/-- What an operation does: a change of the live chain, or nothing, or something about kept
chains. -/
theorem perform_cases (g : Grammar) (s : Store) (o : Operation) :
    (∃ f, IsChange f ∧ s.perform g o = s.act f) ∨ s.perform g o = s ∨
      ∃ key, o.key? = some key ∧ (s.perform g o = s.keepShared key ∨
        s.perform g o = s.keepApart key ∨ s.perform g o = s.restore key) := by
  cases o with
  | read line => exact .inl ⟨_, fun c hc => Chain.takesOver_read hc g line, rfl⟩
  | enter rules k =>
    rw [perform]
    cases rules k with
    | none => exact .inr (.inl rfl)
    | some r => exact .inl ⟨_, fun c hc => Chain.takesOver_enter hc k r, rfl⟩
  | leave => exact .inl ⟨_, fun c hc => Chain.takesOver_leave hc, rfl⟩
  | advance b => exact .inl ⟨_, fun c hc => Chain.takesOver_advance hc b, rfl⟩
  | giveUp => exact .inl ⟨_, fun c hc => Chain.takesOver_giveUp hc, rfl⟩
  | keepShared key => exact .inr (.inr ⟨key, rfl, .inl rfl⟩)
  | keepApart key => exact .inr (.inr ⟨key, rfl, .inr (.inl rfl)⟩)
  | restore key => exact .inr (.inr ⟨key, rfl, .inr (.inr rfl)⟩)

/-- Going on from a kept chain writes no cell. -/
theorem cells_restore (s : Store) (key : String) : (s.restore key).cells = s.cells := by
  unfold restore
  split <;> rfl

/-- Going on from a kept chain keeps it. -/
theorem kept_restore (s : Store) (key : String) : (s.restore key).kept = s.kept := by
  unfold restore
  split <;> rfl

/-- No operation takes a cell away. -/
theorem size_le_size_perform (g : Grammar) (s : Store) (o : Operation) :
    s.cells.size ≤ (s.perform g o).cells.size := by
  obtain ⟨f, -, hf⟩ | hs | ⟨key, -, hk | hk | hk⟩ := perform_cases g s o
  · rw [hf]
    exact size_le_size_write _ _
  · exact Nat.le_of_eq (by rw [hs])
  · exact Nat.le_of_eq (by rw [hk, keepShared])
  · rw [hk]
    exact size_le_size_write _ _
  · exact Nat.le_of_eq (by rw [hk, cells_restore])

/-- No run of operations takes a cell away. -/
theorem size_le_size_performAll (g : Grammar) (s : Store) (os : List Operation) :
    s.cells.size ≤ (s.performAll g os).cells.size := by
  induction os generalizing s with
  | nil => exact Nat.le_refl _
  | cons o os ih => exact Nat.le_trans (size_le_size_perform g s o) (ih _)

/-- Only an operation that uses a key changes what is kept under it. -/
theorem kept?_perform (h : o.key? ≠ some key) : (s.perform g o).kept? key = s.kept? key := by
  have hlookup : ∀ {k : String} {v : Held}, o.key? = some k →
      List.lookup key ((k, v) :: s.kept) = s.kept.lookup key := by
    intro k v hk
    have hne : key ≠ k := fun he => h (he ▸ hk)
    rw [List.lookup_cons, beq_false_of_ne hne]
  obtain ⟨f, -, hf⟩ | hs | ⟨k, hk, ho | ho | ho⟩ := perform_cases g s o
  · rw [hf]
    rfl
  · rw [hs]
  · rw [ho]
    exact hlookup hk
  · rw [ho]
    exact hlookup hk
  · rw [ho, kept?, kept_restore, kept?]

/-- Only operations that use a key change what is kept under it. -/
theorem kept?_performAll (h : ∀ o ∈ os, o.key? ≠ some key) (s : Store) :
    (s.performAll g os).kept? key = s.kept? key := by
  induction os generalizing s with
  | nil => rfl
  | cons o os ih =>
    obtain ⟨ho, hos⟩ := List.forall_mem_cons.1 h
    rw [performAll_cons, ih hos, kept?_perform ho]

/-! ### Confined stores -/

/-- A store is **confined** to a part of its cells if that part is sealed and holds the cells of the
links around the live one, and of those around each kept one with a visible key. -/
structure Confined (q : Nat → Prop) (visible : String → Prop) (s : Store) : Prop where
  live : ∀ p ∈ s.live.parent, q p
  kept : ∀ e ∈ s.kept, visible e.1 → ∀ p ∈ e.2.parent, q p
  sealed : IsSealed s.cells q

/-- A store goes on **within** a part of the cells if it is confined to it afterwards and has
changed no other cell. -/
structure Within (q : Nat → Prop) (visible : String → Prop) (s s' : Store) : Prop where
  confined : s'.Confined q visible
  rest : ∀ i, ¬q i → s'.cells[i]? = s.cells[i]?

/-- A store that does nothing stays within the part that it is confined to. -/
theorem Confined.within (h : s.Confined q visible) : Within q visible s s := ⟨h, fun _ _ => rfl⟩

/-- A store that stays within a part for two runs stays there for both in a row. -/
theorem Within.trans (h : Within q visible s s') (h' : Within q visible s' r) :
    Within q visible s r :=
  ⟨h'.confined, fun i hi => (h'.rest i hi).trans (h.rest i hi)⟩

namespace Confined

/-- The cells of the live chain are in the part. -/
theorem cell_of_mem_chain (h : s.Confined q visible) {i : Nat} (hi : some i ∈ s.chain.cells) :
    q i := by
  obtain ⟨l, hl, hcell⟩ := List.mem_map.1 hi
  obtain ⟨p, hp, hl⟩ : ∃ p, s.live.parent = some p ∧ l ∈ linksFrom s.cells p := by
    rw [chain_eq] at hl
    cases hp : s.live.parent with
    | none => simp [hp] at hl
    | some p => exact ⟨p, rfl, by simpa [hp] using hl⟩
  obtain ⟨j, hj, hq⟩ := cell_of_mem_linksFrom h.sealed (h.live p hp) hl
  obtain rfl := Option.some.inj (hj.symm.trans hcell)
  exact hq

/-- A change of the live chain stays within the part, if its new cells are in it. -/
theorem commit (h : s.Confined q visible) (hd : d.TakesOver s.chain)
    (hnew : ∀ i, s.cells.size ≤ i → i < (s.commit d).cells.size → q i) :
    Within q visible s (s.commit d) := by
  obtain ⟨hsealed, hlive, hrest⟩ := write_frame s.cells d.outer (fun l hl i hi =>
    h.cell_of_mem_chain (hd.outer.mem (hi ▸ List.mem_map_of_mem hl))) hnew h.sealed
  exact ⟨⟨hlive, h.kept, hsealed⟩, hrest⟩

/-- Keeping the live chain as it is writes no cell. -/
theorem keepShared (h : s.Confined q visible) (key : String) :
    Within q visible s (s.keepShared key) := by
  refine ⟨⟨h.live, fun e he => ?_, h.sealed⟩, fun _ _ => rfl⟩
  obtain rfl | he := List.mem_cons.1 he
  · exact fun _ => h.live
  · exact h.kept e he

/-- Keeping a copy of the live chain stays within the part, if the cells of the copy are in it. -/
theorem keepApart (h : s.Confined q visible) (key : String)
    (hnew : ∀ i, s.cells.size ≤ i → i < (s.keepApart key).cells.size → q i) :
    Within q visible s (s.keepApart key) := by
  obtain ⟨hsealed, hkept, hrest⟩ := write_frame s.cells (s.chain.outer.map Link.detached)
    (fun l hl i hi => by
      obtain ⟨m, -, rfl⟩ := List.mem_map.1 hl
      cases hi) hnew h.sealed
  refine ⟨⟨h.live, fun e he => ?_, hsealed⟩, hrest⟩
  obtain rfl | he := List.mem_cons.1 he
  · exact fun _ => hkept
  · exact h.kept e he

/-- Going on from a chain with a visible key stays within the part. -/
theorem restore (h : s.Confined q visible) (hkey : visible key) :
    Within q visible s (s.restore key) := by
  unfold Store.restore
  split
  · next e he =>
    obtain ⟨es, es', hes, -⟩ := List.lookup_eq_some_iff.1 he
    have hmem : (key, e) ∈ s.kept := by simp [hes]
    exact ⟨⟨h.kept (key, e) hmem hkey, h.kept, h.sealed⟩, fun _ _ => rfl⟩
  · exact h.within

/-- **One operation** that uses visible keys stays within the part. -/
theorem perform (h : s.Confined q visible) (hkey : ∀ key ∈ o.key?, visible key)
    (hnew : ∀ i, s.cells.size ≤ i → i < (s.perform g o).cells.size → q i) :
    Within q visible s (s.perform g o) := by
  obtain ⟨f, hf, ho⟩ | ho | ⟨key, hk, ho | ho | ho⟩ := perform_cases g s o
  · rw [ho] at hnew ⊢
    exact h.commit (hf _ rfl) hnew
  · rw [ho]
    exact h.within
  · rw [ho]
    exact h.keepShared key
  · rw [ho] at hnew ⊢
    exact h.keepApart key hnew
  · rw [ho]
    exact h.restore (hkey key hk)

/-- **Any number of operations** that use visible keys stay within the part. -/
theorem performAll (h : s.Confined q visible) (hkeys : ∀ o ∈ os, ∀ key ∈ o.key?, visible key)
    (hnew : ∀ i, s.cells.size ≤ i → i < (s.performAll g os).cells.size → q i) :
    Within q visible s (s.performAll g os) := by
  induction os generalizing s with
  | nil => exact h.within
  | cons o os ih =>
    obtain ⟨hkey, hkeys⟩ := List.forall_mem_cons.1 hkeys
    have hsize := size_le_size_perform g s o
    have hsizes := size_le_size_performAll g (s.perform g o) os
    -- The cells that the first operation takes are among those that all of them take.
    have ho : Within q visible s (s.perform g o) :=
      h.perform hkey fun i hi hlt => hnew i hi (by rw [performAll_cons]; omega)
    exact ho.trans (ih ho.confined hkeys fun i hi => hnew i (by omega))

end Confined

/-! ### Chains kept apart -/

/-- A store that begins with a chain of new links is confined to the cells that it ever gets. -/
theorem confined_ofChain {n : Nat} (hc : ∀ l ∈ c.outer, l.cell = none)
    (hn : (ofChain c).cells.size ≤ n) : (ofChain c).Confined (· < n) fun _ => True := by
  obtain ⟨hsealed, hlive, -⟩ := write_frame #[] c.outer (q := (· < n))
    (fun l hl i hi => by simp [hc l hl] at hi)
    (fun i _ hi => Nat.lt_of_lt_of_le hi hn) (by simp [IsSealed])
  exact ⟨hlive, by simp [ofChain], hsealed⟩

/-- The cells of the **copy** that is made of the live chain to keep it apart. -/
def InCopy (s : Store) (key : String) (i : Nat) : Prop :=
  s.cells.size ≤ i ∧ i < (s.keepApart key).cells.size

/-- The copy is sealed and reads as the live chain. The live chain itself and the other kept ones
stay **confined to the other cells**. -/
theorem Confined.apart (h : s.Confined (· < s.cells.size) fun _ => True) (key : String) :
    (s.keepApart key).Confined (¬s.InCopy key ·) (· ≠ key) ∧
      IsSealed (s.keepApart key).cells (s.InCopy key) ∧
      ∃ e : Held, (s.keepApart key).kept? key = some e ∧ (∀ p ∈ e.parent, s.InCopy key p) ∧
        (e.chain (s.keepApart key).cells).detached = s.chain.detached := by
  have hnone : ∀ l ∈ s.chain.outer.map Link.detached, l.cell = none := by
    rintro l hl
    obtain ⟨m, -, rfl⟩ := List.mem_map.1 hl
    rfl
  obtain ⟨hsealed, hparent, hrest⟩ := write_frame s.cells _ (q := s.InCopy key)
    (fun l hl i hi => by simp [hnone l hl] at hi) (fun i hi hlt => ⟨hi, hlt⟩)
    (fun i e p hi he => by simp [Array.getElem?_eq_none hi.1] at he)
  refine ⟨⟨fun p hp hq => ?_, fun e he hne p hp hq => ?_, fun i e p hi he hp hlt hq => ?_⟩, hsealed,
    ⟨s.live.link, _⟩, List.lookup_cons_self, hparent, ?_⟩
  · exact absurd (h.live p hp) (Nat.not_lt.2 hq.1)
  · obtain rfl | he := List.mem_cons.1 he
    · exact absurd rfl hne
    · exact absurd (h.kept e he trivial p hp) (Nat.not_lt.2 hq.1)
  · -- A cell outside the copy that is taken was taken before.
    rw [show (s.keepApart key).cells[i]? = s.cells[i]? from hrest i hi] at he
    have hlt' : i < s.cells.size := (Array.getElem?_eq_some_iff.1 he).1
    exact absurd (Nat.lt_trans hlt hlt') (Nat.not_lt.2 hq.1)
  · have hread := (write_of_placed (placed_of_none (n := s.cells.size) hnone)).2
    rw [List.map_map] at hread
    exact congrArg (Chain.mk s.live.link.detached) hread

/-- **A chain that is kept apart lasts.** Whatever was read, entered, left, kept and restored
before, and whatever is afterwards without use of its key, it stays the chain that was live when it
was kept, in every field of every link. To go on from it, at once or later, gives that chain
back. -/
theorem keepApart_lasts (g : Grammar) (hc : Chain.start? g = some c)
    (past future : List Operation) (hkey : ∀ o ∈ future, o.key? ≠ some key) :
    let s := (ofChain c).performAll g past
    let later := (s.keepApart key).performAll g future
    (later.keptChain? key).map Chain.detached = some s.chain.detached ∧
      (later.restore key).chain.detached = s.chain.detached := by
  intro s later
  obtain ⟨r, -, rfl⟩ := Option.map_eq_some_iff.1 hc
  -- Up to the copy, all chains are confined to the cells that there are when it is made.
  have hstart : Confined (· < s.cells.size) (fun _ => True)
      (ofChain (Chain.root.enter .document r)) :=
    confined_ofChain (by simp [Chain.root]) (size_le_size_performAll g _ past)
  have hs : s.Confined (· < s.cells.size) fun _ => True :=
    (hstart.performAll (fun _ _ _ _ => trivial) fun _ _ hi => hi).confined
  obtain ⟨hconfined, hsealed, e, he, hparent, hchain⟩ := hs.apart key
  -- From then on, all chains but the copy are confined to the cells outside it.
  have hkeys : ∀ o ∈ future, ∀ k ∈ o.key?, k ≠ key := fun o ho k hk hne =>
    hkey o ho (hne ▸ hk)
  have hlater := hconfined.performAll (g := g) hkeys fun i hi _ hcopy => Nat.not_le.2 hcopy.2 hi
  -- The copy is where it was, and what it is read from has not changed.
  have hkept : later.kept? key = some e := (kept?_performAll hkey _).trans he
  have hlasts : e.chain later.cells = e.chain (s.keepApart key).cells := by
    rw [Held.chain_eq, Held.chain_eq, linksAround_congr (fun i hi => hlater.rest i fun h => h hi)
      hsealed hparent]
  refine ⟨?_, ?_⟩
  · rw [keptChain?, hkept, Option.map_some, Option.map_some, hlasts, hchain]
  · rw [restore, hkept]
    exact (congrArg Chain.detached hlasts).trans hchain

/-- A fragment on a type, kept before its type is read. The type shows in the chain that was kept
with its links shared, and not in the one that was kept apart. -/
theorem keepApart_lasts_fragment :
    let tokens (words : List String) := words.map fun w => Operation.read (.ofLine w.toList)
    let past := tokens ["fragment", "F", "on"] ++ [.keepShared "shared"]
    let future := tokens ["Human"] ++ [.restore "shared", .leave, .keepApart "other"]
    let s := (ofChain .start).performAll .standard past
    let later := (s.keepApart "apart").performAll .standard future
    s.chain.outer.head?.map (fun l => (l.name, l.type)) = some (some "F", none) ∧
    (later.keptChain? "shared").map (fun c => c.outer.head?.map fun l => (l.name, l.type)) =
      some (some (some "F", some "Human")) ∧
    (later.keptChain? "apart").map Chain.detached = some s.chain.detached ∧
      (later.restore "apart").chain.detached = s.chain.detached := by
  intro tokens past future s later
  exact ⟨by decide +kernel, by decide +kernel,
    keepApart_lasts .standard rfl past future (by decide +kernel)⟩

end Store

end QueryAssist
