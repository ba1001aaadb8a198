import Mathlib.Data.List.Basic
import QueryAssist.Proofs.Chain.Regular

/-! # Text that does not fit

A gap, a comment and text that fits nowhere leave the parse as it was. The chain after them is the
one from before, with what was due made up for and perhaps one link around which nothing changed.
Main definitions:

* **`Chain.IsReading`** — what one reading comes to, one constructor for each way.
* **`Chain.IsReached`** — the chains that readings lead to from the start of a document.
* **`Chain.Skips`**, **`Chain.SkipsAll`** — one reading that takes no step of the grammar, and any
  number of them.

Main statement: `read_skipped`, what such readings leave is what they found. -/

namespace QueryAssist

open Grammar

namespace Chain

/-! ### What a reading comes to -/

/-- The styles of text that takes no step of the grammar. -/
def outsideStyles : List String := ["ws", "comment", "invalidchar"]

variable {c d : Chain} {s : Stream}

/-- An admitted token takes a step of the grammar, and no terminal of it has the style of text
outside. -/
theorem IsOpen.style_notMem {t : Token} {ahead : List Char} {e : Terminal} (h : c.IsOpen)
    (ha : Admits t ahead c e) : e.style ∉ outsideStyles :=
  of_decide_eq_true
    (h.of_allTerminals (p := fun e => decide (e.style ∉ outsideStyles)) (by decide) ha.wanted)

/-- **What a reading comes to**: ignored characters, text that is no token, a comment, a token that
fits nowhere, or one that some open chain admits. -/
inductive IsReading (s : Stream) (c : Chain) : Reading → Prop
  /-- Ignored characters. -/
  | gap {s' : Stream} (hw : s.skipWhile isIgnored = some s') :
      IsReading s c ⟨.ok "ws", s', c.settle⟩
  /-- Text that is no token. -/
  | unknown (hw : s.skipWhile isIgnored = none) (hn : s.next? = none) :
      IsReading s c ⟨.ok "invalidchar", skipUnknown s, c.settle.enterInvalid⟩
  /-- A comment. -/
  | comment {t : Token} {s' : Stream} (hw : s.skipWhile isIgnored = none)
      (hn : s.next? = some (t, s')) (ht : t.kind = .comment) :
      IsReading s c ⟨.ok "comment", s', c.settle.enterComment⟩
  /-- A token for which no open construct has a place. -/
  | misfit {t : Token} {s' : Stream} (hw : s.skipWhile isIgnored = none)
      (hn : s.next? = some (t, s')) (ht : t.kind ≠ .comment)
      (hm : match? standard t s'.rest c.settle.budget c.settle = .misfit) :
      IsReading s c ⟨.ok "invalidchar", s', c.settle.enterInvalid⟩
  /-- A token that is accepted. -/
  | token {t : Token} {s' : Stream} {d : Chain} {e : Terminal} (hw : s.skipWhile isIgnored = none)
      (hn : s.next? = some (t, s')) (ht : t.kind ≠ .comment) (hd : d.IsOpen)
      (ha : Admits t s'.rest d e)
      (hm : match? standard t s'.rest c.settle.budget c.settle =
        .accepted e.style (d.accept e t)) :
      IsReading s c ⟨.ok e.style, s', d.accept e t⟩

/-- Reading from a regular chain comes to one of these. -/
theorem IsRegular.isReading (h : c.IsRegular) (s : Stream) :
    IsReading s c (Chain.read standard s c) := by
  have hs := h.settle.toIsOpen
  unfold Chain.read
  dsimp only
  split
  · next hw => exact .gap hw
  · next hw =>
    split
    · next hn => exact .unknown hw hn
    · next t s' hn =>
      split
      · next ht => exact .comment hw hn ht
      · next ht =>
        -- The budget is enough, so only a misfit and an accepted token are left.
        obtain he | he | ⟨d, e, -, hd, ha, he⟩ := hs.match?_cases t s'.rest c.settle.budget
        · exact absurd he (hs.match?_budget_ne_exhausted t s'.rest)
        · rw [he]
          exact .misfit hw hn ht he
        · rw [he]
          exact .token hw hn ht hd ha he

/-! ### Skipping -/

/-- The chains that are **reached** by readings from the start of a document, each of a stream that
is not at its end. -/
inductive IsReached : Chain → Prop
  /-- The start of a document. -/
  | start : IsReached start
  /-- One more reading. -/
  | read {c : Chain} (h : IsReached c) {s : Stream} (hs : s.rest ≠ []) :
      IsReached (Chain.read standard s c).chain

/-- The chains that are reached are regular. -/
theorem IsReached.isRegular (h : c.IsReached) : c.IsRegular := by
  induction h with
  | start => exact isRegular_start
  | read _ _ ih => exact (ih.read _).1

/-- A reading that **skips** text takes no step of the grammar. -/
inductive Skips : Chain → Chain → Prop
  /-- The style of what was read tells. -/
  | read {c : Chain} {s : Stream} {style : String} (hs : s.rest ≠ [])
      (hr : (Chain.read standard s c).style = .ok style) (ho : style ∈ outsideStyles) :
      Skips c (Chain.read standard s c).chain

/-- Any number of readings that skip text. -/
abbrev SkipsAll : Chain → Chain → Prop := Relation.ReflTransGen Skips

/-- What is skipped leaves the settled chain, perhaps with one link more. -/
theorem IsReading.chain_eq {r : Reading} (h : IsReading s c r) :
    (r.style = .ok "ws" → r.chain = c.settle) ∧
    (r.style = .ok "comment" → r.chain = c.settle.enterComment) ∧
    (r.style = .ok "invalidchar" → r.chain = c.settle.enterInvalid) := by
  cases h with
  | gap => exact ⟨fun _ => rfl, fun h => by simp at h, fun h => by simp at h⟩
  | unknown => exact ⟨fun h => by simp at h, fun h => by simp at h, fun _ => rfl⟩
  | comment => exact ⟨fun h => by simp at h, fun _ => rfl, fun h => by simp at h⟩
  | misfit => exact ⟨fun h => by simp at h, fun h => by simp at h, fun _ => rfl⟩
  | @token _ _ _ e _ _ _ hd ha =>
    -- A token that fits has another style.
    have hne : ∀ style ∈ outsideStyles, (.ok e.style : Except RuleKind String) ≠ .ok style := by
      rintro style hm he
      exact hd.style_notMem ha (Except.ok.inj he ▸ hm)
    exact ⟨fun he => absurd he (hne _ (by decide)), fun he => absurd he (hne _ (by decide)),
      fun he => absurd he (hne _ (by decide))⟩

/-- Skipping **leaves what is settled**. -/
theorem IsRegular.settle_of_skips (h : c.IsRegular) (hd : Skips c d) : d.settle = c.settle := by
  obtain ⟨-, hr, ho⟩ := hd
  obtain ⟨hw, hc, hi⟩ := (h.isReading _).chain_eq
  have hs := h.settle
  simp only [outsideStyles, List.mem_cons, List.not_mem_nil, or_false] at ho
  rcases ho with rfl | rfl | rfl
  · rw [hw hr, hs.settle_eq]
  · rw [hc hr, enterComment, hs.settle_enter]
  · rw [hi hr, enterInvalid, hs.settle_enter]

/-- A regular chain stays regular where text is skipped. -/
theorem IsRegular.of_skips (h : c.IsRegular) (hd : Skips c d) : d.IsRegular := by
  obtain ⟨-, -, -⟩ := hd
  exact (h.read _).1

/-- So does skipping any number of times. -/
theorem IsRegular.settle_of_skipsAll (h : c.IsRegular) (hd : SkipsAll c d) :
    d.IsRegular ∧ d.settle = c.settle := by
  induction hd with
  | refl => exact ⟨h, rfl⟩
  | tail _ hs ih =>
    obtain ⟨hr, he⟩ := ih
    exact ⟨hr.of_skips hs, (hr.settle_of_skips hs).trans he⟩

/-- A reading depends on a chain only through what is settled. -/
theorem read_congr (h : d.settle = c.settle) (s : Stream) :
    Chain.read standard s d = Chain.read standard s c := by
  simp only [Chain.read, h]

end Chain

/-- **What does not fit leaves the parse as it was.** From every chain that readings lead to, a gap
leaves the settled chain, and a comment or text that fits nowhere leaves one new link, with no name
and nothing due, right inside the settled chain, of which every link is as it was. Settling gives
the settled chain back, and after any number of such readings every reading is the one that it would
have been without them. -/
theorem read_skipped {c : Chain} (h : c.IsReached) :
    (∀ s : Stream,
      let r := Chain.read standard s c
      (r.style = .ok "ws" → r.chain = c.settle) ∧
      (r.style = .ok "comment" → r.chain.top = { kind := some .comment, rule := some (.steps []) } ∧
        r.chain.outer = c.settle.links) ∧
      (r.style = .ok "invalidchar" →
        r.chain.top = { kind := some .invalid, rule := some (.steps []) } ∧
        r.chain.outer = c.settle.links)) ∧
    ∀ d, Chain.SkipsAll c d →
      d.settle = c.settle ∧ ∀ s, Chain.read standard s d = Chain.read standard s c := by
  have hr := h.isRegular
  have hidle := hr.settle.idle_top
  refine ⟨fun s => ?_, fun d hd => ?_⟩
  · obtain ⟨hw, hc, hi⟩ := (hr.isReading s).chain_eq
    refine ⟨hw, fun he => ?_, fun he => ?_⟩
    · rw [hc he, Chain.enterComment, Chain.enter, hidle]
      exact ⟨rfl, rfl⟩
    · rw [hi he, Chain.enterInvalid, Chain.enter, hidle]
      exact ⟨rfl, rfl⟩
  · obtain ⟨-, he⟩ := hr.settle_of_skipsAll hd
    exact ⟨he, Chain.read_congr he⟩

/-- In `{ a ) # b` the parenthesis fits nowhere and the comment follows it; a brace after both
closes the selection as it would have right after `a`. -/
theorem read_skipped_parenthesis :
    let c := (Chain.read standard (.ofLine "a".toList)
      (Chain.read standard (.ofLine "\x7b".toList) .start).chain).chain
    let d := (Chain.read standard (.ofLine "# b".toList)
      (Chain.read standard (.ofLine ")".toList) c).chain).chain
    c.IsReached ∧ d.top.kind = some .comment ∧ d.settle = c.settle ∧
      Chain.read standard (.ofLine "\x7d".toList) d =
        Chain.read standard (.ofLine "\x7d".toList) c := by
  intro c d
  have hc : c.IsReached := .read (.read .start (by decide)) (by decide)
  have hi : (Chain.read standard (.ofLine ")".toList) c).style = .ok "invalidchar" := by
    decide +kernel
  have hn : (Chain.read standard (.ofLine "# b".toList)
      (Chain.read standard (.ofLine ")".toList) c).chain).style = .ok "comment" := by
    decide +kernel
  have hd : Chain.SkipsAll c d :=
    .tail (.single (.read (by decide) hi (by decide))) (.read (by decide) hn (by decide))
  exact ⟨hc, by decide +kernel, ((read_skipped hc).2 d hd).1, ((read_skipped hc).2 d hd).2 _⟩

end QueryAssist
