/-! # Entries

Lists of values under keys, in the order in which the keys first came. Main definitions:

* **`Entries`** — the list.
* **`Entries.put`** — give a key a value: in its old place, or at the end.
* **`Entries.ofPairs`** — the entries of a list of pairs, where the last value of a key counts.

Main statements: `nodup_keys_put` and `nodup_keys_ofPairs`, no key comes twice, `get?_put` and
`get?_erase`, what the other keys have stays, and `ofPairs_of_nodup`, pairs with distinct keys are
their own entries. -/

namespace QueryAssist

/-- **Entries** are values under keys, in a fixed order. -/
abbrev Entries (κ α : Type) := List (κ × α)

namespace Entries

variable {κ α : Type} [DecidableEq κ]

/-- The keys. -/
def keys (es : Entries κ α) : List κ := es.map Prod.fst

/-- The value of a key. -/
def get? (es : Entries κ α) (key : κ) : Option α := es.lookup key

/-- The entries with a **value for a key**. A key that is there keeps its place. -/
def put (es : Entries κ α) (key : κ) (value : α) : Entries κ α :=
  match es with
  | [] => [(key, value)]
  | e :: es => if e.1 = key then (key, value) :: es else e :: put es key value

/-- The entries without a key. -/
def erase (es : Entries κ α) (key : κ) : Entries κ α := es.filter fun e => e.1 ≠ key

/-- The entries of some **pairs**: each key where it came first, with its last value. -/
def ofPairs (ps : List (κ × α)) : Entries κ α := ps.foldl (fun es p => es.put p.1 p.2) []

omit [DecidableEq κ] in
@[simp] theorem keys_nil : keys ([] : Entries κ α) = [] := rfl

omit [DecidableEq κ] in
@[simp] theorem keys_cons (e : κ × α) (es : Entries κ α) : keys (e :: es) = e.1 :: keys es := rfl

/-- Putting a value adds the key at the end, unless it is there. -/
theorem keys_put (es : Entries κ α) (key : κ) (value : α) :
    keys (es.put key value) = if key ∈ keys es then keys es else keys es ++ [key] := by
  induction es with
  | nil => simp [put]
  | cons e es ih =>
    unfold put
    by_cases h : e.1 = key
    · simp [h]
    · have h' : key ≠ e.1 := fun hk => h hk.symm
      simp only [h, if_false, keys_cons, List.mem_cons, h', false_or]
      rw [ih]
      split <;> simp

/-- No key comes twice, if none did before. -/
theorem nodup_keys_put {es : Entries κ α} (h : (keys es).Nodup) (key : κ) (value : α) :
    (keys (es.put key value)).Nodup := by
  rw [keys_put]
  split
  · exact h
  · next hk => exact List.nodup_append.2 ⟨h, by simp, by grind⟩

/-- So it is among the entries of some pairs. -/
theorem nodup_keys_ofPairs (ps : List (κ × α)) : (keys (ofPairs ps)).Nodup := by
  have hfold : ∀ es : Entries κ α, (keys es).Nodup →
      (keys (ps.foldl (fun es p => es.put p.1 p.2) es)).Nodup := by
    induction ps with
    | nil => exact fun es h => h
    | cons p ps ih => exact fun es h => ih _ (nodup_keys_put h p.1 p.2)
  exact hfold [] (by simp)

/-- No key comes twice without another one. -/
theorem nodup_keys_erase {es : Entries κ α} (h : (keys es).Nodup) (key : κ) :
    (keys (es.erase key)).Nodup :=
  h.sublist (List.Sublist.map _ List.filter_sublist)

@[simp] theorem get?_nil (key : κ) : get? ([] : Entries κ α) key = none := rfl

theorem get?_cons (e : κ × α) (es : Entries κ α) (key : κ) :
    get? (e :: es) key = if key = e.1 then some e.2 else get? es key := by
  rw [get?, List.lookup_cons]
  split <;> simp_all [get?]

/-- Only what is no key has no value. -/
theorem get?_eq_none_iff {es : Entries κ α} {key : κ} : es.get? key = none ↔ key ∉ keys es := by
  induction es with
  | nil => simp
  | cons e es ih =>
    rw [get?_cons, keys_cons, List.mem_cons, not_or, ← ih]
    split <;> simp [*]

/-- A key has the value that it comes with, if it comes once. -/
theorem get?_of_mem {es : Entries κ α} (h : (keys es).Nodup) {e : κ × α} (he : e ∈ es) :
    es.get? e.1 = some e.2 := by
  induction es with
  | nil => cases he
  | cons f es ih =>
    rw [keys_cons, List.nodup_cons] at h
    rw [get?_cons]
    obtain rfl | he := List.mem_cons.1 he
    · rw [if_pos rfl]
    · have hne : e.1 ≠ f.1 := fun heq => h.1 (heq ▸ List.mem_map_of_mem he)
      rw [if_neg hne, ih h.2 he]

/-- What a key is given it has, and the others have what they had. -/
theorem get?_put (es : Entries κ α) (key other : κ) (value : α) :
    (es.put key value).get? other = if other = key then some value else es.get? other := by
  induction es with
  | nil => rw [put, get?_cons]
  | cons e es ih =>
    rw [put, get?_cons e es]
    split
    · next h =>
      rw [get?_cons, h]
      split <;> rfl
    · next h =>
      rw [get?_cons, ih]
      grind

/-- Without a key the others have what they had. -/
theorem get?_erase (es : Entries κ α) (key other : κ) :
    (es.erase key).get? other = if other = key then none else es.get? other := by
  induction es with
  | nil => simp [erase]
  | cons e es ih =>
    rw [erase] at ih
    rw [erase, List.filter_cons, get?_cons e es]
    split
    · next h =>
      rw [get?_cons, ih]
      grind
    · next h =>
      rw [ih]
      grind

/-- A new key comes last. -/
theorem put_of_not_mem {es : Entries κ α} {key : κ} (h : key ∉ keys es) (value : α) :
    es.put key value = es ++ [(key, value)] := by
  induction es with
  | nil => rfl
  | cons e es ih =>
    rw [keys_cons, List.mem_cons, not_or] at h
    rw [put, if_neg (Ne.symm h.1), ih h.2, List.cons_append]

/-- Without what is no key nothing is missing. -/
theorem erase_of_not_mem {es : Entries κ α} {key : κ} (h : key ∉ keys es) : es.erase key = es :=
  List.filter_eq_self.2 fun _ he => decide_eq_true fun hk => h (hk ▸ List.mem_map_of_mem he)

/-- What is put under a new key can be taken away again. -/
theorem erase_put_of_not_mem {es : Entries κ α} {key : κ} (h : key ∉ keys es) (value : α) :
    (es.put key value).erase key = es := by
  have hes := erase_of_not_mem h
  rw [erase] at hes
  rw [put_of_not_mem h, erase, List.filter_append, hes]
  simp

/-- **Pairs with distinct keys** are their own entries. -/
theorem ofPairs_of_nodup {ps : List (κ × α)} (h : (ps.map Prod.fst).Nodup) : ofPairs ps = ps := by
  have hfold : ∀ es : Entries κ α, ((es ++ ps).map Prod.fst).Nodup →
      ps.foldl (fun es p => es.put p.1 p.2) es = es ++ ps := by
    clear h
    induction ps with
    | nil => simp
    | cons p ps ih =>
      intro es h
      have hp : p.1 ∉ keys es := by
        rw [List.map_append, List.nodup_append] at h
        exact fun hmem => h.2.2 _ hmem p.1 (by simp) rfl
      have happend : es ++ p :: ps = es ++ [p] ++ ps := by simp
      rw [happend] at h ⊢
      rw [List.foldl_cons, put_of_not_mem hp]
      exact ih _ h
  exact hfold [] h

end Entries

end QueryAssist
