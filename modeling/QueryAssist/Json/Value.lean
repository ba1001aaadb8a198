import QueryAssist.Entries

/-! # JSON values

Main definitions:

* **`JsonValue`** — a value of the JSON data format. The members of an object are in order.
* **`JsonValue.same`** — whether two values are the same.
* **`JsonValue.isVoid`** — whether a value says nothing.

Main statement: `same_iff`, which makes equality of values decidable. -/

namespace QueryAssist

/-- A **JSON value**. Numbers are kept as they are written. -/
inductive JsonValue where
  | null
  | bool (b : Bool)
  | number (text : String)
  | string (text : String)
  | array (items : List JsonValue)
  | object (members : List (String × JsonValue))
  deriving Repr, Inhabited

instance : Coe String JsonValue := ⟨.string⟩

namespace JsonValue

/-! ## Equality -/

mutual

/-- Whether two values are the same. -/
def same : JsonValue → JsonValue → Bool
  | null, null => true
  | bool b, bool c => b == c
  | number t, number u => t == u
  | string t, string u => t == u
  | array vs, array ws => sameItems vs ws
  | object ms, object ns => sameMembers ms ns
  | _, _ => false

/-- Whether two arrays have the same items. -/
def sameItems : List JsonValue → List JsonValue → Bool
  | [], [] => true
  | v :: vs, w :: ws => same v w && sameItems vs ws
  | _, _ => false

/-- Whether two objects have the same members in the same order. -/
def sameMembers : List (String × JsonValue) → List (String × JsonValue) → Bool
  | [], [] => true
  | (key, v) :: ms, (other, w) :: ns => key == other && same v w && sameMembers ms ns
  | _, _ => false

end

mutual

theorem same_iff : ∀ v w : JsonValue, same v w = true ↔ v = w
  | null, w => by cases w <;> simp [same]
  | bool _, w => by cases w <;> simp [same]
  | number _, w => by cases w <;> simp [same]
  | string _, w => by cases w <;> simp [same]
  | array vs, w => by cases w <;> simp [same, sameItems_iff vs]
  | object ms, w => by cases w <;> simp [same, sameMembers_iff ms]

theorem sameItems_iff : ∀ vs ws : List JsonValue, sameItems vs ws = true ↔ vs = ws
  | [], ws => by cases ws <;> simp [sameItems]
  | v :: vs, ws => by cases ws <;> simp [sameItems, same_iff v, sameItems_iff vs]

theorem sameMembers_iff :
    ∀ ms ns : List (String × JsonValue), sameMembers ms ns = true ↔ ms = ns
  | [], ns => by cases ns <;> simp [sameMembers]
  | (_, v) :: ms, ns => by
    cases ns <;> simp [sameMembers, same_iff v, sameMembers_iff ms, Prod.ext_iff]

end

instance : DecidableEq JsonValue := fun v w => decidable_of_iff _ (same_iff v w)

/-! ## Parts of a value -/

/-- The text of a string. -/
def text? : JsonValue → Option String
  | string t => some t
  | _ => none

/-- The members of an object. -/
def members? : JsonValue → Option (Entries String JsonValue)
  | object ms => some ms
  | _ => none

/-- The member of a name, if the value is an object that has one. -/
def member? (v : JsonValue) (key : String) : Option JsonValue :=
  v.members?.bind fun ms => ms.get? key

/-- Whether the value is null. -/
def isNull : JsonValue → Bool
  | null => true
  | _ => false

/-- Whether the digits of a number before its exponent are all zero. -/
def isZero (text : String) : Bool :=
  ((text.toList.takeWhile fun c => !(c == 'e' || c == 'E')).all fun c =>
    c == '0' || c == '.' || c == '-')

/-- Whether the value says **nothing**: null, false, zero, or something empty. -/
def isVoid : JsonValue → Bool
  | null => true
  | bool b => !b
  | number t => isZero t
  | string t => t.isEmpty
  | array vs => vs.isEmpty
  | object ms => ms.isEmpty

/-- The member of a name, unless it is null. -/
def given? (v : JsonValue) (key : String) : Option JsonValue :=
  (v.member? key).filter fun m => !m.isNull

/-- A value that is looked up in a list of pairs is smaller than the list. -/
theorem sizeOf_lookup_lt {ms : List (String × JsonValue)} {key : String} {m : JsonValue}
    (h : ms.lookup key = some m) : sizeOf m < sizeOf ms := by
  induction ms with
  | nil => simp at h
  | cons e ms ih =>
    obtain ⟨k, v⟩ := e
    rw [List.lookup_cons] at h
    split at h
    · obtain rfl := Option.some.inj h
      simp only [List.cons.sizeOf_spec, Prod.mk.sizeOf_spec]
      omega
    · have := ih h
      simp only [List.cons.sizeOf_spec]
      omega

/-- A member of an object is smaller than the object. -/
theorem sizeOf_member?_lt {v m : JsonValue} {key : String} (h : v.member? key = some m) :
    sizeOf m < sizeOf v := by
  cases v with
  | object ms =>
    have := @sizeOf_lookup_lt ms key m h
    simp only [object.sizeOf_spec]
    omega
  | _ => simp [member?, members?] at h

end JsonValue

end QueryAssist
