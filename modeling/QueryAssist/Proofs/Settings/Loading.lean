import QueryAssist.Proofs.Json.Limits
import QueryAssist.Proofs.Settings.Request

/-! # What is loaded from a file

Whatever text is in the file of the settings, loading it gives those members of the object in it
that have the name of a setting and a string for their last value, and nothing if there is no object
in it. Only a text beyond a limit of the reader cannot be loaded, nor a file that is no text at all.
Main definition: **`Settings.AreHeld`**, some settings are those in a text.

Main statements:

* `Entries.get?_ofPairs` — of the values of a key the last one counts.
* `Settings.areHeld_of_read` — the settings in a text that is read.
* `SettingsStore.load_content` — what is loaded, for every content of the file.
* `SettingsStore.load_singleByte` — a file that is no text. -/

namespace QueryAssist

/-- The entries of some pairs have the **last value** of each key. -/
theorem Entries.get?_ofPairs {κ α : Type} [DecidableEq κ] (ps : List (κ × α)) (key : κ) :
    (ofPairs ps).get? key = ps.reverse.lookup key := by
  have hfold : ∀ es : Entries κ α, (ps.foldl (fun es p => es.put p.1 p.2) es).get? key =
      (ps.reverse.lookup key).or (es.get? key) := by
    induction ps with
    | nil => exact fun es => rfl
    | cons p ps ih =>
      intro es
      rw [List.foldl_cons, ih, get?_put, List.reverse_cons, List.lookup_append, Option.or_assoc]
      congr 1
      rw [List.lookup_cons, List.lookup_nil]
      by_cases hkey : key = p.1
      · rw [if_pos hkey, beq_iff_eq.2 hkey]
        rfl
      · rw [if_neg hkey, beq_false_of_ne hkey]
        rfl
  rw [ofPairs, hfold]
  exact Option.or_none

namespace Settings

variable {ss : Settings} {text : List Char}

/-- Some settings are **those in a text**: each of them once, with its last value in the object that
the text holds if that is a string, and none if it holds no object. -/
structure AreHeld (ss : Settings) (text : List Char) : Prop where
  /-- No setting comes twice. -/
  once : ss.keys.Nodup
  /-- A setting has its last value, if that is a string. -/
  last : ∀ ms, Json.HoldsObject text ms → ∀ (s : Setting) (value : String),
    ss.get? s = some value ↔ ms.reverse.lookup s.name = some (.string value)
  /-- Without an object there are no settings. -/
  empty : (∀ ms, ¬Json.HoldsObject text ms) → ss = []

/-- What a member says of the settings. -/
def ofMember (m : String × JsonValue) : Option (Setting × String) :=
  match Setting.ofName? m.1, m.2 with
  | some s, .string text => some (s, text)
  | _, _ => none

/-- The settings of an object are what its members say, in their order. -/
theorem ofJson_object (es : Entries String JsonValue) :
    ofJson (.object es) = es.filterMap ofMember := rfl

/-- A member is a setting by its name and a string for its value. -/
theorem ofMember_eq_some_iff {m : String × JsonValue} {s : Setting} {value : String} :
    ofMember m = some (s, value) ↔ m.1 = s.name ∧ m.2 = .string value := by
  obtain ⟨key, v⟩ := m
  constructor
  · intro h
    unfold ofMember at h
    split at h
    · next s' text hs hv =>
      obtain ⟨rfl, rfl⟩ := Prod.mk.inj (Option.some.inj h)
      exact ⟨Setting.eq_name_of_ofName? hs, hv⟩
    · cases h
  · rintro ⟨rfl, rfl⟩
    simp [ofMember]

/-- A setting has the value of the member of its name, if that is a string. -/
theorem get?_ofJson {es : Entries String JsonValue} (h : es.keys.Nodup) (s : Setting)
    (value : String) :
    (ofJson (.object es)).get? s = some value ↔ es.get? s.name = some (.string value) := by
  rw [ofJson_object]
  -- The induction is on the members. A later one of the same name is out of the question.
  induction es with
  | nil => simp
  | cons m es ih =>
    obtain ⟨hm, hes⟩ := List.nodup_cons.1 h
    rw [Entries.get?_cons, List.filterMap_cons]
    cases hmember : ofMember m with
    | none =>
      rw [ih hes]
      split
      · next hname =>
        have hnone : Entries.get? es s.name = none := Entries.get?_eq_none_iff.2 (hname ▸ hm)
        rw [hnone]
        refine iff_of_false (by simp) fun hv => ?_
        have hsome := ofMember_eq_some_iff.2 ⟨hname.symm, Option.some.inj hv⟩
        rw [hmember] at hsome
        cases hsome
      · rfl
    | some e =>
      obtain ⟨s', value'⟩ := e
      obtain ⟨hname, hvalue⟩ := ofMember_eq_some_iff.1 hmember
      rw [Entries.get?_cons, hname, hvalue]
      by_cases hs : s = s'
      · simp [hs]
      · have hs' : s.name ≠ s'.name := fun heq => hs (Setting.name_injective heq)
        rw [if_neg hs, if_neg hs', ih hes]

/-- **The settings in an object** that a text holds are those in the text. -/
theorem areHeld_of_read {v : JsonValue} (h : JsonValue.read text = .ok v) :
    AreHeld (ofJson v) text := by
  refine ⟨nodup_keys_ofText (by rw [ofText, h]), fun ms hms s value => ?_, fun hnone => ?_⟩
  · -- The object that is held is the one that is read.
    obtain hread | ⟨e, hread, -⟩ := JsonValue.read_of_holds hms.holds
    · obtain rfl := Except.ok.inj (h.symm.trans hread)
      rw [get?_ofJson (Entries.nodup_keys_ofPairs ms), Entries.get?_ofPairs]
    · rw [h] at hread
      cases hread
  · have hmembers : v.members? = none := by
      cases v with
      | object es =>
        obtain ⟨ms, hms, -⟩ := (JsonValue.holds_of_read h).exists_members
        exact absurd hms (hnone ms)
      | _ => rfl
    rw [ofJson, hmembers]
    rfl

/-- There are none in a text that is no JSON. -/
theorem areHeld_nil {e : JsonError} (h : JsonValue.read text = .error e)
    (he : e.fault.isLimit = false) : AreHeld [] text := by
  refine ⟨.nil, fun ms hms => ?_, fun _ => rfl⟩
  obtain hread | ⟨e', hread, he'⟩ := JsonValue.read_of_holds hms.holds
  · rw [h] at hread
    cases hread
  · obtain rfl := Except.error.inj (h.symm.trans hread)
    rw [he] at he'
    cases he'

/-- Whether its line breaks are line feeds does not matter to a text. -/
theorem areHeld_unifyBreaks : AreHeld ss (unifyBreaks text) ↔ AreHeld ss text := by
  constructor <;> rintro ⟨once, last, empty⟩
  · exact ⟨once, fun ms hms => last ms (Json.holdsObject_unifyBreaks.2 hms),
      fun hnone => empty fun ms hms => hnone ms (Json.holdsObject_unifyBreaks.1 hms)⟩
  · exact ⟨once, fun ms hms => last ms (Json.holdsObject_unifyBreaks.1 hms),
      fun hnone => empty fun ms hms => hnone ms (Json.holdsObject_unifyBreaks.2 hms)⟩

end Settings

namespace SettingsStore

variable {store : SettingsStore} {t : FileTree}

/-- What is loaded from a text is what is read from it, line by line. -/
theorem loadFrom_text {text : String} (h : t.read store.path = .ok text.toUTF8) :
    store.loadFrom t = (Settings.ofText (unifyBreaks text.toList)).mapError .limit := by
  simp only [loadFrom, h, textOf_toUTF8]

/-- **A text is loaded** unless it is beyond a limit. -/
theorem loadFrom_of_not_holdsExcess {text : String} (h : t.read store.path = .ok text.toUTF8)
    (hlimit : ∀ f, ¬Json.HoldsExcess text.toList f) :
    ∃ ss, store.loadFrom t = .ok ss ∧ ss.AreHeld text.toList := by
  rw [loadFrom_text h, Settings.ofText]
  cases hread : JsonValue.read (unifyBreaks text.toList) with
  | ok v => exact ⟨_, rfl, Settings.areHeld_unifyBreaks.1 (Settings.areHeld_of_read hread)⟩
  | error e =>
    have he : e.fault.isLimit = false := by
      by_contra he
      rw [Bool.not_eq_false] at he
      exact hlimit _ (Json.holdsExcess_unifyBreaks.1 (JsonValue.holdsExcess_of_read hread he))
    dsimp only
    rw [if_neg (by simp [he])]
    exact ⟨[], rfl, Settings.areHeld_unifyBreaks.1 (Settings.areHeld_nil hread he)⟩

/-- One that is beyond a limit is not. -/
theorem loadFrom_of_holdsExcess {text : String} {f : JsonFault}
    (h : t.read store.path = .ok text.toUTF8) (hf : Json.HoldsExcess text.toList f) :
    ∃ f, Json.HoldsExcess text.toList f ∧ store.loadFrom t = .error (.limit f) := by
  obtain ⟨e, hread, he⟩ :=
    JsonValue.exists_holdsExcess_iff.1 ⟨f, Json.holdsExcess_unifyBreaks.2 hf⟩
  refine ⟨e.fault, Json.holdsExcess_unifyBreaks.1 (JsonValue.holdsExcess_of_read hread he), ?_⟩
  rw [loadFrom_text h, Settings.ofText, hread]
  dsimp only
  rw [if_pos he]
  rfl

/-- **What is loaded** from each file: nothing if it is missing, and the settings that are held if
it is a text. A text cannot be loaded if it is beyond a limit of the reader, and what is no text
cannot be either. Nothing is written. -/
theorem load_content (store : SettingsStore) (t : FileTree) :
    (t.read store.path = .error .missing → store.load t = .ok [] t) ∧
    (∀ text : String, t.read store.path = .ok text.toUTF8 →
      ((∀ f, ¬Json.HoldsExcess text.toList f) →
        ∃ ss, store.load t = .ok ss t ∧ ss.AreHeld text.toList) ∧
      ∀ f, Json.HoldsExcess text.toList f →
        ∃ f, Json.HoldsExcess text.toList f ∧ store.load t = .error (.limit f) t) ∧
    (∀ content, t.read store.path = .ok content → (∀ text : String, content ≠ text.toUTF8) →
      store.load t = .error .notText t) := by
  refine ⟨fun h => ?_, fun text h => ⟨fun hlimit => ?_, fun f hf => ?_⟩,
    fun content h hcontent => ?_⟩
  · rw [load_eq, loadFrom, h]
  · obtain ⟨ss, hload, hheld⟩ := loadFrom_of_not_holdsExcess h hlimit
    exact ⟨ss, by rw [load_eq, hload], hheld⟩
  · obtain ⟨f, hf, hload⟩ := loadFrom_of_holdsExcess h hf
    exact ⟨f, hf, by rw [load_eq, hload]⟩
  · rw [load_eq]
    simp only [loadFrom, h, textOf_eq_none hcontent]

/-- A file in which one setting comes twice holds its later value, and no other setting. -/
theorem load_content_repeatedKey :
    let store : SettingsStore := ⟨{ names := ["s"] }⟩
    let text := "\x7b\"output_format\":\"table\",\"output_format\":\"json\"\x7d"
    let t : FileTree := { files := [(["s"], text.toUTF8)] }
    ∃ ss, store.load t = .ok ss t ∧ ss.get? .outputFormat = some "json" ∧
      ss.get? .schemaPath = none := by
  intro store text t
  have hkey := Json.writesString_plain (s := "output_format") (by decide)
  have htable := Json.writesString_plain (s := "table") (by decide)
  have hjson := Json.writesString_plain (s := "json") (by decide)
  have hnil := Json.isBlank_nil
  have hobject : Json.HoldsObject text.toList
      [("output_format", .string "table"), ("output_format", .string "json")] :=
    ⟨[], _, [], hnil, .members (.cons hnil hkey hnil hnil (.string htable) hnil
      (.last hnil hkey hnil hnil (.string hjson) hnil)), hnil, by decide +kernel⟩
  have hlimit : ∀ f, ¬Json.HoldsExcess text.toList f := by
    refine not_exists.1 fun hf => ?_
    obtain ⟨e, hread, -⟩ := JsonValue.exists_holdsExcess_iff.1 hf
    have hok : (JsonValue.read text.toList).toOption.isSome = true := by decide +kernel
    rw [hread] at hok
    cases hok
  obtain ⟨ss, hload, hheld⟩ := ((load_content store t).2.1 text rfl).1 hlimit
  refine ⟨ss, hload, (hheld.last _ hobject _ _).2 (by decide), ?_⟩
  refine Option.eq_none_iff_forall_ne_some.2 fun value hvalue => ?_
  cases (hheld.last _ hobject _ _).1 hvalue

/-- **A file that is no text**, here a single byte, is not loaded as if it held no settings. -/
theorem load_singleByte :
    let store : SettingsStore := ⟨{ names := ["s"] }⟩
    let t : FileTree := { files := [(["s"], ⟨#[0xff]⟩)] }
    t.read store.path = .ok ⟨#[0xff]⟩ ∧ store.load t = .error .notText t := by
  intro store t
  exact ⟨rfl, rfl⟩

end SettingsStore

end QueryAssist
