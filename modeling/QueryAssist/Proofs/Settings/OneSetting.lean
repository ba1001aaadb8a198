import QueryAssist.Settings.Store
import QueryAssist.Proofs.Files.Replace
import QueryAssist.Proofs.Json.RoundTrip
import Mathlib.Data.List.Nodup

/-! # One setting among others

One setting is set or deleted by loading all of them and saving them again, and saving checks them
all. So it works whatever else the file holds, as long as the other settings that are listed have
values that can be set; where one of them has not, nothing is written. Main definition:
**`Settings.AcceptBesides`**, all settings but one have values that are accepted.

Main statements:

* `Settings.ofText_toText` — settings are read as they were written.
* `SettingsStore.exists_loadFrom` — which files are loaded.
* `SettingsStore.change_setting` — setting and deleting one setting.
* `SettingsStore.change_setting_of_rejected` — what happens beside a value that is not accepted. -/

namespace QueryAssist

namespace Setting

/-- A setting is found by no name but its own. -/
theorem eq_name_of_ofName? {n : String} {s : Setting} (h : ofName? n = some s) : n = s.name := by
  rw [ofName?] at h
  have heq := List.find?_some h
  exact (beq_iff_eq.1 heq).symm

/-- No two settings share a name. -/
theorem name_injective : Function.Injective name := by
  intro s s' h
  have hs := ofName?_name s
  rw [h, ofName?_name] at hs
  exact (Option.some.inj hs).symm

/-- A name is checked like its setting. -/
theorem check_name (s : Setting) (value : String) :
    check s.name value = (match s.rejects? value with
      | some e => .error e
      | none => .ok s) := by
  cases h : s.rejects? value <;> simp [check, ofName?_name, h]

/-- The values that are accepted. -/
theorem check_eq_ok_iff {n value : String} {s : Setting} :
    check n value = .ok s ↔ n = s.name ∧ s.rejects? value = none := by
  constructor
  · intro h
    cases hn : ofName? n with
    | none =>
      rw [check, hn] at h
      cases h
    | some s' =>
      obtain rfl := eq_name_of_ofName? hn
      rw [check_name] at h
      split at h
      · cases h
      · obtain rfl := Except.ok.inj h
        exact ⟨rfl, ‹_›⟩
  · rintro ⟨rfl, h⟩
    rw [check_name, h]

end Setting

namespace Settings

variable {ss : Settings} {s : Setting}

/-- The values of all settings but one are **accepted**. -/
def AcceptBesides (ss : Settings) (s : Setting) : Prop :=
  ∀ other value, other ≠ s → ss.get? other = some value → other.rejects? value = none

/-! ### Settings by their names -/

/-- Settings of which none comes twice have no two names that are the same. -/
theorem nodup_pairsOf (h : ss.keys.Nodup) : ((SettingsStore.pairsOf ss).map Prod.fst).Nodup := by
  rw [SettingsStore.pairsOf, List.map_map]
  have hmap : ss.map (Prod.fst ∘ fun e => (e.1.name, e.2)) = ss.keys.map Setting.name := by
    rw [Entries.keys, List.map_map]
    rfl
  exact hmap ▸ List.Nodup.map Setting.name_injective h

/-- The first of some settings is checked, and then the others. -/
theorem ofPairs_pairsOf_cons {e : Setting × String} (h : (Entries.keys (e :: ss)).Nodup) :
    ofPairs (SettingsStore.pairsOf (e :: ss)) = (match e.1.rejects? e.2 with
      | some err => .error err
      | none => (ofPairs (SettingsStore.pairsOf ss)).map (e :: ·)) := by
  rw [ofPairs, ofPairs, Entries.ofPairs_of_nodup (nodup_pairsOf h),
    Entries.ofPairs_of_nodup (nodup_pairsOf (List.nodup_cons.1 h).2), SettingsStore.pairsOf,
    SettingsStore.pairsOf, List.map_cons, List.mapM_cons]
  have hcheck := Setting.check_name e.1 e.2
  cases he : e.1.rejects? e.2 with
  | none =>
    rw [he] at hcheck
    simp only [hcheck, bind, Except.bind]
    rfl
  | some err =>
    rw [he] at hcheck
    simp only [hcheck, bind, Except.bind]

/-- Settings with accepted values are those of their names. -/
theorem ofPairs_pairsOf (h : ss.keys.Nodup)
    (hall : ∀ other value, ss.get? other = some value → other.rejects? value = none) :
    ofPairs (SettingsStore.pairsOf ss) = .ok ss := by
  have hmem : ∀ e ∈ ss, e.1.rejects? e.2 = none := fun e he => hall _ _ (Entries.get?_of_mem h he)
  clear hall
  induction ss with
  | nil => rfl
  | cons e ss ih =>
    obtain ⟨he, hss⟩ := List.forall_mem_cons.1 hmem
    rw [ofPairs_pairsOf_cons h, he, ih (List.nodup_cons.1 h).2 hss]
    rfl

/-- With a value that is not accepted there are none. -/
theorem exists_ofPairs_eq_error (h : ss.keys.Nodup) {value : String}
    (hs : ss.get? s = some value) (he : s.rejects? value ≠ none) :
    ∃ e, ofPairs (SettingsStore.pairsOf ss) = .error e := by
  induction ss with
  | nil => cases hs
  | cons e ss ih =>
    rw [ofPairs_pairsOf_cons h]
    split
    · exact ⟨_, rfl⟩
    · next hn =>
      rw [Entries.get?_cons] at hs
      split at hs
      · next heq =>
        rw [← heq, Option.some.inj hs] at hn
        exact absurd hn he
      · obtain ⟨err, herr⟩ := ih (List.nodup_cons.1 h).2 hs
        exact ⟨err, by rw [herr]; rfl⟩

/-! ### Settings as text -/

/-- Settings are written as an object of texts, with a member for each. -/
theorem toJson_eq (ss : Settings) :
    ss.toJson = .object (Json.ofTexts (SettingsStore.pairsOf ss)) := by
  rw [toJson, Json.ofTexts, SettingsStore.pairsOf, List.map_map]
  rfl

/-- Settings are read as they were written, before they are text. -/
theorem ofJson_toJson (ss : Settings) : ofJson ss.toJson = ss := by
  change (ss.map fun e => (e.1.name, JsonValue.string e.2)).filterMap _ = ss
  rw [List.filterMap_map]
  refine (List.filterMap_congr fun e _ => ?_).trans List.filterMap_some
  simp only [Function.comp_apply, Setting.ofName?_name]

/-- **Settings are read as they were written.** -/
theorem ofText_toText (h : ss.keys.Nodup) : ofText ss.toText.toList = .ok ss := by
  rw [ofText, toText, String.toList_ofList, toJson_eq, JsonValue.read_write (nodup_pairsOf h),
    ← toJson_eq]
  exact congrArg Except.ok (ofJson_toJson ss)

/-- The settings of an object have the names of some of its members, in the same order. -/
theorem keys_ofJson_sublist (v : JsonValue) :
    ((Entries.keys (ofJson v)).map Setting.name).Sublist (v.members?.getD []).keys := by
  rw [ofJson]
  induction v.members?.getD [] with
  | nil => exact .slnil
  | cons m ms ih =>
    obtain ⟨key, v⟩ := m
    rw [List.filterMap_cons]
    split
    · exact ih.cons _
    · next e he =>
      obtain ⟨s, hs, hkey⟩ : ∃ s, Setting.ofName? key = some s ∧ e.1 = s := by
        cases hs : Setting.ofName? key <;> cases v <;> simp_all [Prod.ext_iff]
      rw [Entries.keys_cons, List.map_cons, Entries.keys_cons, hkey,
        Setting.eq_name_of_ofName? hs]
      exact ih.cons_cons _

/-- **No setting comes twice** in what is read. -/
theorem nodup_keys_ofText {text : List Char} (h : ofText text = .ok ss) : ss.keys.Nodup := by
  unfold ofText at h
  split at h
  · next v hv =>
    cases h
    exact (List.Nodup.sublist (keys_ofJson_sublist v) (JsonValue.nodup_keys_of_read hv)).of_map
      Setting.name
  · split at h
    · cases h
    · cases h
      exact .nil

end Settings

/-! ### The store -/

namespace SettingsStore

variable {store : SettingsStore} {t t' : FileTree} {ss : Settings} {s : Setting}

/-- A text is read from its bytes. -/
theorem textOf_toUTF8 (text : String) :
    FileTree.textOf text.toUTF8 = some (unifyBreaks text.toList) := by
  have h : String.fromUTF8? text.toUTF8 = some text := dif_pos text.isValidUTF8
  rw [FileTree.textOf, h]
  rfl

/-- From other bytes none is. -/
theorem textOf_eq_none {content : ByteArray} (h : ∀ text : String, content ≠ text.toUTF8) :
    FileTree.textOf content = none := by
  have hnone : String.fromUTF8? content = none := by
    refine dif_neg fun hvalid => h (String.fromUTF8 content hvalid) rfl
  rw [FileTree.textOf, hnone]
  rfl

/-- What is loaded from a file is what its text says. -/
theorem loadFrom_of_read {text : String} (hread : t.read store.path = .ok text.toUTF8)
    (htext : Settings.ofText (unifyBreaks text.toList) = .ok ss) : store.loadFrom t = .ok ss := by
  simp only [loadFrom, hread, textOf_toUTF8]
  rw [htext]
  rfl

/-- **Every text is loaded**, JSON or not, unless it goes beyond a limit of the reader, and so is a
file that is not there. -/
theorem exists_loadFrom (h : t.read store.path = .error .missing ∨
    ∃ text : String, t.read store.path = .ok text.toUTF8 ∧
      ∀ e, JsonValue.read (unifyBreaks text.toList) = .error e → e.fault.isLimit = false) :
    ∃ ss, store.loadFrom t = .ok ss := by
  obtain hmissing | ⟨text, hread, hlimit⟩ := h
  · exact ⟨[], by rw [loadFrom, hmissing]⟩
  · cases hv : JsonValue.read (unifyBreaks text.toList) with
    | ok v => exact ⟨_, loadFrom_of_read hread (by rw [Settings.ofText, hv])⟩
    | error e =>
      refine ⟨[], loadFrom_of_read hread ?_⟩
      rw [Settings.ofText, hv]
      exact if_neg (by rw [hlimit e hv]; exact Bool.false_ne_true)

/-- No setting comes twice in what is loaded. -/
theorem nodup_keys_of_loadFrom (h : store.loadFrom t = .ok ss) : ss.keys.Nodup := by
  unfold loadFrom at h
  split at h
  · cases h
    exact .nil
  · cases h
  · split at h
    · next text _ =>
      cases htext : Settings.ofText text with
      | error =>
        rw [htext] at h
        cases h
      | ok =>
        rw [htext] at h
        cases h
        exact Settings.nodup_keys_ofText htext
    · cases h

/-- Loading only looks at the tree. -/
theorem load_of_loadFrom (h : store.loadFrom t = .ok ss) : store.load t = .ok ss t := by
  rw [load, get_bind, h]
  rfl

/-- What the file holds is loaded **as it was written**. -/
theorem loadFrom_toText (hread : t.read store.path = .ok ss.toText.toUTF8) (h : ss.keys.Nodup) :
    store.loadFrom t = .ok ss := by
  have hbreaks : unifyBreaks ss.toText.toList = ss.toText.toList := by
    refine unifyBreaks_of_not_mem ?_
    rw [Settings.toText, String.toList_ofList, Settings.toJson_eq]
    exact JsonValue.not_mem_write _
  refine loadFrom_of_read hread ?_
  rw [hbreaks]
  exact Settings.ofText_toText h

/-- Saving accepted settings is **writing** them. -/
theorem save_pairsOf (h : ss.keys.Nodup)
    (hall : ∀ other value, ss.get? other = some value → other.rejects? value = none) :
    store.save (pairsOf ss) t = store.store ss t := by
  rw [save, Settings.ofPairs_pairsOf h hall]

/-- **Accepted settings are saved**, and loaded again. -/
theorem exists_save (hw : t.IsWritable store.path) (h : ss.keys.Nodup)
    (hall : ∀ other value, ss.get? other = some value → other.rejects? value = none) :
    ∃ t', store.save (pairsOf ss) t = .ok () t' ∧ store.load t' = .ok ss t' := by
  obtain ⟨t', hreplace, hread⟩ := hw.exists_replace ss.toText.toUTF8
  refine ⟨t', ?_, load_of_loadFrom (loadFrom_toText hread h)⟩
  rw [save_pairsOf h hall, SettingsStore.store, hreplace]

/-- Settings with a value that is not accepted are not saved, and nothing is written. -/
theorem exists_save_eq_error (h : ss.keys.Nodup) {value : String} (hs : ss.get? s = some value)
    (he : s.rejects? value ≠ none) : ∃ e, store.save (pairsOf ss) t = .error (.setting e) t := by
  obtain ⟨e, herr⟩ := Settings.exists_ofPairs_eq_error h hs he
  exact ⟨e, by rw [save, herr]; rfl⟩

/-- Setting is loading and saving. -/
theorem set_eq_save (hload : store.loadFrom t = .ok ss) {value : String}
    (hvalue : s.rejects? value = none) :
    store.set s.name value t = store.save (pairsOf (ss.put s value)) t := by
  rw [set, Setting.check_name, hvalue]
  change EStateM.bind store.load _ t = _
  rw [EStateM.bind, load_of_loadFrom hload]

/-- Deleting is loading, too, and saving where the setting is listed. -/
theorem delete_eq (hload : store.loadFrom t = .ok ss) :
    store.delete s.name t = (if (ss.get? s).isNone then (pure false : Stored Bool) else do
      store.save (pairsOf (ss.erase s))
      pure true) t := by
  rw [delete, Setting.ofName?_name]
  change EStateM.bind store.load _ t = _
  rw [EStateM.bind, load_of_loadFrom hload]

/-- **One setting is set or deleted** whatever else the file holds, if the other settings that are
listed have values that are accepted. Setting it to an accepted value does not fail, and then it has
that value; deleting it does not fail and tells whether it was listed, and then it is not. Either way
the others stay as they were. -/
theorem change_setting (hload : store.loadFrom t = .ok ss) (hw : t.IsWritable store.path)
    {name : String} (hname : Setting.ofName? name = some s) (hothers : ss.AcceptBesides s) :
    (∀ value, Setting.check name value = .ok s →
      ∃ t' ss', store.set name value t = .ok () t' ∧ store.get name t' = .ok (some value) t' ∧
        store.load t' = .ok ss' t' ∧ ∀ other, other ≠ s → ss'.get? other = ss.get? other) ∧
    ∃ t' ss', store.delete name t = .ok (ss.get? s).isSome t' ∧ store.load t' = .ok ss' t' ∧
      ss'.get? s = none ∧ ∀ other, other ≠ s → ss'.get? other = ss.get? other := by
  obtain rfl := Setting.eq_name_of_ofName? hname
  have hnodup := nodup_keys_of_loadFrom hload
  refine ⟨fun value hvalue => ?_, ?_⟩
  · have haccept := (Setting.check_eq_ok_iff.1 hvalue).2
    -- All settings are validated when they are saved, so the others have to be accepted too.
    have hall : ∀ other v, (ss.put s value).get? other = some v → other.rejects? v = none := by
      intro other v h
      rw [Entries.get?_put] at h
      split at h
      · next heq =>
        rw [heq, ← Option.some.inj h]
        exact haccept
      · next hne => exact hothers other v hne h
    obtain ⟨t', hsave, hload'⟩ := exists_save hw (Entries.nodup_keys_put hnodup s value) hall
    refine ⟨t', ss.put s value, (set_eq_save hload haccept).trans hsave, ?_, hload', ?_⟩
    · change EStateM.bind store.load _ t' = _
      rw [EStateM.bind, hload', Setting.ofName?_name]
      change EStateM.Result.ok (Settings.valueOr (ss.put s value) s) t' = _
      rw [Settings.valueOr, Entries.get?_put, if_pos rfl]
      rfl
    · intro other hne
      rw [Entries.get?_put, if_neg hne]
  · rw [delete_eq hload]
    cases hs : ss.get? s with
    | none => exact ⟨t, ss, rfl, load_of_loadFrom hload, hs, fun _ _ => rfl⟩
    | some old =>
      have hget : ∀ other, (ss.erase s).get? other = if other = s then none else ss.get? other :=
        Entries.get?_erase ss s
      have hall : ∀ other v, (ss.erase s).get? other = some v → other.rejects? v = none := by
        intro other v h
        rw [hget] at h
        split at h
        · cases h
        · next hne => exact hothers other v hne h
      obtain ⟨t', hsave, hload'⟩ := exists_save hw (Entries.nodup_keys_erase hnodup s) hall
      refine ⟨t', ss.erase s, ?_, hload', by rw [hget, if_pos rfl], fun other hne => by
        rw [hget, if_neg hne]⟩
      change EStateM.bind (store.save (pairsOf (ss.erase s))) _ t = _
      rw [EStateM.bind, hsave]
      rfl

/-- Beside an unknown name and a number the output format is set, and the path of the schema is
deleted. -/
theorem change_setting_beside_others :
    ∃ (store : SettingsStore) (t : FileTree) (ss : Settings),
      t.read store.path = .ok
        "\x7b\"colour\": \"blue\", \"output_format\": 3, \"schema_path\": \"s.graphql\"\x7d".toUTF8 ∧
      store.loadFrom t = .ok ss ∧ t.IsWritable store.path ∧
      Setting.ofName? "schema_path" = some .schemaPath ∧ ss.AcceptBesides .schemaPath ∧
      (∃ t', store.set "schema_path" "t.graphql" t = .ok () t' ∧
        store.get "schema_path" t' = .ok (some "t.graphql") t') ∧
      ∃ t', store.delete "schema_path" t = .ok true t' := by
  let store : SettingsStore := ⟨{ names := ["s.json"] }⟩
  let text :=
    "\x7b\"colour\": \"blue\", \"output_format\": 3, \"schema_path\": \"s.graphql\"\x7d"
  let t : FileTree := { files := [(["s.json"], text.toUTF8)] }
  have hread : t.read store.path = .ok text.toUTF8 := by rfl
  have hload : store.loadFrom t = .ok [(.schemaPath, "s.graphql")] :=
    loadFrom_of_read hread (by decide +kernel)
  have hw : t.IsWritable store.path := FileTree.isWritable_of_read hread rfl (by decide)
  have hname : Setting.ofName? "schema_path" = some .schemaPath := by decide
  have hothers : Settings.AcceptBesides [(.schemaPath, "s.graphql")] .schemaPath := by
    intro other value hne h
    cases other <;> cases h
    exact absurd rfl hne
  obtain ⟨hset, hdelete⟩ := change_setting hload hw hname hothers
  obtain ⟨t', -, hset, hget, -⟩ := hset "t.graphql" (by decide)
  obtain ⟨u, -, hdelete, -⟩ := hdelete
  exact ⟨store, t, _, hread, hload, hw, hname, hothers, ⟨t', hset, hget⟩, u, hdelete⟩

/-- **Beside a value that is not accepted** no setting is set, whatever its value, and none that is
listed is deleted: the store fails with an error, and nothing is written. -/
theorem change_setting_of_rejected (hload : store.loadFrom t = .ok ss) {other : Setting}
    {bad : String} (hne : other ≠ s) (hother : ss.get? other = some bad)
    (hbad : other.rejects? bad ≠ none) :
    (∀ value, ∃ e, store.set s.name value t = .error (.setting e) t) ∧
      ((ss.get? s).isSome = true → ∃ e, store.delete s.name t = .error (.setting e) t) := by
  have hnodup := nodup_keys_of_loadFrom hload
  refine ⟨fun value => ?_, fun hs => ?_⟩
  · cases hvalue : s.rejects? value with
    | some e => exact ⟨e, by rw [set, Setting.check_name, hvalue]; rfl⟩
    | none =>
      -- The value itself is accepted; it is the other one that fails when all are validated.
      rw [set_eq_save hload hvalue]
      refine exists_save_eq_error (Entries.nodup_keys_put hnodup s value) (s := other) ?_ hbad
      rw [Entries.get?_put, if_neg hne, hother]
  · have hkept : (ss.erase s).get? other = some bad := by
      rw [Entries.get?_erase, if_neg hne, hother]
    obtain ⟨e, he⟩ : ∃ e, store.save (pairsOf (ss.erase s)) t = .error (.setting e) t :=
      exists_save_eq_error (Entries.nodup_keys_erase hnodup s) hkept hbad
    refine ⟨e, ?_⟩
    have hlisted : ¬(ss.get? s).isNone = true := by
      rwa [Option.isNone_iff_eq_none, ← ne_eq, ← Option.isSome_iff_ne_none]
    rw [delete_eq hload, if_neg hlisted]
    change EStateM.bind (store.save (pairsOf (ss.erase s))) _ t = _
    rw [EStateM.bind, he]

/-- So it is beside an output format that is none of the known ones: **another setting** is neither
set nor deleted. -/
theorem change_setting_beside_xml :
    ∃ (store : SettingsStore) (t : FileTree) (ss : Settings),
      t.read store.path = .ok
        "\x7b\"output_format\": \"xml\", \"schema_path\": \"s.graphql\"\x7d".toUTF8 ∧
      t.IsWritable store.path ∧ store.loadFrom t = .ok ss ∧
      ss = [(.outputFormat, "xml"), (.schemaPath, "s.graphql")] ∧
      Setting.check "schema_path" "t.graphql" = .ok .schemaPath ∧
      store.set "schema_path" "t.graphql" t = .error (.setting .format) t ∧
      store.delete "schema_path" t = .error (.setting .format) t := by
  let store : SettingsStore := ⟨{ names := ["s.json"] }⟩
  let text := "\x7b\"output_format\": \"xml\", \"schema_path\": \"s.graphql\"\x7d"
  let t : FileTree := { files := [(["s.json"], text.toUTF8)] }
  have hread : t.read store.path = .ok text.toUTF8 := by rfl
  have hload : store.loadFrom t = .ok [(.outputFormat, "xml"), (.schemaPath, "s.graphql")] :=
    loadFrom_of_read hread (by decide +kernel)
  have hw : t.IsWritable store.path := FileTree.isWritable_of_read hread rfl (by decide)
  refine ⟨store, t, _, hread, hw, hload, rfl, by decide, ?_, ?_⟩
  · have hvalue : Setting.schemaPath.rejects? "t.graphql" = none := by decide
    exact (set_eq_save hload hvalue).trans rfl
  · have hdelete := delete_eq (s := .schemaPath) hload
    exact hdelete.trans rfl

end SettingsStore

end QueryAssist
