import QueryAssist.Proofs.Settings.Request

/-! # The settings store is an ordered map

Every request to the store reads a file or writes it, and one that writes checks all settings first.
What comes of any run of requests is nevertheless what comes of it on a list of settings that is
kept in memory. Main definitions:

* **`Settings.Request.onMap`** — a request on settings in memory, in the order in which they
  were first given.
* **`runAll`** — requests one after another.
* **`SettingsStore.Holds`** — a file that holds some settings.

Main statements: `SettingsStore.Holds.agrees_perform`, on one request, and
`SettingsStore.runAll_answer`, on runs of them. -/

namespace QueryAssist

/-! ### Settings in memory -/

namespace Settings

/-- A request **on settings in memory**: what it comes to, and the settings after it. One that is
rejected leaves them as they are. -/
def Request.onMap (req : Request) (m : Settings) : Except SettingsError Answer × Settings :=
  match req with
  | get name => (.ok (.value ((Setting.ofName? name).bind m.valueOr)), m)
  | set name value =>
    match Setting.check name value with
    | .ok s => (.ok .done, m.put s value)
    | .error e => (.error e, m)
  | delete name =>
    match Setting.ofName? name with
    | some s => (.ok (.deleted (m.get? s).isSome), m.erase s)
    | none => (.ok (.deleted false), m)
  | loadAll => (.ok (.saved m), m)
  | loadSettings => (.ok (.merged m.withDefaults), m)
  | saveAll pairs =>
    match ofPairs pairs with
    | .ok ss => (.ok .done, ss)
    | .error e => (.error e, m)

/-- All values of some settings are **accepted**. -/
def AreAccepted (m : Settings) : Prop := ∀ s value, m.get? s = some value → s.rejects? value = none

variable {m : Settings} {s : Setting} {value : String}

/-- Settings that are accepted stay so if one more gets a value that is. -/
theorem AreAccepted.put (h : m.AreAccepted) (hvalue : s.rejects? value = none) :
    AreAccepted (m.put s value) := by
  intro other v hv
  rw [Entries.get?_put] at hv
  split at hv
  · next heq =>
    rw [heq, ← Option.some.inj hv]
    exact hvalue
  · exact h other v hv

/-- Settings that are accepted stay so if one of them is taken out. -/
theorem AreAccepted.erase (h : m.AreAccepted) (s : Setting) : AreAccepted (m.erase s) := by
  intro other v hv
  rw [Entries.get?_erase] at hv
  split at hv
  · cases hv
  · exact h other v hv

/-- Settings that pairs of names and values give have these names and values, which are accepted. -/
theorem pairsOf_of_mapM {es : List (String × String)} {ss : Settings}
    (h : (es.mapM fun (name, value) => do
      pure (← Setting.check name value, value) : Except SettingsError Settings) = .ok ss) :
    SettingsStore.pairsOf ss = es ∧ ∀ e ∈ ss, e.1.rejects? e.2 = none := by
  induction es generalizing ss with
  | nil =>
    cases h
    exact ⟨rfl, nofun⟩
  | cons e es ih =>
    obtain ⟨name, value⟩ := e
    rw [List.mapM_cons] at h
    obtain ⟨e, he, h⟩ := bind_eq_ok_iff.1 h
    obtain ⟨ss', hss, h⟩ := bind_eq_ok_iff.1 h
    cases h
    obtain ⟨s, hs, h⟩ := bind_eq_ok_iff.1 he
    cases h
    obtain ⟨rfl, hvalue⟩ := Setting.check_eq_ok_iff.1 hs
    obtain ⟨hpairs, hall⟩ := ih hss
    exact ⟨congrArg ((s.name, value) :: ·) hpairs, List.forall_mem_cons.2 ⟨hvalue, hall⟩⟩

/-- No setting comes twice in them. -/
theorem nodup_keys_of_ofPairs {pairs : List (String × String)} (h : ofPairs pairs = .ok m) :
    m.keys.Nodup := by
  obtain ⟨hpairs, -⟩ := pairsOf_of_mapM h
  have hnodup : ((SettingsStore.pairsOf m).map Prod.fst).Nodup :=
    hpairs ▸ Entries.nodup_keys_ofPairs pairs
  rw [SettingsStore.pairsOf, List.map_map] at hnodup
  exact List.Nodup.of_map Setting.name (by rwa [Entries.keys, List.map_map])

/-- Settings that come from names and values have been checked one by one. -/
theorem areAccepted_of_ofPairs {pairs : List (String × String)} (h : ofPairs pairs = .ok m) :
    m.AreAccepted := by
  obtain ⟨-, hall⟩ := pairsOf_of_mapM h
  intro s value hs
  obtain ⟨_, _, rfl, -⟩ := List.lookup_eq_some_iff.1 hs
  exact hall (s, value) (by simp)

end Settings

/-! ### Requests on a file -/

/-- Requests **one after another**: what each comes to, and the state after the last one. -/
def runAll {ω σ β : Type} (step : ω → σ → β × σ) : List ω → σ → List β × σ
  | [], s => ([], s)
  | req :: reqs, s =>
    let rest := runAll step reqs (step req s).2
    ((step req s).1 :: rest.1, rest.2)

namespace SettingsStore

open Settings (Request Answer)

/-- What a request on the store **comes to**, and the tree after it. -/
def answer (store : SettingsStore) (req : Request) (t : FileTree) :
    Except StoreError Answer × FileTree :=
  match store.perform req t with
  | .ok a u => (.ok a, u)
  | .error e u => (.error e, u)

/-- A request is **refused** by the file system. -/
def isRefused : Except StoreError Answer → Bool
  | .error (.file _) => true
  | _ => false

/-- The file of a store **holds** some settings: it has their text, or it is not there and there are
none. -/
structure Holds (store : SettingsStore) (t : FileTree) (m : Settings) : Prop where
  file : t.read store.path = .ok m.toText.toUTF8 ∨ t.read store.path = .error .missing ∧ m = []
  nodup : m.keys.Nodup
  accepted : m.AreAccepted

variable {store : SettingsStore} {t u : FileTree} {m ss : Settings}

/-- Without a file there are no settings. -/
theorem holds_nil (h : t.read store.path = .error .missing) : store.Holds t [] :=
  ⟨.inr ⟨h, rfl⟩, .nil, nofun⟩

/-- What a file holds is **loaded**. -/
theorem Holds.loadFrom (h : store.Holds t m) : store.loadFrom t = .ok m := by
  obtain hread | ⟨hmissing, rfl⟩ := h.file
  · exact loadFrom_toText hread h.nodup
  · rw [SettingsStore.loadFrom, hmissing]

/-- What comes of something on the store **agrees** with what comes of it in memory: it is the same,
and the file holds what is in memory, unless the file system refuses it, which it only does where
the file cannot be written. What is rejected leaves the tree as it was. -/
inductive Agrees {α : Type} (store : SettingsStore) (t : FileTree) :
    EStateM.Result StoreError FileTree α → Except SettingsError α × Settings → Prop
  | done {a : α} {u : FileTree} {m : Settings} (h : store.Holds u m)
      (hw : t.IsWritable store.path → u.IsWritable store.path) :
      Agrees store t (.ok a u) (.ok a, m)
  | rejected {e : SettingsError} {m : Settings} (h : store.Holds t m) :
      Agrees store t (.error (.setting e) t) (.error e, m)
  | refused (e : FileError) (u : FileTree) (x : Except SettingsError α × Settings)
      (hw : ¬t.IsWritable store.path) : Agrees store t (.error (.file e) u) x

variable {α β : Type}

/-- What only looks agrees. -/
theorem Holds.agrees (h : store.Holds t m) (a : α) : store.Agrees t (.ok a t) (.ok a, m) :=
  .done h id

/-- What is made of the answer agrees, too. -/
theorem Agrees.map {x : Stored α} {e : Except SettingsError α × Settings}
    (h : store.Agrees t (x t) e) (f : α → β) :
    store.Agrees t ((do return f (← x) : Stored β) t) (e.1.map f, e.2) := by
  change store.Agrees t (EStateM.bind x (fun a => pure (f a)) t) _
  rw [EStateM.bind]
  generalize x t = r at h
  cases h with
  | done h hw => exact .done h hw
  | rejected h => exact .rejected h
  | refused e u x hw => exact .refused e u _ hw

/-- **Writing** settings agrees. -/
theorem agrees_store (hn : ss.keys.Nodup) (ha : ss.AreAccepted) :
    store.Agrees t (store.store ss t) (.ok (), ss) := by
  rw [SettingsStore.store]
  cases h : Disk.replace store.path ss.toText.toUTF8 t with
  | ok _ u =>
    refine .done ⟨.inl (Disk.read_of_replace h), hn, ha⟩ fun _ => ?_
    exact FileTree.isWritable_of_replace h
  | error e u =>
    refine .refused e u _ fun hw => ?_
    obtain ⟨u', hok, -⟩ := hw.exists_replace ss.toText.toUTF8
    rw [hok] at h
    cases h

/-- **Saving settings by their names** agrees with putting all of them into a map, since each is
checked in both before anything is written. -/
theorem Holds.agrees_saveAll (h : store.Holds t m) (pairs : List (String × String)) :
    store.Agrees t (store.perform (.saveAll pairs) t) ((Request.saveAll pairs).onMap m) := by
  rw [perform, Request.onMap]
  cases hpairs : Settings.ofPairs pairs with
  | ok ss =>
    have hsave : store.save pairs = store.store ss := by rw [save, hpairs]
    have hagrees : store.Agrees t (store.save pairs t) (.ok (), ss) := by
      rw [hsave]
      exact agrees_store (Settings.nodup_keys_of_ofPairs hpairs)
        (Settings.areAccepted_of_ofPairs hpairs)
    exact hagrees.map fun _ => Answer.done
  | error e =>
    have hsave : store.save pairs = throw (.setting e) := by rw [save, hpairs]
    rw [hsave]
    exact .rejected h

/-- **Setting one** agrees with putting it into a map: what is loaded was accepted, so only the new
value can be rejected. -/
theorem Holds.agrees_set (h : store.Holds t m) (name value : String) :
    store.Agrees t (store.perform (.set name value) t) ((Request.set name value).onMap m) := by
  rw [perform, Request.onMap]
  cases hcheck : Setting.check name value with
  | ok s =>
    obtain ⟨rfl, hvalue⟩ := Setting.check_eq_ok_iff.1 hcheck
    have hn := Entries.nodup_keys_put h.nodup s value
    have ha := h.accepted.put hvalue
    have hset := set_eq_save h.loadFrom hvalue
    rw [save_pairsOf hn ha] at hset
    exact Agrees.map (hset ▸ agrees_store hn ha) fun _ => Answer.done
  | error e =>
    have hset : store.set name value = throw (.setting e) := by rw [set, hcheck]
    rw [hset]
    exact .rejected h

/-- **Deleting one** agrees with taking it out of a map, and both tell whether it was there. -/
theorem Holds.agrees_delete (h : store.Holds t m) (name : String) :
    store.Agrees t (store.perform (.delete name) t) ((Request.delete name).onMap m) := by
  rw [perform, Request.onMap]
  cases hname : Setting.ofName? name with
  | none =>
    have hdelete : store.delete name t = .ok false t := by
      rw [delete, hname, load_bind, h.loadFrom]
      rfl
    exact Agrees.map (hdelete ▸ h.agrees false) Answer.deleted
  | some s =>
    obtain rfl := Setting.eq_name_of_ofName? hname
    have hdelete := delete_eq (s := s) h.loadFrom
    have hagrees : store.Agrees t (store.delete s.name t) (.ok (m.get? s).isSome, m.erase s) := by
      rw [hdelete]
      cases hs : m.get? s with
      | none =>
        -- What is not listed leaves the file alone, so the picture is the same map.
        rw [Entries.erase_of_not_mem (Entries.get?_eq_none_iff.1 hs)]
        exact h.agrees false
      | some v =>
        have hn := Entries.nodup_keys_erase h.nodup s
        have ha := h.accepted.erase s
        have hsaved : store.Agrees t (store.save (pairsOf (m.erase s)) t) (.ok (), m.erase s) := by
          rw [save_pairsOf hn ha]
          exact agrees_store hn ha
        exact hsaved.map fun _ => true
    exact hagrees.map Answer.deleted

/-- **One request** on the store agrees with the same one in memory. -/
theorem Holds.agrees_perform (h : store.Holds t m) (req : Request) :
    store.Agrees t (store.perform req t) (req.onMap m) := by
  have hload : store.Agrees t (store.load t) (.ok m, m) := by
    rw [load_of_loadFrom h.loadFrom]
    exact h.agrees m
  cases req with
  | get name =>
    exact (hload.map fun ss => (Setting.ofName? name).bind ss.valueOr).map Answer.value
  | set name value => exact h.agrees_set name value
  | delete name => exact h.agrees_delete name
  | loadAll => exact hload.map Answer.saved
  | loadSettings => exact hload.map fun ss => Answer.merged ss.withDefaults
  | saveAll pairs => exact h.agrees_saveAll pairs

/-! ### Runs -/

/-- What comes of a request that agrees with the one in memory. -/
theorem Agrees.answer_cases {req : Request} {e : Except SettingsError Answer × Settings}
    (h : store.Agrees t (store.perform req t) e) :
    (isRefused (store.answer req t).1 = true ∧ ¬t.IsWritable store.path) ∨
      ((store.answer req t).1 = e.1.mapError .setting ∧ isRefused (store.answer req t).1 = false ∧
        store.Holds (store.answer req t).2 e.2 ∧
        (t.IsWritable store.path → (store.answer req t).2.IsWritable store.path)) := by
  rw [answer]
  generalize store.perform req t = r at h
  cases h with
  | done h hw => exact .inr ⟨rfl, rfl, h, hw⟩
  | rejected h => exact .inr ⟨rfl, rfl, h, id⟩
  | refused e u x hw => exact .inl ⟨rfl, hw⟩

/-- Up to the first request that the file system refuses **everything comes as it does in
memory**. -/
theorem Holds.takeWhile_runAll (h : store.Holds t m) (reqs : List Request) :
    ((runAll store.answer reqs t).1.takeWhile fun r => !isRefused r) <+:
      (runAll Request.onMap reqs m).1.map (·.mapError .setting) := by
  induction reqs generalizing t m with
  | nil => exact List.prefix_refl []
  | cons req reqs ih =>
    rw [runAll, runAll, List.takeWhile_cons]
    obtain ⟨hrefused, -⟩ | ⟨hr, hnot, hholds, -⟩ := (h.agrees_perform req).answer_cases
    · rw [hrefused]
      exact List.nil_prefix
    · rw [hnot, hr]
      exact List.prefix_cons_inj _ |>.2 (ih hholds)

/-- Where the file can be written **nothing is refused**. -/
theorem Holds.runAll_of_isWritable (h : store.Holds t m) (hw : t.IsWritable store.path)
    (reqs : List Request) :
    (runAll store.answer reqs t).1 = (runAll Request.onMap reqs m).1.map (·.mapError .setting) ∧
      store.Holds (runAll store.answer reqs t).2 (runAll Request.onMap reqs m).2 := by
  induction reqs generalizing t m with
  | nil => exact ⟨rfl, h⟩
  | cons req reqs ih =>
    obtain ⟨-, hnot⟩ | ⟨hr, -, hholds, hw'⟩ := (h.agrees_perform req).answer_cases
    · exact absurd hw hnot
    · obtain ⟨hrs, hend⟩ := ih hholds (hw' hw)
      refine ⟨?_, hend⟩
      rw [runAll, runAll, List.map_cons, hr, hrs]

/-- **The settings store is an ordered map.** Where the file of a store is not there at first, any
requests on it, with any texts for names and values, come to what they come to on a list of
settings in memory that is empty at first, and in the end the file holds the text of that list, from
which the list is read back, with every value as it was given. Only the file system can refuse a
request, where the file cannot be written at all, and until then it is all the same. -/
theorem runAll_answer (hmissing : t.read store.path = .error .missing) (reqs : List Request) :
    let onFile := runAll store.answer reqs t
    let inMemory := runAll Request.onMap reqs []
    (t.IsWritable store.path →
      onFile.1 = inMemory.1.map (·.mapError .setting) ∧ store.Holds onFile.2 inMemory.2 ∧
        Settings.ofText inMemory.2.toText.toList = .ok inMemory.2) ∧
    (onFile.1.takeWhile fun r => !isRefused r) <+: inMemory.1.map (·.mapError .setting) := by
  have h := holds_nil hmissing
  refine ⟨fun hw => ?_, h.takeWhile_runAll reqs⟩
  obtain ⟨hanswers, hend⟩ := h.runAll_of_isWritable hw reqs
  exact ⟨hanswers, hend, Settings.ofText_toText hend.nodup⟩

/-- A path with letters, quotes and a picture is kept, what is rejected in between changes nothing,
and the folder of the file is made. -/
theorem runAll_answer_picture :
    ∃ (store : SettingsStore) (t : FileTree) (reqs : List Request),
      store.path.names = ["conf", "settings.json"] ∧ t.read store.path = .error .missing ∧
      t.IsWritable store.path ∧
      reqs = [.get "output_format", .set "schema_path" "caf\u00e9 \"😀\"\\.graphql",
        .set "output_format" "xml", .set "output_format" "json", .get "schema_path",
        .delete "output_format", .delete "output_format", .loadAll,
        .saveAll [("output_format", "table"), ("colour", "blue")], .loadSettings] ∧
      (runAll store.answer reqs t).1 = [.ok (.value (some "table")), .ok .done,
        .error (.setting .format), .ok .done,
        .ok (.value (some "caf\u00e9 \"😀\"\\.graphql")), .ok (.deleted true),
        .ok (.deleted false), .ok (.saved [(.schemaPath, "caf\u00e9 \"😀\"\\.graphql")]),
        .error (.setting (.unknown "colour")),
        .ok (.merged [(.schemaPath, some "caf\u00e9 \"😀\"\\.graphql"),
          (.outputFormat, some "table")])] := by
  let store : SettingsStore := ⟨{ names := ["conf", "settings.json"] }⟩
  let t : FileTree := {}
  have hmissing : t.read store.path = .error .missing := by rfl
  have hw : t.IsWritable store.path := ⟨.empty, _, rfl⟩
  exact ⟨store, t, _, rfl, hmissing, hw, rfl,
    ((runAll_answer hmissing _).1 hw).1.trans (by decide +kernel)⟩

end SettingsStore

end QueryAssist
