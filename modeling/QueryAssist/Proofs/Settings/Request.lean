import QueryAssist.Proofs.Files.Frame
import QueryAssist.Proofs.Settings.OneSetting

/-! # Requests of the settings store

The store takes six kinds of request, three of which write. Whatever the file tree and the path, a
request touches no file but that of the store, and if it fails not even that one; the files of
fresh names by which it writes never stay. Main definitions:

* **`Settings.Request`**, **`Settings.Answer`** — the requests, and what they come to.
* **`SettingsStore.perform`** — doing what is requested.
* **`SettingsStore.Confines`** — a result that leaves all other files as they were.

Main statement: `SettingsStore.confines_perform`, on every request and every file tree. -/

namespace QueryAssist

namespace Settings

/-- A **request** on some saved settings. -/
inductive Request where
  /-- The value of a setting, or its default. -/
  | get (name : String)
  /-- Give a setting a value. -/
  | set (name value : String)
  /-- Take a setting away. -/
  | delete (name : String)
  /-- All settings that are saved. -/
  | loadAll
  /-- All settings, with their defaults where they are not saved. -/
  | loadSettings
  /-- Save some settings in place of all saved ones. -/
  | saveAll (pairs : List (String × String))
  deriving DecidableEq, Repr, Inhabited

/-- What a request **comes to** if it does not fail. -/
inductive Answer where
  /-- It is done. -/
  | done
  /-- The value that was asked for. -/
  | value (v : Option String)
  /-- Whether the setting that is gone was listed. -/
  | deleted (listed : Bool)
  /-- The saved settings, in order. -/
  | saved (ss : Settings)
  /-- All settings. -/
  | merged (ss : List (Setting × Option String))
  deriving DecidableEq, Repr, Inhabited

end Settings

namespace SettingsStore

open FileTree

open Settings (Request Answer)

/-- **Perform** what is requested. -/
def perform (store : SettingsStore) : Request → Stored Answer
  | .get name => do return .value (← store.get name)
  | .set name value => do
    store.set name value
    return .done
  | .delete name => do return .deleted (← store.delete name)
  | .loadAll => do return .saved (← store.load)
  | .loadSettings => do return .merged (← store.load).withDefaults
  | .saveAll pairs => do
    store.save pairs
    return .done

/-- What an action of the store comes to **confines it to its file**. If it fails, all files are as
they were; if not, either nothing is done, or the file at the place that the path leads to is
written and is the only one that is new or changed. Either way no folder is gone, and a new one is
on the way to the file, where nothing was. -/
def Confines {α : Type} (store : SettingsStore) (t : FileTree) :
    EStateM.Result StoreError FileTree α → Prop
  | .error _ u => GainsFolders (startOf store.path) store.path.names.dropLast t u
  | .ok _ u => u = t ∨ ∃ (v : FileTree) (place : Place) (ss : Settings),
      GainsFolders (startOf store.path) store.path.names.dropLast t v ∧
      u = v.withFile place ss.toText.toUTF8 ∧
      u.place (startOf store.path) store.path.names = .ok place

variable {α β : Type} {store : SettingsStore} {t : FileTree}

/-- What fails before anything is written leaves all files as they were. -/
theorem confines_error (e : StoreError) :
    store.Confines t (.error e t : EStateM.Result StoreError FileTree α) := .refl _ _ _

/-- What does nothing is confined to any file. -/
theorem confines_ok (a : α) :
    store.Confines t (.ok a t : EStateM.Result StoreError FileTree α) := .inl rfl

/-- What is made of the answer changes nothing. -/
theorem confines_map {x : Stored α} (h : store.Confines t (x t)) (f : α → β) :
    store.Confines t ((do return f (← x) : Stored β) t) := by
  change store.Confines t (EStateM.bind x (fun a => pure (f a)) t)
  rw [EStateM.bind]
  cases hx : x t with
  | ok a u =>
    rw [hx] at h
    exact h
  | error e u =>
    rw [hx] at h
    exact h

/-- What is done once the settings are loaded. -/
theorem load_bind (f : Settings → Stored α) :
    (store.load >>= f) t = match store.loadFrom t with
      | .ok ss => f ss t
      | .error e => .error e t := by
  change EStateM.bind store.load f t = _
  rw [EStateM.bind, load, get_bind]
  cases store.loadFrom t <;> rfl

/-- Loading comes to what can be loaded from the file, and the tree stays. -/
theorem load_eq (store : SettingsStore) (t : FileTree) : store.load t =
    match store.loadFrom t with
    | .ok ss => .ok ss t
    | .error e => .error e t := by
  rw [load, get_bind]
  cases store.loadFrom t <;> rfl

/-- Loading only looks. -/
theorem confines_load_bind {f : Settings → Stored α}
    (h : ∀ ss, store.Confines t (f ss t)) : store.Confines t ((store.load >>= f) t) := by
  rw [load_bind]
  cases store.loadFrom t with
  | ok ss => exact h ss
  | error e => exact confines_error e

/-- **Writing** the settings puts them into the file, or leaves all files as they were. -/
theorem confines_store (ss : Settings) : store.Confines t (store.store ss t) := by
  rw [SettingsStore.store]
  cases h : Disk.replace store.path ss.toText.toUTF8 t with
  | ok _ u =>
    obtain ⟨v, place, hgains, hu, hplace⟩ := Disk.exists_gainsFolders_of_replace h
    exact .inr ⟨v, place, ss, hgains, hu, hplace⟩
  | error e u => exact Disk.gainsFolders_of_replace_error h

/-- Saving settings by their names is confined to the file. -/
theorem confines_save (pairs : List (String × String)) :
    store.Confines t (store.save pairs t) := by
  rw [save]
  cases Settings.ofPairs pairs with
  | ok ss => exact confines_store ss
  | error e => exact confines_error _

/-- Setting one setting is confined to the file. -/
theorem confines_set (name value : String) : store.Confines t (store.set name value t) := by
  rw [set]
  cases Setting.check name value with
  | ok s => exact confines_load_bind fun ss => confines_save _
  | error e => exact confines_error _

/-- Deleting one setting is confined to the file. -/
theorem confines_delete (name : String) : store.Confines t (store.delete name t) := by
  rw [delete]
  refine confines_load_bind fun ss => ?_
  cases Setting.ofName? name with
  | none => exact confines_ok false
  | some s =>
    dsimp only
    split
    · exact confines_ok false
    · exact confines_map (confines_save _) fun _ => true

/-- **A write that fails leaves all files as they were**, and one that succeeds writes the file of
the store and no other: no request, on no file tree and with no path, leaves a file of a fresh
name. -/
theorem confines_perform (store : SettingsStore) (req : Request) (t : FileTree) :
    store.Confines t (store.perform req t) := by
  cases req with
  | get name =>
    refine confines_map ?_ Answer.value
    exact confines_load_bind fun ss => confines_ok _
  | set name value => exact confines_map (confines_set name value) fun _ => Answer.done
  | delete name => exact confines_map (confines_delete name) Answer.deleted
  | loadAll => exact confines_load_bind fun ss => confines_ok _
  | loadSettings => exact confines_load_bind fun ss => confines_ok _
  | saveAll pairs => exact confines_map (confines_save pairs) fun _ => Answer.done

end SettingsStore

end QueryAssist
