import QueryAssist.Files.Tree
import QueryAssist.Proofs.Steps
import Mathlib.Data.List.Basic

/-! # Writing a file anew

A file that is written anew can be read at its path at once. What is written does not matter for
whether it can be. Main definitions:

* **`FileTree.HasRoom`** — a name in a folder is free for a file.
* **`FileTree.IsWritable`** — a file can be written at a path.

Main statements: `Disk.replace_eq_ok_iff`, what it takes to write a file anew and what comes of it,
and `Disk.read_of_replace`, one that is written is read. -/

namespace QueryAssist

variable {t t' u : FileTree} {p : Path} {content : ByteArray} {start folder place : Place}
  {name : String} {names : List String}

namespace FileTree

/-- A folder is on the way to a place if the place begins with it. -/
theorem isOnWay_iff {q : Place} : isOnWay folder q = true ↔ folder <+: q :=
  List.isPrefixOf_iff_prefix

/-- Where the folders are. -/
theorem isFolder_iff {q : Place} : t.isFolder q = true ↔ q = [] ∨ q = ["/"] ∨
    (∃ f ∈ t.folders, q <+: f) ∨ ∃ f ∈ t.files.keys, q <+: f ∧ q ≠ f := by
  simp only [isFolder, Bool.or_eq_true, beq_iff_eq, List.any_eq_true, isOnWay_iff,
    Bool.and_eq_true, bne_iff_ne, Entries.keys, List.mem_map, or_assoc, exists_exists_and_eq_and]

/-- What is a folder and no file is found as a folder. -/
theorem node?_eq_folder_iff {q : Place} :
    t.node? q = some .folder ↔ q ∉ t.files.keys ∧ t.isFolder q = true := by
  rw [node?, ← Entries.get?_eq_none_iff]
  cases t.files.get? q <;> simp

/-- What is neither is not found. -/
theorem node?_eq_none_iff {q : Place} :
    t.node? q = none ↔ q ∉ t.files.keys ∧ ¬t.isFolder q = true := by
  rw [node?, ← Entries.get?_eq_none_iff]
  cases t.files.get? q <;> simp

/-- The tree with a file at a place. -/
def withFile (t : FileTree) (place : Place) (content : ByteArray) : FileTree :=
  { t with files := t.files.put place content }

/-- With a file at a place the folders elsewhere are still there. -/
theorem node?_withFile_of_folder {q : Place} (h : t.node? q = some .folder) (hq : q ≠ place)
    (content : ByteArray) : (t.withFile place content).node? q = some .folder := by
  rw [node?_eq_folder_iff] at h ⊢
  have hkeys : ∀ f, f ∈ (t.withFile place content).files.keys ↔ f ∈ t.files.keys ∨ f = place := by
    intro f
    rw [withFile, Entries.keys_put]
    split <;> simp +contextual [*]
  refine ⟨fun hmem => ((hkeys q).1 hmem).elim h.1 hq, ?_⟩
  refine isFolder_iff.2 ((isFolder_iff.1 h.2).imp_right (Or.imp_right (Or.imp_right ?_)))
  exact fun ⟨f, hf, hway⟩ => ⟨f, (hkeys f).2 (.inl hf), hway⟩

/-- A name in a folder **has room** for a file: it is a file's name, and there is no folder. -/
structure HasRoom (t : FileTree) (folder : Place) (name : String) : Prop where
  /-- The name does not lead elsewhere. -/
  plain : name ≠ "." ∧ name ≠ ".."
  /-- It can be that of a file. -/
  usable : Path.areUsable [name] = true
  /-- It is short enough. -/
  short : entry folder name = .ok (folder ++ [name])
  /-- There is no folder of that name. -/
  free : t.node? (folder ++ [name]) ≠ some .folder

/-- The place of a name in a folder. -/
theorem eq_of_entry (h : entry folder name = .ok place) : place = folder ++ [name] := by
  unfold entry at h
  split at h
  · exact (Except.ok.inj h).symm
  · cases h

/-- Something can be **written** at a path. -/
def IsWritable (t : FileTree) (p : Path) : Prop :=
  ∃ content t', Disk.replace p content t = .ok () t'

end FileTree

/-! ### Actions that succeed -/

/-- Asking for the state gives the one that there is. -/
theorem get_bind {ε σ α : Type} (f : σ → EStateM ε σ α) (s : σ) : (get >>= f) s = f s s := rfl

namespace Disk

/-- An action after another succeeds if both do. -/
theorem bind_eq_ok_iff {α β : Type} {x : Disk α} {f : α → Disk β} {b : β} :
    (x >>= f) t = .ok b t' ↔ ∃ a u, x t = .ok a u ∧ f a u = .ok b t' := by
  change EStateM.bind x f t = _ ↔ _
  unfold EStateM.bind
  split
  · next a u h => simp [h]
  · next h => simp [h]

/-- An action that gives up does not succeed. -/
theorem throw_ne_ok {α : Type} {e : FileError} {a : α} : (throw e : Disk α) t ≠ .ok a t' := nofun

/-- To ask the tree something leaves it as it is. -/
theorem ask_eq_ok_iff {α : Type} {f : FileTree → Except FileError α} {a : α} :
    ask f t = .ok a t' ↔ f t = .ok a ∧ t' = t := by
  unfold ask
  rw [bind_eq_ok_iff]
  constructor
  · rintro ⟨_, _, ⟨⟩, h⟩
    cases hf : f t with
    | ok b =>
      rw [hf] at h
      cases h
      exact ⟨rfl, rfl⟩
    | error e =>
      rw [hf] at h
      exact absurd h throw_ne_ok
  · rintro ⟨h, rfl⟩
    refine ⟨t', t', rfl, ?_⟩
    rw [h]
    rfl

/-- A file takes a place where there is no folder. -/
theorem put_of_free {source : Place} :
    (do
      match (← get).node? place with
      | some .folder => throw .isFolder
      | _ =>
        remove source
        put place content : Disk Unit) t = .ok () t' ↔
      t.node? place ≠ some .folder ∧
        t' = { t with files := (t.files.erase source).put place content } := by
  change (match t.node? place with
    | some .folder => throw .isFolder
    | _ => do
      remove source
      put place content : Disk Unit) t = .ok () t' ↔ _
  have hok : ∀ u : FileTree, (EStateM.Result.ok () u : EStateM.Result FileError FileTree Unit) =
      .ok () t' ↔ t' = u := fun u => by simp [eq_comm]
  rcases t.node? place with _ | _ | _
  · exact (hok _).trans (by simp)
  · exact (hok _).trans (by simp)
  · exact ⟨fun h => absurd h throw_ne_ok, fun h => absurd rfl h.1⟩

/-- Moving a file succeeds **onto a name that has room**. -/
theorem move_eq_ok_iff {source : Place} :
    move source folder (some name) t = .ok () t' ↔
      t.HasRoom folder name ∧ ∃ content, t.contentAt source = .ok content ∧
        t' = { t with files := (t.files.erase source).put (folder ++ [name]) content } := by
  -- The folder itself and the one around it are no names to move a file onto.
  by_cases hname : name = "." ∨ name = ".."
  · have hbusy : move source folder (some name) = throw .busy := by
      obtain rfl | rfl := hname <;> rfl
    rw [hbusy]
    refine ⟨fun h => absurd h throw_ne_ok, fun ⟨h, _⟩ => ?_⟩
    exact absurd hname (not_or.2 h.plain)
  rw [not_or] at hname
  rw [move.eq_4 source folder name hname.1 hname.2]
  by_cases husable : Path.areUsable [name] = true
  · rw [husable, Bool.not_true, if_neg Bool.false_ne_true, bind_eq_ok_iff]
    constructor
    · rintro ⟨content, u, hask, h⟩
      obtain ⟨hc, rfl⟩ := ask_eq_ok_iff.1 hask
      obtain ⟨place, v, hentry, hput⟩ := bind_eq_ok_iff.1 h
      obtain ⟨he, rfl⟩ := ask_eq_ok_iff.1 hentry
      obtain ⟨hn, rfl⟩ := put_of_free.1 hput
      obtain rfl := FileTree.eq_of_entry he
      exact ⟨⟨hname, husable, he, hn⟩, content, hc, rfl⟩
    · rintro ⟨h, content, hc, rfl⟩
      refine ⟨content, t, ask_eq_ok_iff.2 ⟨hc, rfl⟩, bind_eq_ok_iff.2 ?_⟩
      exact ⟨_, t, ask_eq_ok_iff.2 ⟨h.short, rfl⟩, put_of_free.2 ⟨h.free, rfl⟩⟩
  · rw [Bool.not_eq_true] at husable
    rw [husable]
    refine ⟨fun h => absurd h nofun, fun ⟨h, _⟩ => ?_⟩
    exact absurd h.usable (by rw [husable]; decide)

/-! ### Actions that fail -/

/-- An action after another fails if one of them does. -/
theorem bind_eq_error_iff {α β : Type} {x : Disk α} {f : α → Disk β} {e : FileError} :
    (x >>= f) t = .error e t' ↔
      x t = .error e t' ∨ ∃ a u, x t = .ok a u ∧ f a u = .error e t' := by
  change EStateM.bind x f t = _ ↔ _
  unfold EStateM.bind
  split
  · next a u h => simp [h]
  · next h => simp [h]

/-- To give up leaves the tree as it is. -/
theorem eq_of_throw_error {α : Type} {e e' : FileError}
    (h : (throw e : Disk α) t = .error e' t') : t' = t := by
  cases h
  rfl

/-- What cannot be found out leaves the tree as it is. -/
theorem ask_eq_error_iff {α : Type} {f : FileTree → Except FileError α} {e : FileError} :
    ask f t = .error e t' ↔ f t = .error e ∧ t' = t := by
  unfold ask
  rw [bind_eq_error_iff]
  constructor
  · rintro (⟨⟨⟩⟩ | ⟨_, _, ⟨⟩, h⟩)
    cases hf : f t with
    | ok a =>
      rw [hf] at h
      cases h
    | error e' =>
      rw [hf] at h
      cases h
      exact ⟨rfl, rfl⟩
  · rintro ⟨h, rfl⟩
    refine .inr ⟨t', t', rfl, ?_⟩
    rw [h]
    rfl

/-! ### Fresh names -/

/-- A fresh name is longer than the names there are. -/
theorem length_lt_length_freshName {n : String} (h : n ∈ names) :
    n.length < (freshName names).length := by
  have hfold : ∀ (ms : List Nat) (k : Nat), k ≤ ms.foldl max k ∧ ∀ m ∈ ms, m ≤ ms.foldl max k := by
    intro ms
    induction ms with
    | nil => simp
    | cons m ms ih =>
      intro k
      obtain ⟨hk, hms⟩ := ih (max k m)
      refine ⟨by simp only [List.foldl_cons]; omega, List.forall_mem_cons.2 ⟨?_, hms⟩⟩
      simp only [List.foldl_cons]
      omega
  have hle := (hfold (names.map String.length) 0).2 _ (List.mem_map_of_mem h)
  simp only [freshName, String.length_append, String.length_ofList, List.length_replicate]
  have hprefix : ".tmp_".length = 5 := rfl
  omega

/-- The names in a folder. -/
theorem mem_namesIn {q : Place} (hq : q ∈ t.files.keys ++ t.folders) {n : String}
    (h : folder ++ [n] <+: q) : n ∈ namesIn t folder := by
  obtain ⟨rest, rfl⟩ := h
  have hfolder : FileTree.isOnWay folder (folder ++ [n] ++ rest) = true := by
    rw [List.append_assoc]
    exact FileTree.isOnWay_iff.2 (List.prefix_append _ _)
  rw [namesIn, List.mem_filterMap]
  exact ⟨_, hq, by rw [if_pos hfolder]; simp⟩

/-- **Nothing** is at a fresh name. -/
theorem node?_fresh (t : FileTree) (folder : Place) :
    t.node? (folder ++ [freshName (namesIn t folder)]) = none := by
  have hway : ∀ q ∈ t.files.keys ++ t.folders, ¬folder ++ [freshName (namesIn t folder)] <+: q :=
    fun q hq h => Nat.lt_irrefl _ (length_lt_length_freshName (mem_namesIn hq h))
  have hroot : freshName (namesIn t folder) ≠ "/" := by
    intro h
    have hlen := congrArg String.length h
    simp only [freshName, String.length_append] at hlen
    have hprefix : ".tmp_".length = 5 := rfl
    have hslash : "/".length = 1 := rfl
    omega
  have hkey : folder ++ [freshName (namesIn t folder)] ∉ t.files.keys := fun h =>
    hway _ (List.mem_append_left _ h) (List.prefix_refl _)
  have hfolder : ¬t.isFolder (folder ++ [freshName (namesIn t folder)]) = true := by
    rw [FileTree.isFolder_iff]
    rintro (h | h | ⟨f, hf, h⟩ | ⟨f, hf, h, -⟩)
    · simp at h
    · exact hroot (by simpa using congrArg List.getLast? h)
    · exact hway f (List.mem_append_right _ hf) h
    · exact hway f (List.mem_append_left _ hf) h
  rw [FileTree.node?, Entries.get?_eq_none_iff.2 hkey]
  exact if_neg hfolder

/-- A file of a fresh name takes no room from other names. -/
theorem hasRoom_withFile_fresh (content : ByteArray) :
    (t.withFile (folder ++ [freshName (namesIn t folder)]) content).HasRoom folder name ↔
      t.HasRoom folder name := by
  have hfresh := node?_fresh t folder
  generalize freshName (namesIn t folder) = fresh at hfresh ⊢
  have hkey := (FileTree.node?_eq_none_iff.1 hfresh).1
  have hfree : (t.withFile (folder ++ [fresh]) content).node? (folder ++ [name]) = some .folder ↔
      t.node? (folder ++ [name]) = some .folder := by
    constructor
    · intro h
      rw [FileTree.node?_eq_folder_iff, FileTree.withFile, Entries.keys_put, if_neg hkey,
        List.mem_append, not_or] at h
      refine FileTree.node?_eq_folder_iff.2 ⟨h.1.1, ?_⟩
      refine FileTree.isFolder_iff.2 ((FileTree.isFolder_iff.1 h.2).imp_right
        (Or.imp_right (Or.imp_right ?_)))
      rintro ⟨f, hf, hway, hne⟩
      rw [Entries.keys_put, if_neg hkey, List.mem_append, List.mem_singleton] at hf
      obtain hf | rfl := hf
      · exact ⟨f, hf, hway, hne⟩
      -- The name would lead to the fresh one, but it is as long.
      · exact absurd (hway.eq_of_length (by simp)) hne
    · intro h
      refine FileTree.node?_withFile_of_folder h (fun heq => ?_) content
      rw [heq, hfresh] at h
      cases h
  constructor
  · exact fun h => ⟨h.plain, h.usable, h.short, fun hn => h.free (hfree.2 hn)⟩
  · exact fun h => ⟨h.plain, h.usable, h.short, fun hn => h.free (hfree.1 hn)⟩

/-! ### Writing anew -/

/-- What is done for an error does not matter if there is none. -/
theorem tryCatch_eq_ok_iff {x : Disk Unit} {source : Place} :
    (tryCatch x fun e => do
      remove source
      throw e) t = .ok () t' ↔ x t = .ok () t' := by
  change EStateM.tryCatch x _ t = _ ↔ _
  cases h : x t with
  | ok => rw [EStateM.tryCatch, h]
  | error =>
    rw [EStateM.tryCatch, h]
    exact ⟨nofun, nofun⟩

/-- **Putting a file anew** into a folder: it is put there under a fresh name and then moved. -/
def putAnew (folder : Place) (name : Option String) (content : ByteArray) : Disk Unit := do
  let source := folder ++ [freshName (namesIn (← get) folder)]
  put source content
  tryCatch (move source folder name) fun e => do
    remove source
    throw e

/-- A file is written anew by making the folders on the way to it and putting it there. -/
theorem replace_eq (p : Path) (content : ByteArray) : replace p content = (do
    makeFolders (FileTree.startOf p) p.names.dropLast.reverse
    let folder ← ask (·.walk (FileTree.startOf p) p.names.dropLast)
    putAnew folder p.names.getLast? content) := rfl

/-- What a file of a fresh name takes is given back with it. -/
theorem erase_withFile_fresh (t : FileTree) (folder : Place) (content : ByteArray) :
    (t.withFile (folder ++ [freshName (namesIn t folder)]) content).files.erase
      (folder ++ [freshName (namesIn t folder)]) = t.files :=
  Entries.erase_put_of_not_mem (FileTree.node?_eq_none_iff.1 (node?_fresh t folder)).1 content

/-- A file is put anew under a name that has room. -/
theorem putAnew_eq_ok_iff {last : Option String} : putAnew folder last content t = .ok () t' ↔
    ∃ name, last = some name ∧ t.HasRoom folder name ∧
      t' = t.withFile (folder ++ [name]) content := by
  change (tryCatch (move (folder ++ [freshName (namesIn t folder)]) folder last) _ :
    Disk Unit) (t.withFile (folder ++ [freshName (namesIn t folder)]) content) = _ ↔ _
  rw [tryCatch_eq_ok_iff]
  have hcontent : (t.withFile (folder ++ [freshName (namesIn t folder)]) content).contentAt
      (folder ++ [freshName (namesIn t folder)]) = .ok content := by
    rw [FileTree.contentAt, FileTree.node?, FileTree.withFile, Entries.get?_put, if_pos rfl]
  cases last with
  | none => exact ⟨fun h => absurd h throw_ne_ok, nofun⟩
  | some name =>
    rw [move_eq_ok_iff, hasRoom_withFile_fresh, hcontent, erase_withFile_fresh]
    simp [FileTree.withFile]

/-- **A file is written anew** where there can be folders for it and its name has room, and then it
has been put there. -/
theorem replace_eq_ok_iff : replace p content t = .ok () t' ↔
    ∃ u folder name, makeFolders (FileTree.startOf p) p.names.dropLast.reverse t = .ok () u ∧
      u.walk (FileTree.startOf p) p.names.dropLast = .ok folder ∧ p.names.getLast? = some name ∧
      u.HasRoom folder name ∧ t' = u.withFile (folder ++ [name]) content := by
  rw [replace_eq, bind_eq_ok_iff]
  constructor
  · rintro ⟨⟨⟩, u, hmake, h⟩
    obtain ⟨folder, v, hask, h'⟩ := bind_eq_ok_iff.1 h
    obtain ⟨hwalk, rfl⟩ := ask_eq_ok_iff.1 hask
    obtain ⟨name, hlast, hroom, rfl⟩ := putAnew_eq_ok_iff.1 h'
    exact ⟨v, folder, name, hmake, hwalk, hlast, hroom, rfl⟩
  · rintro ⟨u, folder, name, hmake, hwalk, hlast, hroom, rfl⟩
    exact ⟨(), u, hmake, bind_eq_ok_iff.2 ⟨folder, u, ask_eq_ok_iff.2 ⟨hwalk, rfl⟩,
      putAnew_eq_ok_iff.2 ⟨name, hlast, hroom, rfl⟩⟩⟩

/-- Folders are made on usable ways only. -/
theorem areUsable_of_makeFolders (h : makeFolders start names t = .ok () u) :
    Path.areUsable names = true := by
  cases names with
  | nil => rfl
  | cons last before =>
    by_contra husable
    rw [Bool.not_eq_true] at husable
    have hfail : makeFolder start before.reverse last t = .error .unusable t := by
      have hreverse : Path.areUsable (last :: before.reverse) = false := by
        simpa [Path.areUsable] using husable
      rw [makeFolder, hreverse]
      rfl
    rw [makeFolders] at h
    change EStateM.tryCatch (makeFolder start before.reverse last) _ t = _ at h
    rw [EStateM.tryCatch, hfail] at h
    cases h

end Disk

namespace FileTree

/-- A step to a name leads to the folder of that name. -/
theorem step_eq_ok_iff {q r : Place} (h : name ≠ "." ∧ name ≠ "..") :
    t.step q name = .ok r ↔ entry q name = .ok r ∧ t.node? r = some .folder := by
  unfold step
  rw [if_neg h.1, if_neg h.2]
  cases he : entry q name with
  | error e => exact ⟨nofun, nofun⟩
  | ok f =>
    dsimp only [bind, Except.bind]
    split
    · next hf =>
      refine ⟨fun h => ?_, fun h => h.1⟩
      obtain rfl := Except.ok.inj h
      exact ⟨rfl, hf⟩
    all_goals
      next hf =>
      refine ⟨nofun, fun ⟨hr, hn⟩ => ?_⟩
      obtain rfl := Except.ok.inj hr
      rw [hn] at hf
      cases hf

/-- A way goes on by one step. -/
theorem walk_concat_iff : t.walk start (names ++ [name]) = .ok place ↔
    ∃ folder, t.walk start names = .ok folder ∧ t.step folder name = .ok place := by
  rw [walk, List.foldlM_append]
  simp only [List.foldlM_cons, List.foldlM_nil, bind_pure]
  constructor
  · exact bind_eq_ok_iff.1
  · rintro ⟨folder, hwalk, hstep⟩
    rw [walk] at hwalk
    rw [hwalk]
    exact hstep

/-- Where all folders are still there **each way leads where it led**. -/
theorem walk_of_folders (hfolders : ∀ q, t.node? q = some .folder → u.node? q = some .folder)
    (h : t.walk start names = .ok folder) : u.walk start names = .ok folder := by
  have hstep : ∀ {q r : Place} {n : String}, t.step q n = .ok r → u.step q n = .ok r := by
    intro q r n h
    by_cases hn : n = "." ∨ n = ".."
    · obtain rfl | rfl := hn <;> exact h
    · rw [not_or] at hn
      obtain ⟨he, hr⟩ := (step_eq_ok_iff hn).1 h
      exact (step_eq_ok_iff hn).2 ⟨he, hfolders r hr⟩
  induction names generalizing start with
  | nil => exact h
  | cons n names ih =>
    rw [walk, List.foldlM_cons] at h ⊢
    obtain ⟨q, hn, hwalk⟩ := bind_eq_ok_iff.1 h
    rw [hstep hn]
    exact ih hwalk

/-- So it is with a file where there is no folder. -/
theorem walk_withFile (h : t.walk start names = .ok folder) (hplace : t.node? place ≠ some .folder)
    (content : ByteArray) : (t.withFile place content).walk start names = .ok folder := by
  refine walk_of_folders (fun q hq => node?_withFile_of_folder hq (fun heq => ?_) content) h
  exact hplace (heq ▸ hq)

/-- The place of a path is the one by its **last name** in the folder before it. -/
theorem place_withFile (hwalk : t.walk (startOf p) p.names.dropLast = .ok folder)
    (hlast : p.names.getLast? = some name) (hroom : t.HasRoom folder name) (content : ByteArray) :
    (t.withFile (folder ++ [name]) content).place (startOf p) p.names = .ok (folder ++ [name]) := by
  rw [place, hlast]
  simp only [walk_withFile hwalk hroom.free, bind, Except.bind, not_or.2 hroom.plain, if_false]
  exact hroom.short

/-- **A file is read** where it is. -/
theorem read_withFile (husable : Path.areUsable p.names = true)
    (hwalk : t.walk (startOf p) p.names.dropLast = .ok folder)
    (hlast : p.names.getLast? = some name) (hroom : t.HasRoom folder name) (content : ByteArray) :
    (t.withFile (folder ++ [name]) content).read p = .ok content := by
  have hplace := place_withFile hwalk hlast hroom content
  have hcontent : (t.withFile (folder ++ [name]) content).contentAt (folder ++ [name]) =
      .ok content := by
    rw [contentAt, node?, withFile, Entries.get?_put, if_pos rfl]
  rw [read, husable, hplace]
  exact hcontent

end FileTree

/-! ### Writing and reading -/

/-- **What is written anew is read**, and anything else could have been written. -/
theorem Disk.read_of_replace (h : replace p content t = .ok () t') : t'.read p = .ok content := by
  obtain ⟨u, folder, name, hmake, hwalk, hlast, hroom, rfl⟩ := replace_eq_ok_iff.1 h
  refine FileTree.read_withFile ?_ hwalk hlast hroom content
  have husable := areUsable_of_makeFolders hmake
  rw [← List.dropLast_append_getLast? _ hlast]
  simp only [Path.areUsable, List.all_append, List.all_reverse, Bool.and_eq_true] at husable ⊢
  exact ⟨husable, hroom.usable⟩

/-- Where something can be written, a file **can be written anew**, and it is read afterwards. -/
theorem FileTree.IsWritable.exists_replace (h : t.IsWritable p) (content : ByteArray) :
    ∃ t', Disk.replace p content t = .ok () t' ∧ t'.read p = .ok content := by
  obtain ⟨_, _, h⟩ := h
  obtain ⟨u, folder, name, hmake, hwalk, hlast, hroom, -⟩ := Disk.replace_eq_ok_iff.1 h
  have h' : Disk.replace p content t = .ok () (u.withFile (folder ++ [name]) content) :=
    Disk.replace_eq_ok_iff.2 ⟨u, folder, name, hmake, hwalk, hlast, hroom, rfl⟩
  exact ⟨_, h', Disk.read_of_replace h'⟩

/-- No folders are made on a way that leads to one. -/
theorem Disk.makeFolders_of_walk (husable : Path.areUsable names = true)
    (h : t.walk start names.reverse = .ok folder) : makeFolders start names t = .ok () t := by
  cases names with
  | nil => rfl
  | cons last before =>
    have hmake : makeFolder start before.reverse last t = .ok () t := by
      have hreverse : Path.areUsable (last :: before.reverse) = true := by
        simpa [Path.areUsable] using husable
      rw [List.reverse_cons, FileTree.walk_concat_iff] at h
      obtain ⟨q, hq, hstep⟩ := h
      rw [makeFolder, hreverse, Bool.not_true, if_neg Bool.false_ne_true]
      refine bind_eq_ok_iff.2 ⟨q, t, ask_eq_ok_iff.2 ⟨hq, rfl⟩, ?_⟩
      by_cases hlast : last = "." ∨ last = ".."
      · rw [if_pos hlast]
        rfl
      · rw [if_neg hlast]
        obtain ⟨he, hn⟩ := (FileTree.step_eq_ok_iff (not_or.1 hlast)).1 hstep
        refine bind_eq_ok_iff.2 ⟨folder, t, ask_eq_ok_iff.2 ⟨he, rfl⟩, ?_⟩
        refine bind_eq_ok_iff.2 ⟨t, t, rfl, ?_⟩
        rw [hn]
        rfl
    rw [makeFolders]
    -- The folder is there, so no error is left for the handler to catch.
    change EStateM.tryCatch (makeFolder start before.reverse last) _ t = _
    rw [EStateM.tryCatch, hmake]

/-- A file **can be written** in a folder that is there, by a name that has room. -/
theorem FileTree.isWritable_of_walk (husable : Path.areUsable p.names = true)
    (hwalk : t.walk (startOf p) p.names.dropLast = .ok folder)
    (hlast : p.names.getLast? = some name) (hroom : t.HasRoom folder name) : t.IsWritable p := by
  refine ⟨.empty, _, Disk.replace_eq_ok_iff.2 ⟨t, folder, name, ?_, hwalk, hlast, hroom, rfl⟩⟩
  have hfolder : t.walk (startOf p) p.names.dropLast.reverse.reverse = .ok folder := by
    rwa [List.reverse_reverse]
  refine Disk.makeFolders_of_walk ?_ hfolder
  rw [← List.dropLast_append_getLast? _ hlast, Path.areUsable, List.all_append,
    Bool.and_eq_true] at husable
  rw [Path.areUsable, List.all_reverse]
  exact husable.1

/-- So it can where one is read by its name. -/
theorem FileTree.isWritable_of_read (h : t.read p = .ok content)
    (hlast : p.names.getLast? = some name) (hname : name ≠ "." ∧ name ≠ "..") :
    t.IsWritable p := by
  have husable : Path.areUsable p.names = true := by
    by_contra hnot
    rw [Bool.not_eq_true] at hnot
    rw [read, hnot] at h
    cases h
  rw [read, husable] at h
  obtain ⟨q, hplace, hread⟩ := bind_eq_ok_iff.1 h
  rw [place, hlast] at hplace
  obtain ⟨folder, hwalk, hentry⟩ := bind_eq_ok_iff.1 hplace
  rw [if_neg (not_or.2 hname)] at hentry
  obtain rfl := eq_of_entry hentry
  refine isWritable_of_walk husable hwalk hlast ⟨hname, ?_, hentry, fun hn => ?_⟩
  · rw [← List.dropLast_append_getLast? _ hlast, Path.areUsable, List.all_append,
      Bool.and_eq_true] at husable
    exact husable.2
  · rw [contentAt, hn] at hread
    cases hread

/-- What was written anew **can be written** anew. -/
theorem FileTree.isWritable_of_replace (h : Disk.replace p content t = .ok () t') :
    t'.IsWritable p := by
  obtain ⟨_, _, _, -, -, hlast, hroom, -⟩ := Disk.replace_eq_ok_iff.1 h
  exact isWritable_of_read (Disk.read_of_replace h) hlast hroom.plain

end QueryAssist
