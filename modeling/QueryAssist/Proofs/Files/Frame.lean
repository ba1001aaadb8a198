import QueryAssist.Proofs.Files.Replace

/-! # What writing leaves as it was

However writing a file anew ends, it touches no other file. If it fails, all files are as they were
before, and the one of the fresh name is gone; if not, the only file that is new or changed is the
one that was written. Folders are only made where the way to the file needs them. Main definitions:

* **`Disk.treeAfter`** — the tree that an action leaves.
* **`FileTree.GainsFolders`** — a tree that has got the folders that a way was missing.

Main statements: `Disk.gainsFolders_makeFolders`, on the folders, and
`Disk.gainsFolders_of_replace_error` and `Disk.exists_gainsFolders_of_replace`, on the two ways in
which writing ends. -/

namespace QueryAssist

variable {t u v : FileTree} {p : Path} {content : ByteArray} {start place : Place}
  {names more : List String} {last : String}

/-! ### Folders that are gained -/

namespace FileTree

/-- A tree **gains folders** along a way: the files are the same, all folders are still there, and
each new one is where nothing was, at a place that some first names of the way lead to. -/
structure GainsFolders (start : Place) (names : List String) (t u : FileTree) : Prop where
  files : u.files = t.files
  kept : ∀ f ∈ t.folders, f ∈ u.folders
  gained : ∀ f ∈ u.folders, f ∈ t.folders ∨
    t.node? f = none ∧ ∃ way, way <+: names ∧ u.walk start way = .ok f

/-- The tree with a folder at a place. -/
def withFolder (t : FileTree) (place : Place) : FileTree :=
  { t with folders := t.folders ++ [place] }

/-- What was a folder is one if no file and no folder is gone. -/
theorem isFolder_of_kept (hfiles : u.files = t.files) (hkept : ∀ f ∈ t.folders, f ∈ u.folders)
    {q : Place} (h : t.isFolder q = true) : u.isFolder q = true := by
  rw [isFolder_iff] at h ⊢
  rw [hfiles]
  exact h.imp_right (Or.imp_right (Or.imp_left fun ⟨f, hf, hq⟩ => ⟨f, hkept f hf, hq⟩))

/-- A folder is still there if all folders are kept and the files are the same. -/
theorem node?_of_kept (hfiles : u.files = t.files) (hkept : ∀ f ∈ t.folders, f ∈ u.folders)
    {q : Place} (h : t.node? q = some .folder) : u.node? q = some .folder := by
  rw [node?_eq_folder_iff] at h ⊢
  exact ⟨hfiles ▸ h.1, isFolder_of_kept hfiles hkept h.2⟩

namespace GainsFolders

/-- A tree gains nothing where it stays. -/
@[refl] theorem refl (start : Place) (names : List String) (t : FileTree) :
    GainsFolders start names t t := ⟨rfl, fun _ hf => hf, fun _ hf => .inl hf⟩

/-- What is gained along a way is gained along a longer one. -/
theorem mono (h : GainsFolders start names t u) (hmore : names <+: more) :
    GainsFolders start more t u := by
  refine ⟨h.files, h.kept, fun f hf => (h.gained f hf).imp_right ?_⟩
  rintro ⟨hnone, way, hway, hwalk⟩
  exact ⟨hnone, way, hway.trans hmore, hwalk⟩

/-- Where nothing is in the end nothing was. -/
theorem node?_eq_none (h : GainsFolders start names t u) (hplace : u.node? place = none) :
    t.node? place = none := by
  rw [node?_eq_none_iff] at hplace ⊢
  exact ⟨h.files ▸ hplace.1, fun hf => hplace.2 (isFolder_of_kept h.files h.kept hf)⟩

/-- What is gained in two goes is gained along the way. -/
@[trans] theorem trans (h : GainsFolders start names t u) (h' : GainsFolders start names u v) :
    GainsFolders start names t v := by
  refine ⟨h'.files.trans h.files, fun f hf => h'.kept f (h.kept f hf), fun f hf => ?_⟩
  obtain hf | ⟨hnone, hway⟩ := h'.gained f hf
  · obtain hf | ⟨hnone, way, hprefix, hwalk⟩ := h.gained f hf
    · exact .inl hf
    · have hlater := walk_of_folders (fun _ hq => node?_of_kept h'.files h'.kept hq) hwalk
      exact .inr ⟨hnone, way, hprefix, hlater⟩
  · exact .inr ⟨h.node?_eq_none hnone, hway⟩

end GainsFolders

/-- A tree with **one more folder**, by a name in a folder that a way leads to. -/
theorem gainsFolders_withFolder {folder : Place} (hwalk : t.walk start names = .ok folder)
    (hlast : last ≠ "." ∧ last ≠ "..") (hentry : entry folder last = .ok place)
    (hnone : t.node? place = none) :
    GainsFolders start (names ++ [last]) t (t.withFolder place) := by
  have hkept : ∀ f ∈ t.folders, f ∈ (t.withFolder place).folders :=
    fun _ hf => List.mem_append_left _ hf
  refine ⟨rfl, hkept, fun f hf => (List.mem_append.1 hf).imp_right fun hf => ?_⟩
  obtain rfl := List.mem_singleton.1 hf
  have hnode : (t.withFolder f).node? f = some .folder :=
    node?_eq_folder_iff.2 ⟨(node?_eq_none_iff.1 hnone).1, isFolder_iff.2
      (.inr (.inr (.inl ⟨f, List.mem_append_right _ hf, List.prefix_refl f⟩)))⟩
  have hfolders : ∀ q, t.node? q = some .folder → (t.withFolder f).node? q = some .folder :=
    fun q hq => node?_of_kept (t := t) (u := t.withFolder f) rfl hkept hq
  have hbefore := walk_of_folders hfolders hwalk
  exact ⟨hnone, names ++ [last], List.prefix_refl _, walk_concat_iff.2
    ⟨folder, hbefore, (step_eq_ok_iff hlast).2 ⟨hentry, hnode⟩⟩⟩

end FileTree

/-! ### However an action ends -/

namespace Disk

open FileTree

variable {α β : Type} {folder source : Place} {before : List String} {e : FileError}

/-- The tree that an action **leaves**, whether it succeeds or fails. -/
def treeAfter (x : Disk α) (t : FileTree) : FileTree :=
  match x t with
  | .ok _ u | .error _ u => u

/-- An action that succeeds leaves the tree that comes with its result. -/
theorem treeAfter_ok {x : Disk α} {a : α} (h : x t = .ok a u) : x.treeAfter t = u := by
  rw [treeAfter, h]

/-- One that fails leaves the tree that comes with the error. -/
theorem treeAfter_error {x : Disk α} (h : x t = .error e u) : x.treeAfter t = u := by
  rw [treeAfter, h]

/-- Two actions leave what the second one leaves, or the first one if it fails. -/
theorem treeAfter_bind (x : Disk α) (f : α → Disk β) (t : FileTree) :
    (x >>= f).treeAfter t = match x t with
      | .ok a u => (f a).treeAfter u
      | .error _ u => u := by
  change (match EStateM.bind x f t with | .ok _ u | .error _ u => u : FileTree) = _
  unfold EStateM.bind
  cases x t <;> rfl

/-- An action with a way out leaves what the way out leaves, if the action fails. -/
theorem treeAfter_tryCatch (x : Disk α) (f : FileError → Disk α) (t : FileTree) :
    (tryCatch x f).treeAfter t = match x t with
      | .ok _ u => u
      | .error e u => (f e).treeAfter u := by
  change (match EStateM.tryCatch x f t with | .ok _ u | .error _ u => u : FileTree) = _
  unfold EStateM.tryCatch
  cases x t <;> rfl

/-- Finding something out leaves the tree to what is done with it. -/
theorem treeAfter_ask_bind (f : FileTree → Except FileError α) (g : α → Disk β) (t : FileTree) :
    (ask f >>= g).treeAfter t = match f t with
      | .ok a => (g a).treeAfter t
      | .error _ => t := by
  rw [treeAfter_bind]
  cases h : f t with
  | ok a => rw [ask_eq_ok_iff.2 ⟨h, rfl⟩]
  | error e => rw [ask_eq_error_iff.2 ⟨h, rfl⟩]

/-- To look at the tree leaves it as it is. -/
theorem treeAfter_get_bind (f : FileTree → Disk β) (t : FileTree) :
    (get >>= f : Disk β).treeAfter t = (f t).treeAfter t := by
  rw [treeAfter, get_bind, treeAfter]

/-- What gains folders and goes on gaining folders gains folders. -/
theorem gainsFolders_bind {x : Disk α} {f : α → Disk β}
    (hx : GainsFolders start names t (x.treeAfter t))
    (hf : ∀ a u, GainsFolders start names u ((f a).treeAfter u)) :
    GainsFolders start names t ((x >>= f).treeAfter t) := by
  rw [treeAfter_bind]
  rw [treeAfter] at hx
  cases h : x t with
  | ok a u =>
    rw [h] at hx
    exact hx.trans (hf a u)
  | error e u =>
    rw [h] at hx
    exact hx

/-- An action with a way out gains folders along a way if both parts do. -/
theorem gainsFolders_tryCatch {x : Disk α} {f : FileError → Disk α}
    (hx : GainsFolders start names t (x.treeAfter t))
    (hf : ∀ e u, GainsFolders start names u ((f e).treeAfter u)) :
    GainsFolders start names t ((tryCatch x f).treeAfter t) := by
  rw [treeAfter_tryCatch]
  rw [treeAfter] at hx
  cases h : x t with
  | ok a u =>
    rw [h] at hx
    exact hx
  | error e u =>
    rw [h] at hx
    exact hx.trans (hf e u)

/-! ### Making folders -/

/-- **Making one folder** adds it where nothing is, or else does nothing. -/
theorem gainsFolders_makeFolder (start : Place) (before : List String) (last : String)
    (t : FileTree) :
    GainsFolders start (before ++ [last]) t ((makeFolder start before last).treeAfter t) := by
  by_cases husable : Path.areUsable (last :: before) = true
  · rw [makeFolder, husable, Bool.not_true, if_neg Bool.false_ne_true]
    dsimp only
    rw [treeAfter_ask_bind]
    cases hwalk : t.walk start before with
    | error => rfl
    | ok folder =>
      dsimp only
      by_cases hlast : last = "." ∨ last = ".."
      · rw [if_pos hlast]
        rfl
      · rw [if_neg hlast, treeAfter_ask_bind]
        cases hentry : entry folder last with
        | error => rfl
        | ok place =>
          dsimp only
          rw [treeAfter_get_bind]
          cases hnode : t.node? place with
          | none => exact gainsFolders_withFolder hwalk (not_or.1 hlast) hentry hnode
          | some n => cases n <;> rfl
  · rw [makeFolder, Bool.not_eq_true] at *
    rw [husable]
    rfl

/-- **Making the folders on a way** adds those that are missing. -/
theorem gainsFolders_makeFolders (start : Place) (names : List String) (t : FileTree) :
    GainsFolders start names.reverse t ((makeFolders start names).treeAfter t) := by
  induction names generalizing t with
  | nil => rfl
  | cons last before ih =>
    rw [makeFolders, List.reverse_cons]
    refine gainsFolders_tryCatch (gainsFolders_makeFolder ..) fun e u => ?_
    split
    · refine gainsFolders_bind ((ih u).mono (List.prefix_append _ _)) fun _ v => ?_
      exact gainsFolders_makeFolder ..
    · rfl

/-! ### Writing anew -/

/-- Moving a file **fails** without doing anything. -/
theorem eq_of_move_error {name : Option String} (h : move source folder name t = .error e u) :
    u = t := by
  unfold move at h
  split at h
  iterate 3 exact eq_of_throw_error h
  split at h
  · exact eq_of_throw_error h
  obtain hask | ⟨_, v, hask, hrest⟩ := bind_eq_error_iff.1 h
  · exact (ask_eq_error_iff.1 hask).2
  obtain ⟨-, rfl⟩ := ask_eq_ok_iff.1 hask
  obtain hask | ⟨place, w, hask, hput⟩ := bind_eq_error_iff.1 hrest
  · exact (ask_eq_error_iff.1 hask).2
  obtain ⟨-, rfl⟩ := ask_eq_ok_iff.1 hask
  rw [get_bind] at hput
  generalize w.node? place = node at hput
  rcases node with _ | _ | _
  · cases hput
  · cases hput
  · exact eq_of_throw_error hput

/-- Putting a file anew fails with **everything as it was**: the file of the fresh name is
gone. -/
theorem eq_of_putAnew_error {name : Option String} (h : putAnew folder name content t = .error e u) :
    u = t := by
  change EStateM.tryCatch (move (folder ++ [freshName (namesIn t folder)]) folder name) _
    (t.withFile (folder ++ [freshName (namesIn t folder)]) content) = _ at h
  rw [EStateM.tryCatch] at h
  split at h
  · next hmove =>
    obtain rfl := eq_of_move_error hmove
    cases h
    exact congrArg (FileTree.mk · t.folders) (erase_withFile_fresh t folder content)
  · next hok => exact (hok e u h).elim

/-- **Where writing anew fails** all that can be left of it is folders on the way to the file. -/
theorem gainsFolders_of_replace_error (h : replace p content t = .error e u) :
    GainsFolders (startOf p) p.names.dropLast t u := by
  have hmake := gainsFolders_makeFolders (startOf p) p.names.dropLast.reverse t
  rw [List.reverse_reverse] at hmake
  rw [replace_eq] at h
  obtain hfail | ⟨⟨⟩, v, hv, hrest⟩ := bind_eq_error_iff.1 h
  · exact treeAfter_error hfail ▸ hmake
  rw [treeAfter_ok hv] at hmake
  obtain hask | ⟨folder, w, hask, hput⟩ := bind_eq_error_iff.1 hrest
  · exact (ask_eq_error_iff.1 hask).2 ▸ hmake
  obtain ⟨-, rfl⟩ := ask_eq_ok_iff.1 hask
  exact eq_of_putAnew_error hput ▸ hmake

/-- **Where writing anew succeeds** the file at its place is the only one that is new or changed. -/
theorem exists_gainsFolders_of_replace (h : replace p content t = .ok () u) :
    ∃ v place, GainsFolders (startOf p) p.names.dropLast t v ∧ u = v.withFile place content ∧
      u.place (startOf p) p.names = .ok place := by
  obtain ⟨v, folder, name, hmake, hwalk, hlast, hroom, rfl⟩ := replace_eq_ok_iff.1 h
  have hgains := gainsFolders_makeFolders (startOf p) p.names.dropLast.reverse t
  rw [List.reverse_reverse, treeAfter_ok hmake] at hgains
  exact ⟨v, _, hgains, rfl, place_withFile hwalk hlast hroom content⟩

end Disk

end QueryAssist
