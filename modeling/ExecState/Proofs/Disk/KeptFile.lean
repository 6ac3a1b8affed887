import ExecState.Disk.FileTree
import Mathlib.Tactic.SplitIfs

/-!
# Files that are written

What a write leaves on a disk: the file where nothing stands in its way, and no file but those that
were there where it is refused.
-/

namespace ExecState

/-!
## A file that can be kept

What it means that the operations on one file of a disk succeed: what is written is what is read
next, and a file that is removed is gone (`Disk.KeepsFile`). It is said of a disk over any states,
and only for those in which nothing stands in the way of the file.

A file tree is such a disk for every file right below the root, as long as the name is not that of a
directory (`FileTree.keepsFile`).
-/

/-- Whether the operations on the file at a path succeed in all states of a kind, where the text of
the file is a part of the state. -/
structure Disk.KeepsFile {σ : Type} (disk : Disk (StateM σ)) (path : String) (IsSound : σ → Prop)
    (content : σ → Option String) : Prop where
  isPresent : ∀ s, IsSound s → (disk.isPresent path).run s = ((content s).isSome, s)
  read : ∀ s text, IsSound s → content s = some text → (disk.read path).run s = (.ok text, s)
  write : ∀ s text, IsSound s →
    ∃ s', (disk.write path text).run s = (.ok (), s') ∧ IsSound s' ∧ content s' = some text
  delete : ∀ s, IsSound s →
    ∃ s', (disk.delete path).run s = (true, s') ∧ IsSound s' ∧ content s' = none

/-! ### Files right below the root of a tree -/

namespace Entries

variable {entries : Entries} {name : String}

theorem get?_put (node : FileNode) : (entries.put name node).get? name = some node := by
  induction entries with
  | nil => exact List.lookup_cons_self
  | cons e rest ih =>
    rw [put]
    split
    · exact List.lookup_cons_self
    · rename_i hne
      rw [get?, List.lookup_cons, beq_eq_false_iff_ne.mpr (Ne.symm hne)]
      exact ih

theorem get?_remove : (entries.remove name).get? name = none := by
  rw [get?, remove, List.lookup_eq_none_iff]
  intro e he
  have hne : e.1 ≠ name := of_decide_eq_true (List.mem_filter.mp he).2
  exact bne_iff_ne.mpr hne.symm

end Entries

namespace FileTree

/-- A name that a file may have, without a way to another directory in it. -/
structure IsPlainName (name : String) : Prop where
  ne_nil : name.toList ≠ []
  noSlash : '/' ∉ name.toList
  noDots : isDots name = false
  noNul : hasNul name = false
  size : name.utf8ByteSize ≤ maxNameSize

/-- The text of a file right below the root. -/
def textOf? (name : String) (t : FileTree) : Option String :=
  match t.entries.get? name with
  | some (.file text) => some text
  | _ => none

/-- Whether a name is free for a file: there is no directory of the name. -/
def HasRoom (name : String) (t : FileTree) : Prop :=
  ∀ entries, t.entries.get? name ≠ some (.directory entries)

variable {name : String} {t : FileTree}

theorem parts_eq_singleton {cs : List Char} (h : '/' ∉ cs) : parts cs = [cs] := by
  induction cs with
  | nil => rfl
  | cons c cs ih =>
    rw [List.mem_cons, not_or] at h
    rw [parts, ih h.2]
    exact if_neg (Ne.symm h.1)

namespace IsPlainName

variable (h : IsPlainName name)

include h

theorem path_eq : Path.ofString name = ⟨[name], name.utf8ByteSize, false⟩ := by
  have hlast : ([name.toList].getLast? == some []) = false := by simpa using h.ne_nil
  have hnames : [name.toList].filter (fun p ↦ !p.isEmpty) = [name.toList] :=
    List.filter_eq_self.mpr (by simpa using h.ne_nil)
  simp only [Path.ofString, parts_eq_singleton h.noSlash, hlast, hnames, List.map_cons,
    List.map_nil, String.ofList_toList, List.reverse_singleton]

theorem isEmpty_eq : name.isEmpty = false := by
  rw [String.isEmpty_eq_false_iff]
  rintro rfl
  exact h.ne_nil rfl

/-- There are no directories to be created. -/
theorem above_eq : Path.above name = [] := by
  have hleading : Path.leading 0 [] [name] = [⟨[name], name.utf8ByteSize, false⟩] := by
    rw [Path.leading, if_neg (by rw [h.isEmpty_eq]; decide), Path.leading, Nat.zero_add]
    rfl
  rw [Path.above, parts_eq_singleton h.noSlash, List.map_singleton, String.ofList_toList, hleading]
  exact List.drop_eq_nil_of_le (List.length_filter_le _ _)

theorem fault?_eq : (Path.ofString name).fault? = none := by
  have hsize : name.utf8ByteSize ≠ 0 := by
    rw [ne_eq, String.utf8ByteSize_eq_zero_iff]
    rintro rfl
    exact h.ne_nil rfl
  have hlong : ¬ maxPathSize < name.utf8ByteSize :=
    Nat.not_lt.mpr (Nat.le_trans h.size (by decide))
  rw [h.path_eq, Path.fault?, if_neg, if_neg hlong, if_neg hsize]
  rw [List.any_cons, h.noNul]
  decide

theorem look_root : (Place.root t).look name = .ok (t.entries.get? name) := if_pos h.size

end IsPlainName

theorem HasRoom.get?_eq (ht : HasRoom name t) :
    t.entries.get? name = (textOf? name t).map .file := by
  rw [textOf?]
  cases hget : t.entries.get? name with
  | none => rfl
  | some node =>
    cases node with
    | file text => rfl
    | directory entries => exact absurd hget (ht entries)

theorem textOf?_of_get?_eq {text? : Option String} (hget : t.entries.get? name = text?.map .file) :
    HasRoom name t ∧ textOf? name t = text? := by
  rw [HasRoom, textOf?, hget]
  cases text? with
  | none => exact ⟨fun _ ↦ nofun, rfl⟩
  | some text => exact ⟨fun _ ↦ nofun, rfl⟩

section

variable (h : IsPlainName name) (ht : HasRoom name t)

include h ht

theorem find_eq : t.find (Path.ofString name)
    = match textOf? name t with
      | none => .error .notFound
      | some text => .ok (.file text) := by
  rw [find, h.fault?_eq, h.path_eq]
  simp only [List.reverse_nil, Place.walk, h.noDots, Bool.false_eq_true, if_false, h.look_root,
    ht.get?_eq]
  cases textOf? name t <;> rfl

theorem write_eq (text : String) :
    t.write name text = .done () ⟨t.entries.put name (.file text)⟩ := by
  have hempty : ¬ name.isEmpty = true := by
    rw [h.isEmpty_eq]
    decide
  rw [write, changeOrCreate, if_neg hempty, h.above_eq, makeEach]
  simp only [Outcome.done, changeFile, h.fault?_eq]
  rw [h.path_eq]
  simp only [List.reverse_nil, Place.walk, h.noDots, Bool.false_eq_true, Bool.or_false, if_false,
    h.look_root, ht.get?_eq]
  cases textOf? name t <;> rfl

theorem delete_eq : ∃ t', t.delete name = (true, t') ∧ t'.entries.get? name = none := by
  have hlast : t.removeLast (Path.ofString name) = (true, ⟨t.entries.remove name⟩) := by
    rw [removeLast, h.path_eq]
    simp only [List.reverse_nil, Place.walk, h.noDots, Bool.false_eq_true, if_false]
    rfl
  simp only [delete, find_eq h ht]
  cases htext : textOf? name t with
  | none => exact ⟨t, rfl, by rw [ht.get?_eq, htext]; rfl⟩
  | some text => exact ⟨_, hlast, Entries.get?_remove⟩

end

/-- **A file right below the root can be kept**, where no directory has its name. -/
theorem keepsFile (h : IsPlainName name) :
    disk.KeepsFile name (HasRoom name) (textOf? name) where
  isPresent t ht := by
    have hpresent : t.isPresent name = (textOf? name t).isSome := by
      rw [isPresent, find_eq h ht]
      cases textOf? name t <;> rfl
    rw [← hpresent]
    rfl
  read t text ht htext := by
    have hread : t.read name = .ok text := by
      rw [read, find_eq h ht, htext]
    rw [← hread]
    rfl
  write t text ht := by
    have hget : (t.entries.put name (.file text)).get? name = (some text).map .file :=
      Entries.get?_put _
    exact ⟨_, write_eq h ht text, textOf?_of_get?_eq hget⟩
  delete t ht := by
    obtain ⟨t', hdelete, hget⟩ := delete_eq h ht
    exact ⟨t', hdelete, textOf?_of_get?_eq hget⟩

end FileTree

/-!
## What a refused write leaves behind

A file is written after the directories that it lies in have been created, one below the other. The
write may be refused at any of them and, last of all, at the file itself, so that a refusal need not
leave the tree as it was: directories that were created on the way stay. Files are another matter.
None is created, changed or removed (`FileTree.textAt?_write_of_error`), and that is said by the
names that lead down to a file from the root.

A path may go up as well as down, so that what is walked is not what leads to a place. But a walk
does not change the tree around the place that it has come to (`FileTree.Place.tree_walk`), and what
is put there in the end is found below the same names as before
(`FileTree.Place.textAt?_tree_congr`).
-/

/-! ### Files by their names -/

namespace Entries

/-- The text of the file that names lead to, from a directory down. -/
def textAt? (entries : Entries) : (names : List String) → Option String
  | [] => none
  | name :: rest =>
    match entries.get? name with
    | none => none
    | some (.file text) => if rest.isEmpty then some text else none
    | some (.directory entries) => textAt? entries rest

variable {entries here here' : Entries} {name : String}

theorem get?_put_of_ne {other : String} (h : other ≠ name) (node : FileNode) :
    (entries.put name node).get? other = entries.get? other := by
  induction entries with
  | nil =>
    rw [put, get?, List.lookup_cons, beq_eq_false_iff_ne.mpr h]
    rfl
  | cons e rest ih =>
    rw [put]
    split
    · rename_i heq
      rw [get?, get?, List.lookup_cons, List.lookup_cons, heq, beq_eq_false_iff_ne.mpr h]
    · rw [get?, get?, List.lookup_cons, List.lookup_cons]
      split
      · rfl
      · exact ih

/-- Nothing changes where something is put that is there already. -/
theorem put_eq_self {node : FileNode} (h : entries.get? name = some node) :
    entries.put name node = entries := by
  induction entries with
  | nil => cases h
  | cons e rest ih =>
    rw [get?, List.lookup_cons] at h
    rw [put]
    split
    · rename_i heq
      rw [beq_iff_eq.mpr heq.symm] at h
      obtain rfl : e.2 = node := Option.some_inj.mp h
      rw [← heq]
    · rename_i hne
      rw [beq_eq_false_iff_ne.mpr (Ne.symm hne)] at h
      rw [ih h]

theorem textAt?_put_congr (h : ∀ names, here.textAt? names = here'.textAt? names)
    (names : List String) :
    textAt? (entries.put name (.directory here)) names
      = textAt? (entries.put name (.directory here')) names := by
  cases names with
  | nil => rfl
  | cons other rest =>
    rw [textAt?, textAt?]
    by_cases heq : other = name
    · rw [heq, get?_put, get?_put]
      exact h rest
    · rw [get?_put_of_ne heq, get?_put_of_ne heq]

theorem textAt?_put_of_vacant (h : entries.get? name = none) (names : List String) :
    textAt? (entries.put name (.directory [])) names = entries.textAt? names := by
  cases names with
  | nil => rfl
  | cons other rest =>
    rw [textAt?, textAt?]
    by_cases heq : other = name
    · rw [heq, get?_put, h]
      cases rest <;> rfl
    · rw [get?_put_of_ne heq]

end Entries

namespace FileTree

/-- The text of the file that names lead to, from the root down. -/
def textAt? (t : FileTree) (names : List String) : Option String := t.entries.textAt? names

/-! ### Walks -/

namespace Place

variable {p p' : Place} {name : String}

theorem tree_up (p : Place) : p.up.tree = p.tree := by
  obtain ⟨here, above⟩ := p
  cases above <;> rfl

theorem get?_of_look {node? : Option FileNode} (h : p.look name = .ok node?) :
    p.here.get? name = node? := by
  rw [look] at h
  split at h
  · exact Except.ok.inj h
  · cases h

theorem tree_enter (h : p.enter name = .ok p') : p'.tree = p.tree := by
  rw [enter] at h
  split_ifs at h with hdot hdots
  · rw [Except.ok.inj h]
  · rw [← Except.ok.inj h, tree_up]
  · split at h
    · cases h
    · cases h
    · cases h
    · rename_i entries hlook
      obtain rfl := Except.ok.inj h
      rw [tree, List.foldl_cons, Entries.put_eq_self (get?_of_look hlook), tree]

theorem tree_walk {names : List String} (h : p.walk names = .ok p') : p'.tree = p.tree := by
  induction names generalizing p with
  | nil => rw [Except.ok.inj h]
  | cons name rest ih =>
    rw [walk] at h
    split at h
    · cases h
    · rename_i next henter
      rw [ih h, tree_enter henter]

/-- The files of a tree depend on nothing but the files below a place in it. -/
theorem textAt?_tree_congr {here here' : Entries} {above : List (String × Entries)}
    (h : ∀ names, here.textAt? names = here'.textAt? names) (names : List String) :
    (Place.mk here above).tree.textAt? names = (Place.mk here' above).tree.textAt? names := by
  induction above generalizing here here' with
  | nil => exact h names
  | cons step above ih => exact ih (Entries.textAt?_put_congr h)

end Place

/-! ### The steps of a write -/

variable {t t' : FileTree} {p : Path}

theorem textAt?_makeDirectory (h : t.makeDirectory p = .ok t') (names : List String) :
    t'.textAt? names = t.textAt? names := by
  rw [makeDirectory] at h
  split at h
  · cases h
  split at h
  · cases h
  rename_i name _ _
  split at h
  · cases h
  · rename_i place hwalk
    split_ifs at h
    split at h
    · cases h
    · cases h
    · rename_i hlook
      obtain rfl := Except.ok.inj h
      have hvacant := Place.get?_of_look hlook
      have hroot : t = place.tree := (Place.tree_walk hwalk).symm
      rw [hroot]
      exact Place.textAt?_tree_congr (Entries.textAt?_put_of_vacant hvacant) names

theorem textAt?_makeEach (t : FileTree) (paths : List Path) (names : List String) :
    (t.makeEach paths).2.textAt? names = t.textAt? names := by
  induction paths generalizing t with
  | nil => rfl
  | cons p above ih =>
    rw [makeEach]
    split
    · rename_i hmade
      exact textAt?_makeDirectory hmade names
    · have habove := ih t
      split
      · rename_i hfailed
        rw [hfailed] at habove
        exact habove
      · rename_i t' hdone
        rw [hdone] at habove
        split
        · rename_i hmade
          exact (textAt?_makeDirectory hmade names).trans habove
        · split_ifs <;> exact habove
    · split_ifs <;> rfl

theorem changeFile_of_error {change : String → String} {e : DiskError}
    (h : t.changeFile p change = (.error e, t')) : t' = t := by
  rw [changeFile] at h
  split at h
  · cases h
    rfl
  split at h
  · cases h
    rfl
  split at h
  · cases h
    rfl
  split_ifs at h
  · cases h
    rfl
  split at h <;> cases h <;> rfl

/-- **A refused write leaves all files as they were.** -/
theorem textAt?_write_of_error {path text : String} {e : DiskError}
    (h : t.write path text = (.error e, t')) (names : List String) :
    t'.textAt? names = t.textAt? names := by
  rw [write, changeOrCreate] at h
  split_ifs at h
  · cases h
    rfl
  have hmade := t.textAt?_makeEach (Path.above path) names
  split at h
  · rename_i hfailed
    cases h
    rw [hfailed] at hmade
    exact hmade
  · rename_i hdone
    rw [hdone] at hmade
    rw [changeFile_of_error h]
    exact hmade

end FileTree

end ExecState
