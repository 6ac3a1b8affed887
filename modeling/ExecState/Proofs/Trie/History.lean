import ExecState.Proofs.Trie.Leaves
import Mathlib.Data.Finset.Card
import Mathlib.Data.Set.Function
import Mathlib.Logic.Function.Basic

/-!
# The history of a trie

Tries are kept under names. They are created, calls are made on them, and a copy of one takes the
place of another. From then on the two go their own ways, and each has a history of its own, which
begins with that of the trie it was copied from. `Shelf.run_histories` says that a trie is what the
calls of its history make of one without leaves, whatever happens to all others meanwhile.

A history settles what is under a key: the value of the last put under it that was accepted, unless
that value is empty or the trie was cleared since. The order of the calls beyond that is forgotten,
and so is everything that went into the store: tries with the same values under the same keys have
the same root, however they came about.

Keys that are hashed are told apart by their digests alone, so what is read under a key is what was
put under it only as far as the digests of the keys tell them apart (`KeysApart`). The leaves as
such need no such assumption.
-/

namespace ExecState.Trie

/-! ## Calls and histories -/

/-- What is done to a trie. -/
inductive Call
  | put (key value : Bytes)
  | putRaw (key : Word) (value : Bytes)
  | clear
deriving DecidableEq

def perform (t : Trie) : Call → Outcome TrieError Unit Trie
  | .put key value => t.put key value
  | .putRaw key value => .done () (t.putRaw key value)
  | .clear => .done () t.clear

/-- How a trie came about: it was created, and one call after the other was made on it, or on the
trie that it was copied from. -/
inductive History
  | created (secure : Bool)
  | called (h : History) (c : Call)

namespace History

def trie : History → Trie
  | created secure => Trie.empty secure
  | called h c => (h.trie.perform c).2

/-- Whether the keys of a history are hashed. -/
def secure : History → Bool
  | created secure => secure
  | called h _ => h.secure

/-- The keys under which something was put, accepted or not, the last one first. -/
def keys : History → List Bytes
  | created _ => []
  | called h (.put key _) => key :: h.keys
  | called h (.putRaw _ _) | called h .clear => h.keys

/-- What is under a key after a history: the value of the last put under it that was accepted, and
nothing if that value is empty, or if the trie was cleared since, or if there was no such put. -/
def held (key : Bytes) : History → Option Bytes
  | created _ => none
  | called h (.put k value) =>
    if k = key ∧ (h.trie.put k value).1.isOk then
      if value.isEmpty then none else some value
    else h.held key
  | called h (.putRaw _ _) => h.held key
  | called _ .clear => none

/-- What the store has under a digest after a history: what was last put there. -/
def heldRaw (digest : Word) : History → Option Bytes
  | created _ => none
  | called h (.putRaw k value) => if k = digest then some value else h.heldRaw digest
  | called h (.put _ _) | called h .clear => h.heldRaw digest

/-- A history without what was put into the store. -/
def withoutRaw : History → History
  | created secure => created secure
  | called h (.putRaw _ _) => h.withoutRaw
  | called h c => called h.withoutRaw c

end History

/-! ## Tries under names -/

/-- Tries under names. -/
abbrev Shelf := String → Trie

namespace Shelf

/-- What is done to tries under names. -/
inductive Command
  /-- Puts a trie without leaves under a name. -/
  | create (name : String) (secure : Bool)
  | call (name : String) (c : Call)
  /-- Puts a copy of a trie under a name. -/
  | copy (source target : String)

/-- The shelf before anything happened: under every name there is a trie without leaves. -/
def empty : Shelf := fun _ ↦ Trie.empty false

def step (s : Shelf) : Command → Outcome TrieError Unit Shelf
  | .create name secure => .done () (Function.update s name (Trie.empty secure))
  | .call name c =>
    (((s name).perform c).1, Function.update s name ((s name).perform c).2)
  | .copy source target => .done () (Function.update s target (s source))

/-- Carries out steps one after the other. A step that fails does not end the run. -/
def run (s : Shelf) : List Command → List (Except TrieError Unit) × Shelf
  | [] => ([], s)
  | c :: rest =>
    let (result, s') := s.step c
    let (results, s'') := s'.run rest
    (result :: results, s'')

/-- The histories of the tries under all names after a step. -/
def extend (h : String → History) : Command → String → History
  | .create name secure => Function.update h name (.created secure)
  | .call name c => Function.update h name ((h name).called c)
  | .copy source target => Function.update h target (h source)

/-- The histories of the tries under all names after a run. -/
def histories (commands : List Command) : String → History :=
  commands.foldl extend fun _ ↦ .created false

theorem run_cons (s : Shelf) (c : Command) (rest : List Command) :
    s.run (c :: rest) = ((s.step c).1 :: ((s.step c).2.run rest).1, ((s.step c).2.run rest).2) :=
  rfl

theorem step_eq_trie (h : String → History) (c : Command) :
    (step (fun name ↦ (h name).trie) c).2 = fun name ↦ (extend h c name).trie := by
  have hupdate : ∀ name (x : History),
      Function.update (fun name ↦ (h name).trie) name x.trie
        = fun other ↦ (Function.update h name x other).trie := by
    intro name x
    funext other
    by_cases hother : other = name
    · rw [hother, Function.update_self, Function.update_self]
    · rw [Function.update_of_ne hother, Function.update_of_ne hother]
  rcases c with ⟨name, secure⟩ | ⟨name, c⟩ | ⟨source, target⟩
  · exact hupdate name (.created secure)
  · exact hupdate name ((h name).called c)
  · exact hupdate target (h source)

/-- **Every trie goes its own way.** After a run the trie under a name is that of its history. -/
theorem run_histories (commands : List Command) (name : String) :
    (empty.run commands).2 name = (histories commands name).trie := by
  have hgeneral : ∀ h : String → History, (run (fun name ↦ (h name).trie) commands).2
      = fun name ↦ (commands.foldl extend h name).trie := by
    -- the first step changes the histories, so they are left open
    induction commands with
    | nil => intro h; rfl
    | cons c rest ih =>
      intro h
      rw [run_cons, step_eq_trie, ih, List.foldl_cons]
  exact congrFun (hgeneral fun _ ↦ .created false) name

end Shelf

/-! ## What histories say of tries -/

variable {t u : Trie} {key : Bytes}

/-- Where keys are hashed, the digests of the given keys tell them apart. -/
def KeysApart (secure : Bool) (keys : Set Bytes) : Prop :=
  secure = true → Set.InjOn Keccak.hash keys

theorem eq_of_path_eq_of_mem {keys : Set Bytes} (h : KeysApart t.secure keys) {k l : Bytes}
    (hk : k ∈ keys) (hl : l ∈ keys) (hpath : t.path k = t.path l) : k = l :=
  eq_of_path_eq (fun hsec ↦ h hsec hk hl) hpath

theorem put_cases (t : Trie) (key value : Bytes) :
    (∃ e, t.put key value = .failed e t) ∨
      t.put key value = .done () (t.setLeaf (t.path key) value) := by
  by_cases hacc : t.Accepts (t.path key).length
  · exact Or.inr (put_of_accepts hacc value)
  · exact Or.inl (put_of_not_accepts hacc value)

/-- A trie that can arise refuses a key exactly if it has a leaf whose path has another length. -/
theorem WellFormed.put_refused_iff (h : t.WellFormed) (key value : Bytes) :
    (∃ e, (t.put key value).1 = .error e) ↔ ∃ p ∈ t.leaves, p.length ≠ (t.path key).length := by
  have hacc : (∃ e, (t.put key value).1 = .error e) ↔ ¬ t.Accepts (t.path key).length := by
    constructor
    · rintro ⟨e, he⟩ hacc
      rw [put_of_accepts hacc] at he
      cases he
    · intro hacc
      obtain ⟨e, hput⟩ := put_of_not_accepts hacc value
      exact ⟨e, congrArg Prod.fst hput⟩
  rw [hacc, h.accepts_iff]
  simp only [not_forall, exists_prop, ne_eq]

/-- All paths are digests where keys are hashed, so no key is refused. -/
theorem WellFormed.put_of_secure (h : t.WellFormed) (hsec : t.secure = true) (key value : Bytes) :
    (t.put key value).1 = .ok () := by
  rw [put_of_accepts]
  · rfl
  · rw [h.accepts_iff]
    intro p hp
    rw [h.length_of_secure hsec hp, length_path_of_secure hsec]

theorem secure_perform (t : Trie) (c : Call) : (t.perform c).2.secure = t.secure := by
  rcases c with ⟨key, value⟩ | ⟨key, value⟩ | _
  · rcases t.put_cases key value with ⟨e, hput⟩ | hput <;> rw [perform, hput] <;> rfl
  · rfl
  · rfl

/-- What a call leaves of the leaves does not depend on the store. -/
theorem leaves_perform_congr (hleaves : t.leaves = u.leaves) (hsec : t.secure = u.secure)
    (c : Call) : (t.perform c).2.leaves = (u.perform c).2.leaves := by
  rcases c with ⟨key, value⟩ | ⟨key, value⟩ | _
  · -- the length that a path has to have is that of the first leaf, so it is the same for both
    rw [perform, perform, put, put, path_congr hsec, pathLength?, pathLength?, hleaves]
    cases u.leaves.minKey?.map List.length with
    | none => simp [setLeaf, hleaves]
    | some expected =>
      dsimp only
      split
      · simp [setLeaf, hleaves]
      · exact hleaves
  · exact hleaves
  · rfl

namespace History

variable {h : History}

theorem secure_trie (h : History) : h.trie.secure = h.secure := by
  induction h with
  | created secure => rfl
  | called h c ih => rw [trie, secure_perform, ih, secure]

theorem reachable_trie (h : History) : h.trie.Reachable := by
  induction h with
  | created secure => exact .empty secure
  | called h c ih =>
    rcases c with ⟨key, value⟩ | ⟨key, value⟩ | _
    · exact ih.put key value
    · exact ih.putRaw key value
    · exact ih.clear

theorem wellFormed_trie (h : History) : h.trie.WellFormed := h.reachable_trie.wellFormed

/-! ### The store -/

theorem getRaw?_putRaw (t : Trie) (k digest : Word) (value : Bytes) :
    (t.putRaw k value).getRaw? digest = if k = digest then some value else t.getRaw? digest := by
  simp only [getRaw?, putRaw, Std.ExtTreeMap.getElem?_insert, Std.LawfulEqCmp.compare_eq_iff_eq]

/-- **The store** has what was last put into it; puts and clearing leave it alone. -/
theorem getRaw?_trie (h : History) (digest : Word) : h.trie.getRaw? digest = h.heldRaw digest := by
  induction h with
  | created secure => simp [trie, Trie.empty, Trie.getRaw?, heldRaw]
  | called h c ih =>
    rcases c with ⟨key, value⟩ | ⟨key, value⟩ | _
    · rw [heldRaw, ← ih, trie, perform]
      rcases h.trie.put_cases key value with ⟨e, hput⟩ | hput <;> rw [hput] <;> rfl
    · rw [heldRaw, ← ih]
      exact getRaw?_putRaw h.trie key digest value
    · exact ih

theorem secure_withoutRaw (h : History) : h.withoutRaw.secure = h.secure := by
  induction h with
  | created secure => rfl
  | called h c ih => rcases c with ⟨key, value⟩ | ⟨key, value⟩ | _ <;> exact ih

theorem leaves_withoutRaw (h : History) : h.withoutRaw.trie.leaves = h.trie.leaves := by
  induction h with
  | created secure => rfl
  | called h c ih =>
    have hsec : h.withoutRaw.trie.secure = h.trie.secure := by
      rw [secure_trie, secure_trie, secure_withoutRaw]
    rcases c with ⟨key, value⟩ | ⟨key, value⟩ | _
    · exact leaves_perform_congr ih hsec (.put key value)
    · exact ih
    · exact leaves_perform_congr ih hsec .clear

/-! ### The leaves -/

theorem exists_key_of_mem (h : History) {p : Bytes} (hp : p ∈ h.trie.leaves) :
    ∃ key ∈ h.keys, h.trie.path key = p := by
  induction h with
  | created secure => simp [trie, Trie.empty] at hp
  | called h c ih =>
    have hpath : ∀ key, (h.called c).trie.path key = h.trie.path key := fun key ↦
      path_congr (h.trie.secure_perform c) key
    rcases c with ⟨k, value⟩ | ⟨k, value⟩ | _
    · rw [keys]
      have hold : p ∈ h.trie.leaves → ∃ key ∈ k :: h.keys, h.trie.path key = p := by
        intro hmem
        obtain ⟨key, hkey, heq⟩ := ih hmem
        exact ⟨key, List.mem_cons_of_mem k hkey, heq⟩
      simp only [hpath]
      rw [trie, perform] at hp
      -- a put adds no leaf but that of its own key, and a refused one adds none
      rcases h.trie.put_cases k value with ⟨e, hput⟩ | hput
      · rw [hput] at hp
        exact hold hp
      · rw [hput, Outcome.snd_done, Std.ExtTreeMap.mem_iff_isSome_getElem?, get?_setLeaf] at hp
        split at hp
        · rename_i hk
          exact ⟨k, List.mem_cons_self, hk⟩
        · exact hold (Std.ExtTreeMap.mem_iff_isSome_getElem?.mpr hp)
    · obtain ⟨key, hkey, heq⟩ := ih hp
      exact ⟨key, hkey, (hpath key).trans heq⟩
    · simp [trie, perform, Trie.clear] at hp

/-- Where keys are hashed every put is accepted, so that only the last one counts. -/
theorem held_put_of_secure (hsec : h.secure = true) (key k value : Bytes) :
    (h.called (.put k value)).held key =
      if k = key then (if value.isEmpty then none else some value) else h.held key := by
  have hok : (h.trie.put k value).1 = .ok () :=
    h.wellFormed_trie.put_of_secure (h.secure_trie.trans hsec) k value
  rw [held, hok]
  simp [Except.isOk, Except.toBool]

section Held

variable {keys : Set Bytes} (hkeys : ∀ key ∈ h.keys, key ∈ keys) (hapart : KeysApart h.secure keys)
include hkeys hapart

/-- **What is read under a key** is what its history says, as far as digests tell the keys apart. -/
theorem get?_trie (hkey : key ∈ keys) : h.trie.get? key = h.held key := by
  induction h with
  | created secure => simp [trie, Trie.empty, Trie.get?, held]
  | called h c ih =>
    rcases c with ⟨k, value⟩ | ⟨k, value⟩ | _
    · rw [History.keys, List.forall_mem_cons] at hkeys
      have hsame : h.trie.path k = h.trie.path key ↔ k = key := by
        constructor
        · exact eq_of_path_eq_of_mem (h.secure_trie ▸ hapart) hkeys.1 hkey
        · rintro rfl
          rfl
      have hold := ih hkeys.2 hapart
      rw [held, trie, perform]
      rcases h.trie.put_cases k value with ⟨e, hput⟩ | hput
      · rw [hput, if_neg fun hand ↦ Bool.noConfusion hand.2]
        exact hold
      · have hpath : (h.trie.setLeaf (h.trie.path k) value).path key = h.trie.path key :=
          path_congr rfl key
        rw [hput, Outcome.snd_done, Trie.get?, hpath, get?_setLeaf]
        by_cases hk : k = key
        · subst hk
          simp only [true_and, Outcome.fst_done, Except.isOk, Except.toBool, if_true]
        · rw [if_neg (mt hsame.mp hk), if_neg fun hand ↦ hk hand.1]
          exact hold
    · exact ih hkeys hapart
    · simp [trie, perform, Trie.clear, Trie.get?, held]

/-- **The size** is the number of keys that something is under. -/
theorem size_trie :
    h.trie.size = (h.keys.toFinset.filter fun key ↦ (h.held key).isSome).card := by
  have hpresent : ∀ key ∈ h.keys, (h.held key).isSome ↔ h.trie.path key ∈ h.trie.leaves := by
    intro key hkey
    rw [← get?_trie hkeys hapart (hkeys key hkey), Std.ExtTreeMap.mem_iff_isSome_getElem?,
      Trie.get?]
  have hinj : Set.InjOn h.trie.path (h.keys.toFinset.filter fun key ↦ (h.held key).isSome) := by
    intro k hk l hl hpath
    simp only [Finset.coe_filter, List.mem_toFinset, Set.mem_ofPred_eq] at hk hl
    exact eq_of_path_eq_of_mem (h.secure_trie ▸ hapart) (hkeys k hk.1) (hkeys l hl.1) hpath
  -- every leaf is the path of one of the keys, and of no other, so the two are equally many
  have himage : (h.keys.toFinset.filter fun key ↦ (h.held key).isSome).image h.trie.path
      = h.trie.leaves.keys.toFinset := by
    ext p
    simp only [Finset.mem_image, Finset.mem_filter, List.mem_toFinset, Std.ExtTreeMap.mem_keys]
    constructor
    · rintro ⟨key, ⟨hkey, hsome⟩, rfl⟩
      exact (hpresent key hkey).mp hsome
    · intro hp
      obtain ⟨key, hkey, rfl⟩ := h.exists_key_of_mem hp
      exact ⟨key, ⟨hkey, (hpresent key hkey).mpr hp⟩, rfl⟩
  rw [← Finset.card_image_of_injOn hinj, himage,
    List.toFinset_card_of_nodup Std.ExtTreeMap.nodup_keys, Std.ExtTreeMap.length_keys, Trie.size]

end Held

theorem leaves_eq_of_get?_eq {h₁ h₂ : History} (hsec : h₁.secure = h₂.secure)
    (hget : ∀ key, key ∈ h₁.keys ∨ key ∈ h₂.keys → h₁.trie.get? key = h₂.trie.get? key) :
    h₁.trie.leaves = h₂.trie.leaves := by
  have hpath : ∀ key, h₁.trie.path key = h₂.trie.path key := fun key ↦
    path_congr (by rw [secure_trie, secure_trie, hsec]) key
  refine Std.ExtTreeMap.ext_getElem? fun p ↦ ?_
  by_cases hp : p ∈ h₁.trie.leaves ∨ p ∈ h₂.trie.leaves
  · -- a leaf on either side was put under a key, and is read there on both
    obtain ⟨key, hkey, rfl⟩ : ∃ key, (key ∈ h₁.keys ∨ key ∈ h₂.keys) ∧ h₁.trie.path key = p := by
      rcases hp with hp | hp
      · obtain ⟨key, hkey, heq⟩ := h₁.exists_key_of_mem hp
        exact ⟨key, Or.inl hkey, heq⟩
      · obtain ⟨key, hkey, heq⟩ := h₂.exists_key_of_mem hp
        exact ⟨key, Or.inr hkey, (hpath key).trans heq⟩
    have hread := hget key hkey
    rwa [Trie.get?, Trie.get?, ← hpath key] at hread
  · rw [not_or] at hp
    rw [Std.ExtTreeMap.getElem?_eq_none hp.1, Std.ExtTreeMap.getElem?_eq_none hp.2]

/-! ### The map of a history -/

/-- A trie is the finite map that its history settles. -/
structure Settles (h : History) (t : Trie) : Prop where
  secure_eq : t.secure = h.secure
  /-- All paths have one length. -/
  length_eq : ∃ n, ∀ p ∈ t.leaves, p.length = n
  /-- A put is refused exactly if there is a leaf whose path has another length. -/
  refused_iff : ∀ key value, (∃ e, (t.put key value).1 = .error e) ↔
    ∃ p ∈ t.leaves, p.length ≠ (t.path key).length
  /-- Where keys are hashed, no put is refused. -/
  put_eq_ok : t.secure = true → ∀ key value, (t.put key value).1 = .ok ()
  /-- What is read under a key is what was last put under it. -/
  get?_eq : ∀ keys : Set Bytes, (∀ key ∈ h.keys, key ∈ keys) → KeysApart t.secure keys →
    ∀ key ∈ keys, t.get? key = h.held key
  /-- The size is the number of keys that something is under. -/
  size_eq : KeysApart t.secure {key | key ∈ h.keys} →
    t.size = (h.keys.toFinset.filter fun key ↦ (h.held key).isSome).card
  /-- The store has what was last put into it, whatever else was called since. -/
  getRaw?_eq : ∀ digest, t.getRaw? digest = h.heldRaw digest
  /-- What is read does not depend on the store, -/
  get?_withoutRaw : ∀ key, t.get? key = h.withoutRaw.trie.get? key
  /-- and the root does not either. -/
  root?_withoutRaw : t.root? = h.withoutRaw.trie.root?

theorem settles_trie (h : History) : h.Settles h.trie where
  secure_eq := h.secure_trie
  length_eq := by
    by_cases hleaf : ∃ q, q ∈ h.trie.leaves
    · obtain ⟨q, hq⟩ := hleaf
      exact ⟨q.length, fun p hp ↦ h.wellFormed_trie.length_eq hp hq⟩
    · exact ⟨0, fun p hp ↦ absurd ⟨p, hp⟩ hleaf⟩
  refused_iff := h.wellFormed_trie.put_refused_iff
  put_eq_ok := h.wellFormed_trie.put_of_secure
  get?_eq keys hkeys hapart key hkey := get?_trie hkeys (h.secure_trie ▸ hapart) hkey
  size_eq hapart := size_trie (fun _ hkey ↦ hkey) (h.secure_trie ▸ hapart)
  getRaw?_eq := h.getRaw?_trie
  get?_withoutRaw key := by
    have hpath : h.withoutRaw.trie.path key = h.trie.path key :=
      path_congr (by rw [secure_trie, secure_trie, secure_withoutRaw]) key
    rw [Trie.get?, Trie.get?, hpath, leaves_withoutRaw]
  root?_withoutRaw := root?_congr h.leaves_withoutRaw.symm

end History

/-- **A trie is a finite map whose root forgets its history.** Whatever is done to tries under
names, each of them is the map that its history settles, and any two of one mode that read the same
under all keys of their histories have the same root. -/
theorem Shelf.settles_run (commands : List Command) (name : String) :
    (histories commands name).Settles ((empty.run commands).2 name) ∧
      ∀ (commands' : List Command) (name' : String),
        (histories commands name).secure = (histories commands' name').secure →
        (∀ key, key ∈ (histories commands name).keys ∨ key ∈ (histories commands' name').keys →
          ((empty.run commands).2 name).get? key = ((empty.run commands').2 name').get? key) →
        ((empty.run commands).2 name).root? = ((empty.run commands').2 name').root? := by
  constructor
  · rw [run_histories]
    exact (histories commands name).settles_trie
  · intro commands' name' hsec hget
    simp only [run_histories] at hget ⊢
    exact root?_congr (History.leaves_eq_of_get?_eq hsec hget)

/-- A secure trie and a copy of it, which is cleared. A key is put into the copy again, taken away,
and put once more, so that in the end both hold the same. -/
def twoHistories : List Shelf.Command :=
  [.create "left" true, .call "left" (.put [1] [7]), .call "left" (.putRaw FixedBytes.zero [9]),
    .copy "left" "right", .call "right" .clear, .call "right" (.put [1] [5]),
    .call "right" (.put [1] []), .call "right" (.put [1] [7])]

theorem Shelf.settles_run_twoHistories :
    (∀ name, KeysApart ((empty.run twoHistories).2 name).secure {[1]}) ∧
      ((empty.run twoHistories).2 "left").get? [1] = some [7] ∧
      ((empty.run twoHistories).2 "right").get? [1] = some [7] ∧
      ((empty.run twoHistories).2 "right").size = 1 ∧
      ((empty.run twoHistories).2 "right").getRaw? FixedBytes.zero = some [9] ∧
      ((empty.run twoHistories).2 "left").root? = ((empty.run twoHistories).2 "right").root? := by
  have hapart : ∀ name, KeysApart ((empty.run twoHistories).2 name).secure {[1]} := fun _ _ ↦
    Set.injOn_singleton _ _
  have hkeysLeft : ∀ key ∈ (histories twoHistories "left").keys, key = [1] := by decide +kernel
  have hkeysRight : ∀ key ∈ (histories twoHistories "right").keys, key = [1] := by decide +kernel
  have hheldLeft : (histories twoHistories "left").held [1] = some [7] :=
    History.held_put_of_secure (h := .created true) rfl [1] [1] [7]
  have hheldRight : (histories twoHistories "right").held [1] = some [7] :=
    History.held_put_of_secure rfl [1] [1] [7]
  obtain ⟨hleft, hroots⟩ := settles_run twoHistories "left"
  obtain ⟨hright, -⟩ := settles_run twoHistories "right"
  have hreadLeft : ((empty.run twoHistories).2 "left").get? [1] = some [7] :=
    (hleft.get?_eq {[1]} hkeysLeft (hapart "left") [1] rfl).trans hheldLeft
  have hreadRight : ((empty.run twoHistories).2 "right").get? [1] = some [7] :=
    (hright.get?_eq {[1]} hkeysRight (hapart "right") [1] rfl).trans hheldRight
  refine ⟨hapart, hreadLeft, hreadRight, ?_, hright.getRaw?_eq FixedBytes.zero,
    hroots twoHistories "right" rfl fun key hkey ↦ ?_⟩
  · have hkeys : (histories twoHistories "right").keys.toFinset = {[1]} := by decide +kernel
    rw [hright.size_eq fun _ k hk l hl _ ↦ (hkeysRight k hk).trans (hkeysRight l hl).symm, hkeys,
      Finset.filter_singleton, hheldRight]
    rfl
  · obtain rfl : key = [1] := hkey.elim (hkeysLeft key) (hkeysRight key)
    rw [hreadLeft, hreadRight]

end ExecState.Trie
