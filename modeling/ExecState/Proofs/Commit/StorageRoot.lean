import ExecState.Proofs.Commit.Writes
import ExecState.Proofs.Trie.History

/-!
# Storage roots are self-contained

The template of a storage root may be any trie: it may hold leaves under keys of any length, among
them such that a key of a storage would be refused beside them, and it may have a store. None of it
is found in the root, which is that of every trie that holds the storage and nothing else
(`Storage.IsHeldBy`).

That the template stays as it is cannot be said of `Commit.storageRoot`, which has no template to
change. It is said of the calls that make up the computation, on tries under names: the template is
copied under a name of its own, and all calls go to the copy.
-/

namespace ExecState

open Trie (Shelf)

namespace Trie.Shelf

variable {s : Shelf} {t : Trie} {entries : List (Bytes × Bytes)}

/-- The calls that put entries into the trie under a name. -/
def puts (name : String) (entries : List (Bytes × Bytes)) : List Command :=
  entries.map fun e ↦ .call name (.put e.1 e.2)

theorem run_puts {name : String} (h : (s name).putAll entries = .done () t) :
    s.run (puts name entries) = (entries.map fun _ ↦ .ok (), Function.update s name t) := by
  induction entries generalizing s with
  | nil =>
    rw [← (Prod.mk.inj h).2, Function.update_eq_self]
    rfl
  | cons e rest ih =>
    rw [show e :: rest = (e.1, e.2) :: rest from rfl, putAll] at h
    rcases (s name).put_cases e.1 e.2 with ⟨fault, hput⟩ | hput
    · rw [hput] at h
      cases h
    · rw [hput] at h
      have hrest := ih (s := Function.update s name ((s name).setLeaf ((s name).path e.1) e.2))
        (by rw [Function.update_self]; exact h)
      rw [Function.update_idem] at hrest
      rw [puts, List.map_cons, run_cons, step, perform, hput]
      exact congrArg (fun r ↦ (Except.ok () :: r.1, r.2)) hrest

end Trie.Shelf

namespace Storage

variable {secure : Bool} {storage : Storage} {slots : List (Word × Bytes)} {t : Trie}

/-- Whether a trie of a mode holds a storage, under the path of each key the encoding of its value,
and nothing else. -/
structure IsHeldBy (secure : Bool) (storage : Storage) (t : Trie) : Prop where
  secure_eq : t.secure = secure
  getElem?_eq_some_iff : ∀ p v, t.leaves[p]? = some v ↔
    ∃ (k : Word) (w : Bytes), storage[k]? = some w ∧ t.path k.bytes = p ∧
      (Rlp.Item.bytes w).encode = v

theorem isHeldBy_trie (h : KeysApart secure storage) :
    IsHeldBy secure storage (trie secure storage) where
  secure_eq := secure_trie secure storage
  getElem?_eq_some_iff p v := by
    rw [getElem?_leaves_trie h]
    have hpath : ∀ key, (trie secure storage).path key = (Trie.empty secure).path key := fun key ↦
      Trie.path_congr (secure_trie secure storage) key
    simp only [hpath, Rlp.Item.encode]

theorem IsHeldBy.leaves_eq (h : KeysApart secure storage) (ht : IsHeldBy secure storage t) :
    t.leaves = (trie secure storage).leaves := by
  have hpath : ∀ key, t.path key = (trie secure storage).path key := fun key ↦
    Trie.path_congr (ht.secure_eq.trans (secure_trie secure storage).symm) key
  refine Std.ExtTreeMap.ext_getElem? fun p ↦ Option.ext fun v ↦ ?_
  rw [ht.getElem?_eq_some_iff, (isHeldBy_trie h).getElem?_eq_some_iff]
  simp only [hpath]

theorem isHeldBy_fill (h : KeysApart t.secure storage) (hempty : t.leaves = ∅)
    (hperm : slots.Perm storage.toList) : IsHeldBy t.secure storage (t.fill (encoded slots)) where
  secure_eq := rfl
  getElem?_eq_some_iff p v := by
    have hpath : ∀ key, (t.fill (encoded slots)).path key = (trie t.secure storage).path key :=
      fun key ↦ Trie.path_congr (secure_trie t.secure storage).symm key
    rw [leaves_fill_encoded h hempty hperm, (isHeldBy_trie h).getElem?_eq_some_iff]
    simp only [hpath]

theorem IsHeldBy.root?_eq (h : KeysApart secure storage) (ht : IsHeldBy secure storage t) :
    t.root? = some (trie secure storage).digest := by
  rw [Trie.root?_congr (ht.leaves_eq h), root?_trie]

/-- The calls that fill a cleared copy of a template with slots. -/
def calls (template copy : String) (slots : List (Word × Bytes)) : List Shelf.Command :=
  .copy template copy :: .call copy .clear :: Shelf.puts copy (encoded slots)

/-- No slot is refused, and no trie is touched but the copy. -/
theorem run_calls (s : Shelf) (template copy : String) (slots : List (Word × Bytes)) :
    s.run (calls template copy slots)
      = (.ok () :: .ok () :: (encoded slots).map fun _ ↦ .ok (),
        Function.update s copy ((s template).clear.fill (encoded slots))) := by
  -- the leaves of the template are gone before the first slot is put, so none of them is in its way
  let cleared : Shelf := Function.update s copy (s template).clear
  have hput : (cleared copy).putAll (encoded slots)
      = .done () ((s template).clear.fill (encoded slots)) := by
    rw [show cleared copy = (s template).clear from Function.update_self _ _ _]
    exact putAll_encoded (Trie.accepts_clear (s template) 32) slots
  have hcopied : ((s.step (.copy template copy)).2.step (.call copy .clear)).2 = cleared := by
    simp [Shelf.step, Trie.perform, cleared]
  rw [calls, Shelf.run_cons, Shelf.run_cons, hcopied, Shelf.run_puts hput]
  simp [Shelf.step, Trie.perform, cleared]

end Storage

namespace Commit

/-- **Storage roots are self-contained.** Whatever the template and the order of the slots, there is
a root, and it is that of every trie of the mode of the template that holds the storage and nothing
else. To compute it, a copy of the template is all that is changed. -/
theorem storageRoot_selfContained (template : Trie) (account : Account)
    (slots : List (Word × Bytes)) (h : Storage.KeysApart template.secure account.storage)
    (hperm : slots.Perm account.storage.toList) :
    ∃ root, storageRoot template slots = .ok root ∧
      Storage.IsHeldBy template.secure account.storage
        (Storage.trie template.secure account.storage) ∧
      (∀ t, Storage.IsHeldBy template.secure account.storage t → t.root? = some root) ∧
      (∀ (s : Shelf) (name copy : String), s name = template →
        (∀ answer ∈ (s.run (Storage.calls name copy slots)).1, answer = .ok ()) ∧
          (∀ other, other ≠ copy → (s.run (Storage.calls name copy slots)).2 other = s other) ∧
          Storage.IsHeldBy template.secure account.storage
            ((s.run (Storage.calls name copy slots)).2 copy)) ∧
      ∀ (template' : Trie) (account' : Account) (slots' : List (Word × Bytes)),
        template'.secure = template.secure → account'.storage = account.storage →
        slots'.Perm account'.storage.toList → storageRoot template' slots' = .ok root := by
  refine ⟨(Storage.trie template.secure account.storage).digest, storageRoot_eq h hperm,
    Storage.isHeldBy_trie h, fun t ht ↦ ht.root?_eq h, ?_, ?_⟩
  · rintro s name copy rfl
    rw [Storage.run_calls]
    refine ⟨?_, fun other hother ↦ Function.update_of_ne hother _ _, ?_⟩
    · intro answer hanswer
      simp only [List.mem_cons, List.mem_map] at hanswer
      rcases hanswer with rfl | rfl | ⟨e, -, rfl⟩ <;> rfl
    · show Storage.IsHeldBy _ _ (Function.update s copy _ copy)
      rw [Function.update_self]
      exact Storage.isHeldBy_fill (t := (s name).clear) h rfl hperm
  · intro template' account' slots' hsec hstorage hperm'
    have hapart' : Storage.KeysApart template'.secure account'.storage := by
      rw [hsec, hstorage]
      exact h
    rw [storageRoot_eq hapart' hperm', hsec, hstorage]

/-- A trie of keys of one byte, with something in its store. -/
def cluttered : Trie := ((Trie.empty false).putRaw FixedBytes.zero [9]).setLeaf [1] [1]

def twoSlots : Account :=
  ((Account.fresh FixedBytes.zero).setSlot FixedBytes.zero [0x2a]).setSlot
    ⟨List.replicate 32 1, List.length_replicate⟩ [1, 0]

theorem storageRoot_selfContained_twoSlots :
    Storage.KeysApart cluttered.secure twoSlots.storage ∧
      twoSlots.storage.toList.reverse.Perm twoSlots.storage.toList ∧
      ∃ root, storageRoot cluttered twoSlots.storage.toList.reverse = .ok root ∧
        storageRoot (Trie.empty false) twoSlots.storage.toList = .ok root ∧
        (Storage.trie false twoSlots.storage).root? = some root := by
  have hapart : Storage.KeysApart cluttered.secure twoSlots.storage :=
    Storage.keysApart_of_plain twoSlots.storage
  have hperm : twoSlots.storage.toList.reverse.Perm twoSlots.storage.toList := List.reverse_perm _
  obtain ⟨root, hroot, hheld, hany, -, hothers⟩ :=
    storageRoot_selfContained cluttered twoSlots _ hapart hperm
  exact ⟨hapart, hperm, root, hroot, hothers (Trie.empty false) twoSlots _ rfl rfl (.refl _),
    hany _ hheld⟩

end Commit

end ExecState
