import ExecState.Commit.Basic
import ExecState.Proofs.Commit.Pool
import ExecState.Proofs.Ledger.Index
import ExecState.Proofs.Rlp.Framing
import ExecState.Proofs.Trie.Leaves
import Mathlib.Data.Set.Function

/-!
# What goes into the target

A commitment writes the root of every storage into a record and the records into the target. Both
times a trie is filled, and both times the order of the entries leaves no trace.
-/

namespace ExecState

/-!
## The root of a storage

The trie of a storage starts as a cleared copy of a template and is filled slot by slot. Neither
the leaves of the template nor the order of the slots leave a trace: the root is that of
`Storage.trie`, the trie without leaves into which the slots were put in ascending order of their
keys. Where keys are hashed this takes that the digests tell the keys of the storage apart.
-/

namespace Storage

/-- Where keys are hashed, the digests of the keys of a storage tell them apart. -/
def KeysApart (secure : Bool) (storage : Storage) : Prop :=
  secure = true → Set.InjOn Keccak.hash {b | ∃ k ∈ storage, k.bytes = b}

theorem keysApart_of_plain (storage : Storage) : KeysApart false storage := by
  intro h
  simp at h

/-- The entries that slots put into a trie. -/
def encoded (slots : List (Word × Bytes)) : List (Bytes × Bytes) :=
  slots.map fun slot ↦ (slot.1.bytes, Rlp.encodeBytes slot.2)

/-- The trie of a storage: all slots put into a trie without leaves. -/
def trie (secure : Bool) (storage : Storage) : Trie :=
  ((Trie.empty secure).putAll (encoded storage.toList)).2

theorem putAll_encoded {t : Trie} (h : t.Accepts 32) (slots : List (Word × Bytes)) :
    t.putAll (encoded slots) = .done () (t.fill (encoded slots)) := by
  refine Trie.putAll_eq_fill h fun e he ↦ ?_
  obtain ⟨slot, -, rfl⟩ := List.mem_map.mp he
  exact ⟨Trie.length_path_word t slot.1, Rlp.encodeBytes_ne_nil slot.2⟩

theorem trie_eq_fill (secure : Bool) (storage : Storage) :
    trie secure storage = (Trie.empty secure).fill (encoded storage.toList) := by
  have hacc : (Trie.empty secure).Accepts 32 := Trie.accepts_clear (Trie.empty secure) 32
  rw [trie, putAll_encoded hacc]
  rfl

@[simp] theorem secure_trie (secure : Bool) (storage : Storage) :
    (trie secure storage).secure = secure := by
  rw [trie_eq_fill]
  rfl

variable {storage : Storage} {slots : List (Word × Bytes)}

theorem slot_eq_of_path_eq {t : Trie} (h : KeysApart t.secure storage) {x y : Word × Bytes}
    (hx : x ∈ storage.toList) (hy : y ∈ storage.toList)
    (hpath : t.path x.1.bytes = t.path y.1.bytes) : x = y := by
  rw [show x = (x.1, x.2) from rfl, Std.ExtTreeMap.mem_toList_iff_getElem?_eq_some] at hx
  rw [show y = (y.1, y.2) from rfl, Std.ExtTreeMap.mem_toList_iff_getElem?_eq_some] at hy
  have hkey : x.1 = y.1 := by
    refine FixedBytes.bytes_injective (Trie.eq_of_path_eq (fun hs heq ↦ ?_) hpath)
    exact h hs ⟨x.1, (Std.ExtTreeMap.getElem?_eq_some_iff.mp hx).fst, rfl⟩
      ⟨y.1, (Std.ExtTreeMap.getElem?_eq_some_iff.mp hy).fst, rfl⟩ heq
  rw [← hkey, hx, Option.some_inj] at hy
  exact Prod.ext hkey hy

theorem encoded_consistent {t : Trie} (h : KeysApart t.secure storage)
    (hslots : ∀ slot ∈ slots, slot ∈ storage.toList) :
    ∀ e ∈ (encoded slots).map fun e ↦ (t.path e.1, e.2),
      ∀ e' ∈ (encoded slots).map fun e ↦ (t.path e.1, e.2), e.1 = e'.1 → e.2 = e'.2 := by
  intro e he e' he' hkey
  simp only [encoded, List.map_map, List.mem_map, Function.comp_apply] at he he'
  obtain ⟨x, hx, rfl⟩ := he
  obtain ⟨y, hy, rfl⟩ := he'
  rw [slot_eq_of_path_eq h (hslots x hx) (hslots y hy) hkey]

/-- **The order of the slots is forgotten**, and so is everything of the trie but its mode. -/
theorem leaves_fill_encoded {t : Trie} (h : KeysApart t.secure storage)
    (hempty : t.leaves = ∅) (hperm : slots.Perm storage.toList) :
    (t.fill (encoded slots)).leaves = (trie t.secure storage).leaves := by
  have hpath : (Trie.empty t.secure).path = t.path := funext fun key ↦ Trie.path_congr rfl key
  rw [trie_eq_fill, Trie.fill, Trie.fill, hpath, hempty]
  refine insertMany_congr (fun e ↦ ?_)
    (encoded_consistent h fun slot hslot ↦ hperm.mem_iff.mp hslot)
  exact ((hperm.map _).map _).mem_iff

theorem getElem?_leaves_trie {secure : Bool} (h : KeysApart secure storage) {p v : Bytes} :
    (trie secure storage).leaves[p]? = some v ↔
      ∃ (k : Word) (w : Bytes), storage[k]? = some w ∧ (Trie.empty secure).path k.bytes = p ∧
        Rlp.encodeBytes w = v := by
  rw [trie_eq_fill, Trie.fill]
  refine (getElem?_insertMany_empty_iff
    (encoded_consistent (t := Trie.empty secure) h fun _ hslot ↦ hslot)).trans ?_
  simp only [encoded, List.map_map, List.mem_map, Function.comp_apply, Prod.mk.injEq]
  constructor
  · rintro ⟨slot, hslot, hp, hv⟩
    exact ⟨slot.1, slot.2, Std.ExtTreeMap.mem_toList_iff_getElem?_eq_some.mp hslot, hp, hv⟩
  · rintro ⟨k, w, hk, hp, hv⟩
    exact ⟨(k, w), Std.ExtTreeMap.mem_toList_iff_getElem?_eq_some.mpr hk, hp, hv⟩

theorem length_eq_of_mem_trie {secure : Bool} {p : Bytes} (hp : p ∈ (trie secure storage).leaves) :
    p.length = 32 := by
  rw [trie_eq_fill, Trie.fill, Std.ExtTreeMap.mem_insertMany_list] at hp
  rcases hp with h | h
  · simp [Trie.empty] at h
  · simp only [encoded, List.map_map, List.contains_eq_mem, List.mem_map, decide_eq_true_eq,
      Function.comp_def] at h
    obtain ⟨slot, -, rfl⟩ := h
    exact Trie.length_path_word _ _

/-- Keys are words, so the trie of a storage always has a root. -/
theorem root?_trie (secure : Bool) (storage : Storage) :
    (trie secure storage).root? = some (trie secure storage).digest := by
  rw [Trie.root?, if_neg]
  intro hzero
  obtain ⟨p, hp, hlen⟩ := Option.map_eq_some_iff.mp hzero
  rw [length_eq_of_mem_trie (Std.ExtTreeMap.minKey?_mem hp)] at hlen
  simp at hlen

end Storage

namespace Commit

/-- There always is a root, since a trie without leaves accepts words. -/
theorem storageRoot_eq_ok (template : Trie) (slots : List (Word × Bytes)) :
    storageRoot template slots
      = .ok (template.clear.fill (Storage.encoded slots)).digest := by
  have hput := Storage.putAll_encoded (Trie.accepts_clear template 32) slots
  rw [Storage.encoded] at hput
  rw [storageRoot, hput]
  rfl

/-- **The root of a storage.** It depends on the slots and on the mode only. -/
theorem storageRoot_eq {template : Trie} {storage : Storage} {slots : List (Word × Bytes)}
    (h : Storage.KeysApart template.secure storage) (hperm : slots.Perm storage.toList) :
    storageRoot template slots = .ok (Storage.trie template.secure storage).digest := by
  rw [storageRoot_eq_ok,
    Trie.digest_congr (Storage.leaves_fill_encoded (t := template.clear) h rfl hperm)]
  rfl

end Commit

end ExecState

namespace ExecState.Commit

/-!
## What a commitment writes

A commitment prepares the accounts that take part, in the order in which the workers hand them over
(`arrived`), and writes them into the target one by one. Preparing never fails, and as long as the
digests of the storage keys tell them apart it does not depend on the schedule. So all that can fail
is the first write: the target has leaves whose paths are not as long as those of addresses.

When it succeeds the target is overlaid with the records and codes of the accounts (`written`).
Nothing else of it changes.
-/

variable {t : Trie} {s : WorldState}

/-! ### Preparing -/

/-- What an account comes to when it is prepared on a machine that walks its storage in some
order. -/
def preparedBy (schedule : Schedule) (t : Trie) (account : Account) : Prepared where
  address := account.address
  code := account.code
  codeHash := Keccak.hash account.code
  encoding := (record account (t.clear.fill (Storage.encoded (schedule.walk account))).digest
    (Keccak.hash account.code)).encode

/-- What an account comes to when it is prepared, whoever prepares it. -/
def preparedOf (secure : Bool) (account : Account) : Prepared where
  address := account.address
  code := account.code
  codeHash := Keccak.hash account.code
  encoding := (record account (Storage.trie secure account.storage).digest
    (Keccak.hash account.code)).encode

theorem prepare_eq_ok (schedule : Schedule) (t : Trie) (account : Account) :
    prepare schedule t account = .ok (preparedBy schedule t account) := by
  rw [prepare, storageRoot_eq_ok]
  rfl

theorem preparedBy_eq {account : Account} (schedule : Schedule)
    (h : Storage.KeysApart t.secure account.storage) :
    preparedBy schedule t account = preparedOf t.secure account := by
  have hroot := storageRoot_eq h (schedule.walk_perm account)
  rw [storageRoot_eq_ok, Except.ok.injEq] at hroot
  rw [preparedBy, preparedOf, hroot]

theorem gather_map_ok (ps : List Prepared) : gather (ps.map .ok) = .ok ps := by
  induction ps with
  | nil => rfl
  | cons p ps ih =>
    rw [List.map_cons, gather, ih]
    rfl

/-- The accounts that take part, in the order in which the workers hand them over. -/
def arrived (schedule : Schedule) (threads : Nat) (s : WorldState) : List Account :=
  FanOut.run schedule.arrival threads id s.committable

theorem perm_arrived (schedule : Schedule) (threads : Nat) (s : WorldState) :
    (arrived schedule threads s).Perm s.committable :=
  FanOut.perm_run_id _ _ _

theorem mem_arrived (schedule : Schedule) (threads : Nat) (s : WorldState) (a : Account) :
    a ∈ arrived schedule threads s ↔ a ∈ s.committable :=
  (perm_arrived schedule threads s).mem_iff

theorem arrived_eq_nil (schedule : Schedule) (threads : Nat) (h : s.committable = []) :
    arrived schedule threads s = [] :=
  List.perm_nil.mp (h ▸ perm_arrived schedule threads s)

theorem gather_run (schedule : Schedule) (threads : Nat) (s : WorldState) (t : Trie) :
    gather (FanOut.run schedule.arrival threads (prepare schedule t) s.committable)
      = .ok ((arrived schedule threads s).map (preparedBy schedule t)) := by
  have hprepare : prepare schedule t = .ok ∘ preparedBy schedule t :=
    funext (prepare_eq_ok schedule t)
  rw [FanOut.run_eq_map, ← arrived, hprepare, ← List.map_map, gather_map_ok]

theorem map_preparedBy_arrived (schedule : Schedule) (threads : Nat)
    (h : ∀ a ∈ s.committable, Storage.KeysApart t.secure a.storage) :
    (arrived schedule threads s).map (preparedBy schedule t)
      = (arrived schedule threads s).map (preparedOf t.secure) := by
  refine List.map_congr_left fun a ha ↦ preparedBy_eq schedule (h a ?_)
  exact (mem_arrived schedule threads s a).mp ha

/-! ### Writing -/

def addressLength (t : Trie) : Nat := if t.secure then 32 else 20

theorem length_path_address (t : Trie) (a : Address) :
    (t.path a.bytes).length = addressLength t := by
  rw [addressLength]
  cases h : t.secure with
  | true => exact Trie.length_path_of_secure h _
  | false => rw [Trie.path_of_plain h]; exact a.length_eq

/-- A target with the records and codes of prepared accounts laid over what it held. -/
def written (t : Trie) (ps : List Prepared) : Trie where
  leaves := t.leaves.insertMany (ps.map fun p ↦ (t.path p.address.bytes, p.encoding))
  store := t.store.insertMany (ps.map fun p ↦ (p.codeHash, p.code))
  secure := t.secure

theorem written_nil (t : Trie) : written t [] = t := by
  simp [written]

theorem written_cons {p : Prepared} (ps : List Prepared) (h : p.encoding ≠ []) :
    written ((t.putRaw p.codeHash p.code).setLeaf (t.path p.address.bytes) p.encoding) ps
      = written t (p :: ps) := by
  have hempty : p.encoding.isEmpty = false := by simpa using h
  rw [written, written, List.map_cons, List.map_cons, Std.ExtTreeMap.insertMany_cons,
    Std.ExtTreeMap.insertMany_cons]
  simp only [Trie.setLeaf, hempty]
  rfl

theorem writeAll_eq_written {ps : List Prepared} (hacc : t.Accepts (addressLength t))
    (h : ∀ p ∈ ps, p.encoding ≠ []) : writeAll t ps = .done () (written t ps) := by
  induction ps generalizing t with
  | nil => rw [writeAll, written_nil]
  | cons p ps ih =>
    -- the record is put where the code was stored before
    have hpath : ((t.putRaw p.codeHash p.code).path p.address.bytes).length = addressLength t :=
      length_path_address _ _
    have hacc' : (t.putRaw p.codeHash p.code).Accepts (addressLength t) := hacc
    have hput := Trie.put_of_accepts (hpath.symm ▸ hacc') p.encoding
    have hstep := ih (Trie.accepts_setLeaf hacc' hpath (h p List.mem_cons_self))
      fun q hq ↦ h q (List.mem_cons_of_mem p hq)
    rw [writeAll, hput]
    refine hstep.trans ?_
    rw [← written_cons ps (h p List.mem_cons_self)]
    rfl

/-- The first account is refused where paths have another length; its code is stored by then. -/
theorem writeAll_of_pathLength_ne {m : Nat} (hm : t.pathLength? = some m) (h : addressLength t ≠ m)
    (p : Prepared) (ps : List Prepared) :
    writeAll t (p :: ps)
      = .failed (.keyLength (addressLength t) m) (t.putRaw p.codeHash p.code) := by
  have hpath : ((t.putRaw p.codeHash p.code).path p.address.bytes).length = addressLength t :=
    length_path_address _ _
  have hput := Trie.put_of_pathLength_ne (t := t.putRaw p.codeHash p.code) hm
    (hpath.trans_ne h) p.encoding
  rw [writeAll, hput, hpath]
  rfl

/-! ### The two ends of a commitment -/

/-- **Success.** A target that accepts addresses is overlaid with the arrived accounts. -/
theorem commit_eq_written (schedule : Schedule) (threads : Nat)
    (hacc : s.committable ≠ [] → t.Accepts (addressLength t)) :
    commit schedule threads s t
      = .done (written t ((arrived schedule threads s).map (preparedBy schedule t))).root?
          (written t ((arrived schedule threads s).map (preparedBy schedule t))) := by
  rw [commit, gather_run]
  have hwrite : writeAll t ((arrived schedule threads s).map (preparedBy schedule t))
      = .done () (written t ((arrived schedule threads s).map (preparedBy schedule t))) := by
    -- without accounts the target need not accept anything
    by_cases hnil : s.committable = []
    · rw [arrived_eq_nil schedule threads hnil, List.map_nil, writeAll, written_nil]
    · refine writeAll_eq_written (hacc hnil) fun p hp ↦ ?_
      obtain ⟨a, -, rfl⟩ := List.mem_map.mp hp
      exact Rlp.encode_ne_nil _
  dsimp only
  rw [hwrite]
  rfl

/-- Where the storage keys are told apart, the arrived accounts come to the same whoever prepares
them. -/
theorem commit_of_accepts (schedule : Schedule) (threads : Nat)
    (h : ∀ a ∈ s.committable, Storage.KeysApart t.secure a.storage)
    (hacc : s.committable ≠ [] → t.Accepts (addressLength t)) :
    commit schedule threads s t
      = .done (written t ((arrived schedule threads s).map (preparedOf t.secure))).root?
          (written t ((arrived schedule threads s).map (preparedOf t.secure))) := by
  rw [commit_eq_written schedule threads hacc, map_preparedBy_arrived schedule threads h]

/-- **Failure.** A target that does not accept addresses refuses the account that arrives first. -/
theorem commit_eq_failed (schedule : Schedule) (threads : Nat) {a : Account}
    (ha : (arrived schedule threads s).head? = some a) {m : Nat} (hm : t.pathLength? = some m)
    (hlen : addressLength t ≠ m) :
    commit schedule threads s t
      = .failed (.keyLength (addressLength t) m) (t.putRaw (Keccak.hash a.code) a.code) := by
  obtain ⟨as, harr⟩ := List.head?_eq_some_iff.mp ha
  rw [commit, gather_run, harr, List.map_cons]
  dsimp only
  rw [writeAll_of_pathLength_ne hm hlen]
  rfl

theorem exists_head?_arrived (schedule : Schedule) (threads : Nat) (hne : s.committable ≠ []) :
    ∃ a ∈ s.committable, (arrived schedule threads s).head? = some a := by
  have hperm := perm_arrived schedule threads s
  cases harr : arrived schedule threads s with
  | nil => exact absurd (List.nil_perm.mp (harr ▸ hperm)) hne
  | cons a as => exact ⟨a, hperm.mem_iff.mp (harr ▸ List.mem_cons_self), rfl⟩

theorem commit_of_pathLength_ne (schedule : Schedule) (threads : Nat) (hne : s.committable ≠ [])
    {m : Nat} (hm : t.pathLength? = some m) (hlen : addressLength t ≠ m) :
    ∃ a ∈ s.committable, commit schedule threads s t
      = .failed (.keyLength (addressLength t) m) (t.putRaw (Keccak.hash a.code) a.code) := by
  obtain ⟨a, ha, hhead⟩ := exists_head?_arrived schedule threads hne
  exact ⟨a, ha, commit_eq_failed schedule threads hhead hm hlen⟩

/-! ### Digests that tell things apart -/

/-- The digests of the codes tell them apart and, where keys are hashed, so do those of the
addresses and of the keys of each storage. -/
structure HashesApart (secure : Bool) (s : WorldState) : Prop where
  codes : Set.InjOn Keccak.hash {c | ∃ a ∈ s.committable, a.code = c}
  addresses : secure = true → Set.InjOn Keccak.hash {b | ∃ a ∈ s.committable, a.address.bytes = b}
  keys : ∀ a ∈ s.committable, Storage.KeysApart secure a.storage

/-- Where keys are hashed, the digests of the addresses tell them apart, and so do those of the keys
of each storage. This is all that a root depends on. -/
structure PathsApart (secure : Bool) (s : WorldState) : Prop where
  addresses : secure = true → Set.InjOn Keccak.hash {b | ∃ a ∈ s.committable, a.address.bytes = b}
  keys : ∀ a ∈ s.committable, Storage.KeysApart secure a.storage

theorem HashesApart.pathsApart {secure : Bool} (h : HashesApart secure s) : PathsApart secure s :=
  ⟨h.addresses, h.keys⟩

theorem pathsApart_of_plain (s : WorldState) : PathsApart false s where
  addresses hsec := by simp at hsec
  keys a _ := Storage.keysApart_of_plain a.storage

theorem PathsApart.eq_of_path_eq (h : PathsApart t.secure s) (hs : s.Reachable) {a b : Account}
    (ha : a ∈ s.committable) (hb : b ∈ s.committable)
    (hpath : t.path a.address.bytes = t.path b.address.bytes) : a = b := by
  refine hs.eq_of_address_eq ha hb (FixedBytes.bytes_injective ?_)
  exact Trie.eq_of_path_eq (fun hsec ↦ h.addresses hsec ⟨a, ha, rfl⟩ ⟨b, hb, rfl⟩) hpath

theorem hashesApart_of_code_eq {c : Bytes} (h : ∀ a ∈ s.committable, a.code = c) :
    HashesApart false s where
  codes := by
    rintro x ⟨a, ha, rfl⟩ y ⟨b, hb, rfl⟩ -
    rw [h a ha, h b hb]
  addresses hsec := by simp at hsec
  keys a _ := Storage.keysApart_of_plain a.storage

section Leaves

variable {as : List Account} (h : PathsApart t.secure s) (hs : s.Reachable)
  (has : ∀ a, a ∈ as ↔ a ∈ s.committable)
include h hs has

theorem leaves_consistent :
    ∀ e ∈ (as.map (preparedOf t.secure)).map fun p ↦ (t.path p.address.bytes, p.encoding),
      ∀ e' ∈ (as.map (preparedOf t.secure)).map fun p ↦ (t.path p.address.bytes, p.encoding),
        e.1 = e'.1 → e.2 = e'.2 := by
  intro e he e' he' hkey
  simp only [List.map_map, List.mem_map, Function.comp_apply] at he he'
  obtain ⟨a, ha, rfl⟩ := he
  obtain ⟨b, hb, rfl⟩ := he'
  rw [h.eq_of_path_eq hs ((has a).mp ha) ((has b).mp hb) hkey]

theorem leaves_written_congr {bs : List Account} (hbs : ∀ a, a ∈ bs ↔ a ∈ s.committable) :
    (written t (as.map (preparedOf t.secure))).leaves
      = (written t (bs.map (preparedOf t.secure))).leaves := by
  refine insertMany_congr (fun e ↦ ?_) (leaves_consistent h hs has)
  simp only [List.map_map, List.mem_map, has, hbs]

end Leaves

section Written

variable {as : List Account} (h : HashesApart t.secure s) (hs : s.Reachable)
  (has : ∀ a, a ∈ as ↔ a ∈ s.committable)
include h hs has

omit hs in
theorem store_consistent :
    ∀ e ∈ (as.map (preparedOf t.secure)).map fun p ↦ (p.codeHash, p.code),
      ∀ e' ∈ (as.map (preparedOf t.secure)).map fun p ↦ (p.codeHash, p.code),
        e.1 = e'.1 → e.2 = e'.2 := by
  intro e he e' he' hkey
  simp only [List.map_map, List.mem_map, Function.comp_apply] at he he'
  obtain ⟨a, ha, rfl⟩ := he
  obtain ⟨b, hb, rfl⟩ := he'
  exact h.codes ⟨a, (has a).mp ha, rfl⟩ ⟨b, (has b).mp hb, rfl⟩ hkey

theorem get?_written {a : Account} (ha : a ∈ s.committable) :
    (written t (as.map (preparedOf t.secure))).get? a.address.bytes
      = some (preparedOf t.secure a).encoding := by
  have hmem : (t.path a.address.bytes, (preparedOf t.secure a).encoding)
      ∈ (as.map (preparedOf t.secure)).map fun p ↦ (t.path p.address.bytes, p.encoding) :=
    List.mem_map.mpr ⟨_, List.mem_map.mpr ⟨a, (has a).mpr ha, rfl⟩, rfl⟩
  have hpath : (written t (as.map (preparedOf t.secure))).path a.address.bytes
      = t.path a.address.bytes := Trie.path_congr rfl _
  rw [Trie.get?, hpath, written]
  refine getElem?_insertMany_of_mem hmem fun e he hkey ↦ ?_
  have hval := leaves_consistent h.pathsApart hs has e he _ hmem hkey
  exact hval

omit hs in
theorem getRaw?_written {a : Account} (ha : a ∈ s.committable) :
    (written t (as.map (preparedOf t.secure))).getRaw? (Keccak.hash a.code) = some a.code := by
  have hmem : (Keccak.hash a.code, a.code)
      ∈ (as.map (preparedOf t.secure)).map fun p ↦ (p.codeHash, p.code) :=
    List.mem_map.mpr ⟨_, List.mem_map.mpr ⟨a, (has a).mpr ha, rfl⟩, rfl⟩
  exact getElem?_insertMany_of_mem hmem fun e he hkey ↦
    store_consistent h has e he _ hmem hkey

omit h hs in
theorem leaves_written_of_ne {p : Bytes}
    (hp : ∀ a ∈ s.committable, t.path a.address.bytes ≠ p) :
    (written t (as.map (preparedOf t.secure))).leaves[p]? = t.leaves[p]? := by
  refine getElem?_insertMany_of_forall_ne fun e he ↦ ?_
  simp only [List.map_map, List.mem_map, Function.comp_apply] at he
  obtain ⟨a, ha, rfl⟩ := he
  exact hp a ((has a).mp ha)

omit h hs in
theorem getRaw?_written_of_ne {k : Word} (hk : ∀ a ∈ s.committable, Keccak.hash a.code ≠ k) :
    (written t (as.map (preparedOf t.secure))).getRaw? k = t.getRaw? k := by
  refine getElem?_insertMany_of_forall_ne fun e he ↦ ?_
  simp only [List.map_map, List.mem_map, Function.comp_apply] at he
  obtain ⟨a, ha, rfl⟩ := he
  exact hk a ((has a).mp ha)

/-- **The order of the accounts is forgotten.** -/
theorem written_congr {bs : List Account} (hbs : ∀ a, a ∈ bs ↔ a ∈ s.committable) :
    written t (as.map (preparedOf t.secure)) = written t (bs.map (preparedOf t.secure)) := by
  have hleaves := leaves_written_congr h.pathsApart hs has hbs
  have hstore : (written t (as.map (preparedOf t.secure))).store
      = (written t (bs.map (preparedOf t.secure))).store := by
    refine insertMany_congr (fun e ↦ ?_) (store_consistent h has)
    simp only [List.map_map, List.mem_map, has, hbs]
  exact congrArg₂ (fun leaves store ↦ Trie.mk leaves store t.secure) hleaves hstore

end Written

/-! ### The whole effect -/

theorem accepts_addressLength_iff (ht : t.Reachable) :
    t.Accepts (addressLength t) ↔ (t.secure = false → ∀ p ∈ t.leaves, p.length = 20) := by
  rw [ht.wellFormed.accepts_iff, addressLength]
  cases hsec : t.secure with
  | true => simpa using fun p ↦ ht.wellFormed.length_of_secure hsec (p := p)
  | false => simp

/-- A target without a leaf under the empty path has a root after a commitment as well. -/
theorem root?_written (has : ∀ a ∈ s.committable, t.path a.address.bytes ≠ [])
    {as : List Account} (hmem : ∀ a, a ∈ as ↔ a ∈ s.committable) (hnil : [] ∉ t.leaves) :
    (written t (as.map (preparedOf t.secure))).root?
      = some (written t (as.map (preparedOf t.secure))).digest := by
  rw [Trie.root?, if_neg]
  intro hzero
  obtain ⟨p, hp, hlen⟩ := Option.map_eq_some_iff.mp hzero
  have hpnil : p = [] := List.eq_nil_of_length_eq_zero hlen
  have hin := Std.ExtTreeMap.mem_iff_isSome_getElem?.mp (Std.ExtTreeMap.minKey?_mem hp)
  rw [hpnil, leaves_written_of_ne hmem has] at hin
  exact hnil (Std.ExtTreeMap.mem_iff_isSome_getElem?.mpr hin)

theorem path_address_ne_nil (t : Trie) (a : Address) : t.path a.bytes ≠ [] := by
  intro h
  have hlen := length_path_address t a
  rw [h, List.length_nil, addressLength] at hlen
  split at hlen <;> omega

/-- A target that held the contents of `t` and took in the accounts of `s`. -/
structure Overlaid (s : WorldState) (t u : Trie) : Prop where
  /-- Under each address there is the record of the account, with the root of a trie of its own
  for its storage. -/
  record : ∀ a ∈ s.committable, ∃ r, (Storage.trie t.secure a.storage).root? = some r ∧
    u.get? a.address.bytes = some (Commit.record a r (Keccak.hash a.code)).encode
  /-- The store has the code of each account under its digest. -/
  code : ∀ a ∈ s.committable, u.getRaw? (Keccak.hash a.code) = some a.code
  /-- Every other leaf is as before. -/
  leaf : ∀ p, (∀ a ∈ s.committable, t.path a.address.bytes ≠ p) → u.leaves[p]? = t.leaves[p]?
  /-- Every other entry of the store is as before. -/
  store : ∀ k, (∀ a ∈ s.committable, Keccak.hash a.code ≠ k) → u.getRaw? k = t.getRaw? k
  secure : u.secure = t.secure

theorem overlaid_written (h : HashesApart t.secure s) (hs : s.Reachable) {as : List Account}
    (has : ∀ a, a ∈ as ↔ a ∈ s.committable) :
    Overlaid s t (written t (as.map (preparedOf t.secure))) where
  record a ha := ⟨_, Storage.root?_trie t.secure a.storage, get?_written h hs has ha⟩
  code _ ha := getRaw?_written h has ha
  leaf _ := leaves_written_of_ne has
  store _ := getRaw?_written_of_ne has
  secure := rfl

/-- **What a commitment writes.** It fails exactly where some account takes part and the target
hashes no keys and has a leaf whose key is not as long as an address. Otherwise the target is
overlaid with the accounts, and the answer is the root that it has then. -/
theorem commit_overlay (schedule : Schedule) (threads : Nat) (hs : s.Reachable) (ht : t.Reachable)
    (hlone : ¬ (t.size = 1 ∧ [] ∈ t.leaves)) (h : HashesApart t.secure s) :
    ((∃ e u, commit schedule threads s t = .failed e u) ↔
        s.committable ≠ [] ∧ t.secure = false ∧ ∃ p ∈ t.leaves, p.length ≠ 20) ∧
      ∀ root u, commit schedule threads s t = .done root u →
        Overlaid s t u ∧ ∃ r, root = some r ∧ u.root? = some r := by
  -- the target accepts addresses or it does not, and each side settles both parts
  by_cases hacc : s.committable ≠ [] → t.Accepts (addressLength t)
  · have hcommit := commit_of_accepts schedule threads h.keys hacc
    have hmem : ∀ a, a ∈ arrived schedule threads s ↔ a ∈ s.committable :=
      fun a ↦ (perm_arrived schedule threads s).mem_iff
    rw [hcommit]
    refine ⟨⟨?_, ?_⟩, ?_⟩
    · rintro ⟨e, u, hfail⟩
      simp [Outcome.done, Outcome.failed] at hfail
    · rintro ⟨hne, hsec, p, hp, hlen⟩
      exact absurd ((accepts_addressLength_iff ht).mp (hacc hne) hsec p hp) hlen
    · intro root u hdone
      obtain ⟨hroot, rfl⟩ := Prod.mk.inj hdone
      have hnil : [] ∉ t.leaves := fun hin ↦ hlone ⟨ht.wellFormed.size_eq_one hin, hin⟩
      have hsome := root?_written (fun a _ ↦ path_address_ne_nil t a.address) hmem hnil
      refine ⟨overlaid_written h hs hmem, _, ?_, hsome⟩
      rw [← Except.ok.inj hroot, hsome]
  · obtain ⟨hne, hnot⟩ := Classical.not_imp.mp hacc
    have hrefused := hnot
    simp only [Trie.Accepts, not_forall] at hrefused
    obtain ⟨m, hm, hlen⟩ := hrefused
    obtain ⟨a, -, hcommit⟩ := commit_of_pathLength_ne schedule threads hne hm hlen
    rw [hcommit]
    refine ⟨⟨fun _ ↦ ?_, fun _ ↦ ⟨_, _, rfl⟩⟩, fun root u hdone ↦ ?_⟩
    · rw [accepts_addressLength_iff ht] at hnot
      simp only [Classical.not_imp, not_forall] at hnot
      obtain ⟨hsec, p, hp, hne20⟩ := hnot
      exact ⟨hne, hsec, p, hp, hne20⟩
    · simp [Outcome.done, Outcome.failed] at hdone

/-- The address whose bytes are all the same. -/
def repeated (b : UInt8) : Address := ⟨List.replicate 20 b, List.length_replicate⟩

/-- Two accounts that were used, one after the other. -/
def twoUsed : WorldState :=
  WorldState.empty.after [.setNonce (repeated 1) 1, .addBalance (repeated 2) 5]

/-- A trie that has a leaf and an entry in its store. -/
def occupied : Trie :=
  (((Trie.empty false).putRaw FixedBytes.zero [1]).put (List.replicate 20 9) [1]).2

theorem commit_overlay_occupied :
    occupied.Reachable ∧ twoUsed.Reachable ∧ ¬ (occupied.size = 1 ∧ [] ∈ occupied.leaves) ∧
      HashesApart occupied.secure twoUsed ∧
      ((∃ e u, commit Schedule.sequential 4 twoUsed occupied = .failed e u) ↔
        twoUsed.committable ≠ [] ∧ occupied.secure = false ∧
          ∃ p ∈ occupied.leaves, p.length ≠ 20) ∧
      ∀ root u, commit Schedule.sequential 4 twoUsed occupied = .done root u →
        Overlaid twoUsed occupied u ∧ ∃ r, root = some r ∧ u.root? = some r := by
  have hput : occupied
      = ((Trie.empty false).putRaw FixedBytes.zero [1]).setLeaf (List.replicate 20 9) [1] := by
    have hacc : ((Trie.empty false).putRaw FixedBytes.zero [1]).Accepts 20 :=
      Trie.accepts_clear (Trie.empty false) 20
    exact congrArg Prod.snd (Trie.put_of_accepts hacc [1])
  have hs : twoUsed.Reachable := WorldState.Reachable.empty.after _
  have ht : occupied.Reachable := ((Trie.Reachable.empty false).putRaw _ _).put _ _
  have hlone : ¬ (occupied.size = 1 ∧ [] ∈ occupied.leaves) := by
    rintro ⟨-, hnil⟩
    rw [hput] at hnil
    exact absurd hnil (by decide +kernel)
  have hapart : HashesApart occupied.secure twoUsed := by
    rw [hput]
    exact hashesApart_of_code_eq (c := []) (by decide +kernel)
  exact ⟨ht, hs, hlone, hapart, commit_overlay Schedule.sequential 4 hs ht hlone hapart⟩

end ExecState.Commit
