import ExecState.Proofs.Commit.Order
import ExecState.Proofs.Trie.Binding

/-!
# Roots and states

A commitment into a trie without leaves makes the root a name of the accounts that take part: these
are settled by the root, and the root is settled by them.
-/

namespace ExecState

/-!
## The root binds the state

`hashed` lists the byte strings that a commitment into a trie without leaves hashes: codes, the
nodes of the trie and of the tries of the storages and, where keys are hashed, the keys. As long as
these can be told apart by their digests, commitments with one root are commitments of one set of
accounts.

The layers are opened from the outside: the root gives the leaves of the trie, a leaf gives the
address and the record of an account, the record gives its numbers and two digests, and the digests
give the code and the leaves of the trie of the storage, which give the slots.
-/

variable {S : Set Bytes} {secure : Bool}

/-! ### Storages -/

namespace Storage

variable {storage storage₁ storage₂ : Storage}

/-- What is hashed for a storage: the nodes of its trie and, where keys are hashed, the keys. -/
def hashed (secure : Bool) (storage : Storage) : List Bytes :=
  (if secure then storage.keys.map FixedBytes.bytes else []) ++ (trie secure storage).hashed

theorem bytes_mem_hashed (hsec : secure = true) {k : Word} (hk : k ∈ storage) :
    k.bytes ∈ hashed secure storage := by
  rw [hashed, if_pos hsec]
  exact List.mem_append_left _ (List.mem_map.mpr ⟨k, Std.ExtTreeMap.mem_keys.mpr hk, rfl⟩)

theorem keysApart_of_injOn (hS : Set.InjOn Keccak.hash S)
    (h : ∀ b ∈ hashed secure storage, b ∈ S) : KeysApart secure storage := by
  intro hsec
  refine hS.mono ?_
  rintro b ⟨k, hk, rfl⟩
  exact h _ (bytes_mem_hashed hsec hk)

/-- What one storage holds, another whose trie has the same leaves holds as well. -/
theorem getElem?_eq_some_of_leaves_eq (hS : Set.InjOn Keccak.hash S)
    (h₁ : ∀ b ∈ hashed secure storage₁, b ∈ S) (h₂ : ∀ b ∈ hashed secure storage₂, b ∈ S)
    (hleaves : (trie secure storage₁).leaves = (trie secure storage₂).leaves) {k : Word} {w : Bytes}
    (hk : storage₁[k]? = some w) : storage₂[k]? = some w := by
  have hleaf := (getElem?_leaves_trie (keysApart_of_injOn hS h₁)).mpr ⟨k, w, hk, rfl, rfl⟩
  rw [hleaves] at hleaf
  obtain ⟨l, v, hl, hpath, hval⟩ := (getElem?_leaves_trie (keysApart_of_injOn hS h₂)).mp hleaf
  have hkey : l = k := by
    refine FixedBytes.bytes_injective (Trie.eq_of_path_eq (fun hsec heq ↦ ?_) hpath)
    have hlmem : l ∈ storage₂ := (Std.ExtTreeMap.getElem?_eq_some_iff.mp hl).fst
    have hkmem : k ∈ storage₁ := (Std.ExtTreeMap.getElem?_eq_some_iff.mp hk).fst
    exact hS (h₂ _ (bytes_mem_hashed hsec hlmem)) (h₁ _ (bytes_mem_hashed hsec hkmem)) heq
  rw [← hkey, hl, Rlp.encodeBytes_injective hval]

/-- **The root of a storage binds the storage.** -/
theorem eq_of_digest_eq (hS : Set.InjOn Keccak.hash S)
    (h₁ : ∀ b ∈ hashed secure storage₁, b ∈ S) (h₂ : ∀ b ∈ hashed secure storage₂, b ∈ S)
    (h : (trie secure storage₁).digest = (trie secure storage₂).digest) : storage₁ = storage₂ := by
  have hleaves := Trie.leaves_eq_of_digest_eq hS (fun p ↦ length_eq_of_mem_trie)
    (fun p ↦ length_eq_of_mem_trie) (by decide) (by decide)
    (fun b hb ↦ h₁ b (List.mem_append_right _ hb)) (fun b hb ↦ h₂ b (List.mem_append_right _ hb)) h
  refine Std.ExtTreeMap.ext_getElem? fun k ↦ Option.ext fun w ↦ ?_
  exact ⟨getElem?_eq_some_of_leaves_eq hS h₁ h₂ hleaves,
    getElem?_eq_some_of_leaves_eq hS h₂ h₁ hleaves.symm⟩

end Storage

namespace Commit

/-! ### Records -/

/-- **Records** can be read again. -/
theorem record_inj {a b : Account} {r r' c c' : Word}
    (h : (record a r c).encode = (record b r' c').encode) :
    a.nonce = b.nonce ∧ a.balance = b.balance ∧ r = r' ∧ c = c' := by
  have hword : ∀ w : Word, (Rlp.Item.word w).length = 33 := fun w ↦ by
    rw [← Rlp.length_encode, Rlp.length_encode_word]
  have hpayload : Rlp.payloadLength [.uint b.nonce, .uint b.balance, .word r', .word c']
      < 2 ^ 64 := by
    have hnonce := Rlp.length_uint_le b.nonce
    have hbalance := Rlp.length_uint_le b.balance
    simp only [Rlp.payloadLength, hword]
    omega
  have hmap := Rlp.map_encode_eq_of_encode_list_eq hpayload h
  simp only [List.map_cons, List.map_nil, List.cons.injEq, and_true] at hmap
  obtain ⟨hnonce, hbalance, hroot, hcode⟩ := hmap
  exact ⟨Rlp.uint_encode_injective hnonce, Rlp.uint_encode_injective hbalance,
    Rlp.word_encode_injective hroot, Rlp.word_encode_injective hcode⟩

/-! ### What is hashed -/

/-- What is hashed to prepare and to find the place of an account. -/
def hashedFor (secure : Bool) (a : Account) : List Bytes :=
  a.code :: (if secure then [a.address.bytes] else []) ++ a.storage.hashed secure

/-- What a commitment into a trie without leaves hashes. -/
def hashed (schedule : Schedule) (threads : Nat) (secure : Bool) (s : WorldState) : List Bytes :=
  s.committable.flatMap (hashedFor secure)
    ++ (commit schedule threads s (Trie.empty secure)).2.hashed

theorem address_mem_hashedFor (hsec : secure = true) (a : Account) :
    a.address.bytes ∈ hashedFor secure a := by
  rw [hashedFor, if_pos hsec]
  exact List.mem_append_left _ (List.mem_cons_of_mem _ List.mem_cons_self)

section Prepared

variable {a b : Account} (hS : Set.InjOn Keccak.hash S)
  (ha : ∀ x ∈ hashedFor secure a, x ∈ S) (hb : ∀ x ∈ hashedFor secure b, x ∈ S)
include hS ha hb

theorem address_eq_of_path_eq
    (h : (Trie.empty secure).path a.address.bytes = (Trie.empty secure).path b.address.bytes) :
    a.address = b.address := by
  refine FixedBytes.bytes_injective (Trie.eq_of_path_eq (fun hsec heq ↦ ?_) h)
  exact hS (ha _ (address_mem_hashedFor hsec a)) (hb _ (address_mem_hashedFor hsec b)) heq

/-- **A leaf binds an account.** -/
theorem contents_eq_of_encoding_eq
    (haddress : a.address = b.address)
    (h : (preparedOf secure a).encoding = (preparedOf secure b).encoding) :
    a.contents = b.contents := by
  obtain ⟨hnonce, hbalance, hroot, hcode⟩ := record_inj h
  have hcodes : a.code = b.code := hS (ha _ List.mem_cons_self) (hb _ List.mem_cons_self) hcode
  have hstorage := Storage.eq_of_digest_eq hS (fun x hx ↦ ha x (List.mem_append_right _ hx))
    (fun x hx ↦ hb x (List.mem_append_right _ hx)) hroot
  rw [Account.contents, Account.contents, haddress, hnonce, hbalance, hcodes, hstorage]

end Prepared

theorem hashesApart_of_injOn {s : WorldState} (hS : Set.InjOn Keccak.hash S)
    (h : ∀ a ∈ s.committable, ∀ x ∈ hashedFor secure a, x ∈ S) : HashesApart secure s where
  codes := by
    refine hS.mono ?_
    rintro c ⟨a, ha, rfl⟩
    exact h a ha _ List.mem_cons_self
  addresses hsec := by
    refine hS.mono ?_
    rintro c ⟨a, ha, rfl⟩
    exact h a ha _ (address_mem_hashedFor hsec a)
  keys a ha := Storage.keysApart_of_injOn hS fun b hb ↦ h a ha b (List.mem_append_right _ hb)

/-! ### Tries that were empty -/

/-- The trie that a commitment of accounts makes of one without leaves. -/
def ledgerTrie (secure : Bool) (as : List Account) : Trie :=
  written (Trie.empty secure) (as.map (preparedOf secure))

theorem commit_empty (secure : Bool) (schedule : Schedule) (threads : Nat) {s : WorldState}
    (h : ∀ a ∈ s.committable, Storage.KeysApart secure a.storage) :
    commit schedule threads s (Trie.empty secure)
      = .done (some (ledgerTrie secure (arrived schedule threads s)).digest)
          (ledgerTrie secure (arrived schedule threads s)) := by
  have hcommit := commit_of_accepts (t := Trie.empty secure) schedule threads h
    fun _ ↦ Trie.accepts_clear (Trie.empty secure) _
  have hroot := root?_written (t := Trie.empty secure) (s := s)
    (fun a _ ↦ path_address_ne_nil _ a.address)
    (fun a ↦ (perm_arrived schedule threads s).mem_iff) (by simp [Trie.empty])
  rw [hcommit, hroot]
  rfl

theorem hashed_eq {schedule : Schedule} {threads : Nat} {s : WorldState}
    (h : ∀ a ∈ s.committable, Storage.KeysApart secure a.storage) :
    hashed schedule threads secure s = s.committable.flatMap (hashedFor secure)
      ++ (ledgerTrie secure (arrived schedule threads s)).hashed := by
  rw [hashed, commit_empty secure schedule threads h]
  rfl

section LedgerTrie

variable {s : WorldState} {as : List Account} (has : ∀ a, a ∈ as ↔ a ∈ s.committable)
include has

theorem exists_of_mem_ledgerTrie {p : Bytes} (hp : p ∈ (ledgerTrie secure as).leaves) :
    ∃ a ∈ s.committable, (Trie.empty secure).path a.address.bytes = p := by
  by_contra hnone
  simp only [not_exists, not_and] at hnone
  have hsame : (ledgerTrie secure as).leaves[p]? = (Trie.empty secure).leaves[p]? :=
    leaves_written_of_ne (t := Trie.empty secure) has hnone
  rw [Std.ExtTreeMap.mem_iff_isSome_getElem?, hsame] at hp
  simp [Trie.empty] at hp

theorem length_eq_of_mem_ledgerTrie {p : Bytes} (hp : p ∈ (ledgerTrie secure as).leaves) :
    p.length = addressLength (Trie.empty secure) := by
  obtain ⟨a, -, rfl⟩ := exists_of_mem_ledgerTrie has hp
  exact length_path_address _ _

theorem getElem?_ledgerTrie (h : HashesApart secure s) (hs : s.Reachable) {a : Account}
    (ha : a ∈ s.committable) :
    (ledgerTrie secure as).leaves[(Trie.empty secure).path a.address.bytes]?
      = some (preparedOf secure a).encoding :=
  get?_written (t := Trie.empty secure) h hs has ha

end LedgerTrie

/-! ### The layers together -/

theorem exists_contents_eq_of_leaves_eq (hS : Set.InjOn Keccak.hash S) {s₁ s₂ : WorldState}
    {as₁ as₂ : List Account} (h₁ : s₁.Reachable) (h₂ : s₂.Reachable)
    (hin₁ : ∀ a ∈ s₁.committable, ∀ x ∈ hashedFor secure a, x ∈ S)
    (hin₂ : ∀ a ∈ s₂.committable, ∀ x ∈ hashedFor secure a, x ∈ S)
    (has₁ : ∀ a, a ∈ as₁ ↔ a ∈ s₁.committable) (has₂ : ∀ a, a ∈ as₂ ↔ a ∈ s₂.committable)
    (hleaves : (ledgerTrie secure as₁).leaves = (ledgerTrie secure as₂).leaves)
    {a : Account} (ha : a ∈ s₁.committable) : ∃ b ∈ s₂.committable, b.contents = a.contents := by
  have hget := getElem?_ledgerTrie has₁ (hashesApart_of_injOn hS hin₁) h₁ ha
  rw [hleaves] at hget
  have hmem : (Trie.empty secure).path a.address.bytes ∈ (ledgerTrie secure as₂).leaves :=
    (Std.ExtTreeMap.getElem?_eq_some_iff.mp hget).fst
  obtain ⟨b, hb, hpath⟩ := exists_of_mem_ledgerTrie has₂ hmem
  have haddress := address_eq_of_path_eq hS (hin₂ b hb) (hin₁ a ha) hpath
  have hget' := getElem?_ledgerTrie has₂ (hashesApart_of_injOn hS hin₂) h₂ hb
  rw [hpath, hget, Option.some_inj] at hget'
  exact ⟨b, hb, contents_eq_of_encoding_eq hS (hin₂ b hb) (hin₁ a ha) haddress hget'.symm⟩

/-- **The root binds the state.** Commitments of two world states into tries without leaves yield
roots, and where the roots are equal the same accounts took part in both: the same addresses, each
with the same numbers, code and storage. -/
theorem sameCommittable_of_root_eq (σ₁ σ₂ : Schedule) (n₁ n₂ : Nat) (secure : Bool)
    {s₁ s₂ : WorldState} (h₁ : s₁.Reachable) (h₂ : s₂.Reachable)
    (hS : Set.InjOn Keccak.hash
      {b | b ∈ hashed σ₁ n₁ secure s₁ ∨ b ∈ hashed σ₂ n₂ secure s₂}) :
    ∃ r₁ r₂ u₁ u₂, commit σ₁ n₁ s₁ (Trie.empty secure) = .done (some r₁) u₁ ∧
      commit σ₂ n₂ s₂ (Trie.empty secure) = .done (some r₂) u₂ ∧
      (r₁ = r₂ → s₁.SameCommittable s₂) := by
  have hin₁ : ∀ a ∈ s₁.committable, ∀ x ∈ hashedFor secure a,
      x ∈ {b | b ∈ hashed σ₁ n₁ secure s₁ ∨ b ∈ hashed σ₂ n₂ secure s₂} :=
    fun a ha x hx ↦ Or.inl (List.mem_append_left _ (List.mem_flatMap.mpr ⟨a, ha, hx⟩))
  have hin₂ : ∀ a ∈ s₂.committable, ∀ x ∈ hashedFor secure a,
      x ∈ {b | b ∈ hashed σ₁ n₁ secure s₁ ∨ b ∈ hashed σ₂ n₂ secure s₂} :=
    fun a ha x hx ↦ Or.inr (List.mem_append_left _ (List.mem_flatMap.mpr ⟨a, ha, hx⟩))
  have hkeys₁ := (hashesApart_of_injOn hS hin₁).keys
  have hkeys₂ := (hashesApart_of_injOn hS hin₂).keys
  have has₁ : ∀ a, a ∈ arrived σ₁ n₁ s₁ ↔ a ∈ s₁.committable :=
    fun a ↦ (perm_arrived σ₁ n₁ s₁).mem_iff
  have has₂ : ∀ a, a ∈ arrived σ₂ n₂ s₂ ↔ a ∈ s₂.committable :=
    fun a ↦ (perm_arrived σ₂ n₂ s₂).mem_iff
  refine ⟨_, _, _, _, commit_empty secure σ₁ n₁ hkeys₁, commit_empty secure σ₂ n₂ hkeys₂,
    fun hroot ↦ ?_⟩
  have hlen : addressLength (Trie.empty secure) < 2 ^ 63 := by
    rw [addressLength]
    split <;> decide
  have hleaves := Trie.leaves_eq_of_digest_eq hS (fun p ↦ length_eq_of_mem_ledgerTrie has₁)
    (fun p ↦ length_eq_of_mem_ledgerTrie has₂) hlen hlen
    (fun b hb ↦ Or.inl (hashed_eq hkeys₁ ▸ List.mem_append_right _ hb))
    (fun b hb ↦ Or.inr (hashed_eq hkeys₂ ▸ List.mem_append_right _ hb)) hroot
  intro c
  rw [List.mem_map, List.mem_map]
  constructor
  · rintro ⟨a, ha, rfl⟩
    exact exists_contents_eq_of_leaves_eq hS h₁ h₂ hin₁ hin₂ has₁ has₂ hleaves ha
  · rintro ⟨b, hb, rfl⟩
    exact exists_contents_eq_of_leaves_eq hS h₂ h₁ hin₂ hin₁ has₂ has₁ hleaves.symm hb

/-! ### One state by two histories

Of the two accounts below one has slots, and both have the code whose digest stands for no leaves as
well. The trie of the slots is an extension over a branch, and the one of the accounts a branch over
two leaves. So there are five strings to tell apart; each is hashed once, and the digests that other
strings contain are written out for that. -/

/-- A word that is zero but for its last byte. -/
def slotAt (last : UInt8) : Word := FixedBytes.leftPad 32 [last] (Nat.le_of_ble_eq_true rfl)

def holder : Account :=
  { Account.fresh (repeated 0x11) with
    code := Rlp.encodeBytes [], balance := 7
    storage := ((∅ : Storage).insert (slotAt 1) [5]).insert (slotAt 2) [6] }

def payee : Account :=
  { Account.fresh (repeated 0x22) with code := Rlp.encodeBytes [], balance := 9 }

def straight : WorldState :=
  WorldState.empty.after
    [.addBalance holder.address 7, .setCode holder.address holder.code,
      .setSlot holder.address (slotAt 1) [5], .setSlot holder.address (slotAt 2) [6],
      .addBalance payee.address 9, .setCode payee.address payee.code]

def winding : WorldState :=
  WorldState.empty.after
    [.addBalance payee.address 10, .setCode payee.address payee.code,
      .setSlot holder.address (slotAt 1) [4], .setSlot holder.address (slotAt 2) [6],
      .setSlot holder.address (slotAt 1) [5], .setCode holder.address holder.code,
      .addBalance holder.address 7, .subBalance payee.address 1]

theorem committable_straight : straight.committable = [holder, payee] := rfl

theorem committable_winding : winding.committable = [payee, holder] := rfl

theorem mem_committable_straight (a : Account) :
    a ∈ straight.committable ↔ a ∈ [holder, payee] := by
  rw [committable_straight]

theorem mem_committable_winding (a : Account) :
    a ∈ winding.committable ↔ a ∈ [holder, payee] := by
  rw [committable_winding]
  exact (List.Perm.swap holder payee []).mem_iff

theorem hashed_fork {p q : List Nibble} {v w : Bytes}
    (hp : 32 ≤ (Patricia.Tree.leaf p v).node.encode.length)
    (hq : 32 ≤ (Patricia.Tree.leaf q w).node.encode.length) :
    (Patricia.fork 1 (.leaf p v) 2 (.leaf q w)).hashed =
      [(Rlp.Item.list (.bytes [] :: .word (Keccak.hash (Patricia.Tree.leaf p v).node.encode)
          :: .word (Keccak.hash (Patricia.Tree.leaf q w).node.encode)
          :: List.replicate 14 (.bytes []))).encode,
        (Patricia.Tree.leaf p v).node.encode, (Patricia.Tree.leaf q w).node.encode] := by
  have hnode : (Patricia.fork 1 (.leaf p v) 2 (.leaf q w)).node = .list (.bytes []
      :: Patricia.reference (Patricia.Tree.leaf p v).node
      :: Patricia.reference (Patricia.Tree.leaf q w).node :: List.replicate 14 (.bytes [])) := by
    rw [Patricia.fork, Patricia.branchOf_eq]
    rfl
  have hbelow : (Patricia.fork 1 (.leaf p v) 2 (.leaf q w)).hashedBelow
      = Patricia.referenceHashed (Patricia.Tree.leaf p v).node
        ++ (Patricia.referenceHashed (Patricia.Tree.leaf q w).node ++ []) := by
    rw [Patricia.fork, Patricia.branchOf_eq]
    simp only [Patricia.Tree.hashedBelow]
    change [] ++ ((_ ++ []) ++ ((_ ++ []) ++ [])) = _
    simp
  rw [Patricia.Tree.hashed, hnode, hbelow, Patricia.reference, Patricia.reference,
    Patricia.referenceHashed, Patricia.referenceHashed, if_neg hp.not_gt, if_neg hq.not_gt,
    if_neg hp.not_gt, if_neg hq.not_gt]
  rfl

/-- The root node of the slots as it is written. -/
def slotsNode : Bytes :=
  [247, 160, 16] ++ List.replicate 31 0 ++ [213, 128, 194, 32, 5, 194, 32, 6]
    ++ List.replicate 14 128

def slotsDigest : Word :=
  ⟨[0xf7, 0x64, 0xdd, 0x18, 0xbb, 0x16, 0x86, 0x62, 0x64, 0xb6, 0x6a, 0x75, 0x53, 0x1a, 0x9d, 0xe2,
    0x3b, 0x81, 0xad, 0xa5, 0xcb, 0x39, 0x8b, 0x61, 0xdd, 0xd0, 0x09, 0x9e, 0x82, 0x55, 0x1c,
    0xaf], rfl⟩

/-- The leaf of an account under a branch on the first nibble of its address. -/
def leafNode (a : Account) (storageRoot : Word) : Bytes :=
  (Patricia.Tree.leaf (Nibble.unpack a.address.bytes).tail
    (record a storageRoot Patricia.emptyDigest).encode).node.encode

def holderDigest : Word :=
  ⟨[0xe6, 0x98, 0x66, 0x8b, 0x84, 0xf9, 0x95, 0x00, 0x20, 0x13, 0xfc, 0xd2, 0xff, 0x0f, 0x4b, 0x0d,
    0xfb, 0x2f, 0x4b, 0xf2, 0xe1, 0x03, 0x92, 0x36, 0x7d, 0x6a, 0xce, 0x16, 0x1c, 0xcd, 0xbb,
    0x4b], rfl⟩

def payeeDigest : Word :=
  ⟨[0xcb, 0x5c, 0x64, 0x93, 0xef, 0xa6, 0x9f, 0xa8, 0x6d, 0x9d, 0x54, 0x39, 0x80, 0xb3, 0xa2, 0x33,
    0x65, 0xb1, 0xb0, 0xab, 0x33, 0x59, 0xa5, 0x1e, 0xfc, 0xe0, 0x81, 0xa5, 0xab, 0x44, 0x0c,
    0xb4], rfl⟩

/-- The branch over both leaves as it is written. -/
def rootNode : Bytes :=
  (Rlp.Item.list (.bytes [] :: .word holderDigest :: .word payeeDigest
    :: List.replicate 14 (.bytes []))).encode

theorem hashed_holder : holder.storage.hashed false = [slotsNode] := by
  rw [Storage.hashed, Storage.trie_eq_fill]
  rfl

theorem hash_nodes :
    Keccak.hash slotsNode = slotsDigest ∧
      Keccak.hash (leafNode holder slotsDigest) = holderDigest ∧
      Keccak.hash (leafNode payee Patricia.emptyDigest) = payeeDigest := by
  rw [leafNode, leafNode, Patricia.emptyDigest_eq]
  simp only [Keccak.Grid.hash_eq]
  decide +kernel

theorem encoding_holder : (preparedOf false holder).encoding
    = (record holder slotsDigest Patricia.emptyDigest).encode := by
  have hroot : (Storage.trie false holder.storage).digest = slotsDigest :=
    (Trie.digest_of_hashed hashed_holder).trans hash_nodes.1
  rw [preparedOf, hroot]
  rfl

theorem tree?_accounts :
    (ledgerTrie false [holder, payee]).tree? = some (Patricia.fork
      1 (.leaf (Nibble.unpack holder.address.bytes).tail
        (record holder slotsDigest Patricia.emptyDigest).encode)
      2 (.leaf (Nibble.unpack payee.address.bytes).tail
        (record payee Patricia.emptyDigest Patricia.emptyDigest).encode)) := by
  have hpayee : (preparedOf false payee).encoding
      = (record payee Patricia.emptyDigest Patricia.emptyDigest).encode := rfl
  rw [← encoding_holder, ← hpayee, ledgerTrie, List.map_cons, List.map_singleton]
  unfold preparedOf
  -- what the leaves hold has no part in how they are parted
  generalize (record holder _ _).encode = v
  generalize (record payee _ _).encode = w
  rfl

theorem le_length_leafNode (a : Account) (storageRoot : Word) :
    32 ≤ (leafNode a storageRoot).length := by
  have hrecord : 33 ≤ (record a storageRoot Patricia.emptyDigest).encode.length := by
    rw [← Rlp.length_encode_word storageRoot]
    exact Rlp.length_encode_le_of_mem (by simp)
  have hvalue : (Rlp.Item.bytes (record a storageRoot Patricia.emptyDigest).encode).encode.length
      ≤ (leafNode a storageRoot).length :=
    Rlp.length_encode_le_of_mem (by simp)
  rw [Rlp.length_encode, Rlp.Item.length] at hvalue
  exact (Nat.le_of_succ_le hrecord).trans ((Rlp.length_le_bytesLength _).trans hvalue)

theorem hashed_accounts : (ledgerTrie false [holder, payee]).hashed
    = [rootNode, leafNode holder slotsDigest, leafNode payee Patricia.emptyDigest] := by
  obtain ⟨-, hholder, hpayee⟩ := hash_nodes
  rw [Trie.hashed, tree?_accounts, Patricia.hashed?,
    hashed_fork (le_length_leafNode holder _) (le_length_leafNode payee _), ← leafNode,
    ← leafNode, hholder, hpayee, rootNode]

section Accounts

variable {schedule : Schedule} {threads : Nat} {s : WorldState} (hs : s.Reachable)
  (h : ∀ a, a ∈ s.committable ↔ a ∈ [holder, payee])
include hs h

theorem hashed_arrived : (ledgerTrie false (arrived schedule threads s)).hashed
    = [rootNode, leafNode holder slotsDigest, leafNode payee Patricia.emptyDigest] := by
  have hleaves := leaves_written_congr (t := Trie.empty false) (pathsApart_of_plain s) hs
    (mem_arrived schedule threads s) fun a ↦ (h a).symm
  rw [← hashed_accounts]
  exact Trie.hashed_congr hleaves

theorem commit_accounts : commit schedule threads s (Trie.empty false)
    = .done (some (Keccak.hash rootNode)) (ledgerTrie false (arrived schedule threads s)) := by
  rw [commit_empty false schedule threads fun a _ ↦ Storage.keysApart_of_plain a.storage,
    Trie.digest_of_hashed (hashed_arrived hs h)]

end Accounts

/-- The strings that both commitments hash. -/
def strings : List Bytes :=
  [Rlp.encodeBytes [], slotsNode, rootNode, leafNode holder slotsDigest,
    leafNode payee Patricia.emptyDigest]

theorem nodup_digests : (strings.map Keccak.hash).Nodup := by
  obtain ⟨hslots, hholder, hpayee⟩ := hash_nodes
  rw [strings, List.map_cons, List.map_cons, List.map_cons, List.map_cons, List.map_singleton,
    hslots, hholder, hpayee, ← Patricia.emptyDigest, Patricia.emptyDigest_eq,
    Keccak.Grid.hash_eq]
  decide +kernel

theorem hashedFor_subset {a : Account} (ha : a ∈ [holder, payee]) :
    hashedFor false a ⊆ strings := by
  have hholder : hashedFor false holder = [Rlp.encodeBytes [], slotsNode] := by
    rw [hashedFor, hashed_holder]
    rfl
  have hpayee : hashedFor false payee = [Rlp.encodeBytes [], Rlp.encodeBytes []] := rfl
  obtain rfl | rfl := List.mem_pair.mp ha
  · simp [hholder, strings]
  · simp [hpayee, strings]

theorem mem_strings {schedule : Schedule} {threads : Nat} {s : WorldState} (hs : s.Reachable)
    (h : ∀ a, a ∈ s.committable ↔ a ∈ [holder, payee]) {b : Bytes}
    (hb : b ∈ hashed schedule threads false s) : b ∈ strings := by
  rw [hashed_eq fun a _ ↦ Storage.keysApart_of_plain a.storage, hashed_arrived hs h,
    List.mem_append, List.mem_flatMap] at hb
  obtain ⟨a, ha, hb⟩ | hb := hb
  · exact hashedFor_subset ((h a).mp ha) hb
  · exact List.mem_of_mem_drop (i := 2) hb

theorem injOn_hashed_winding :
    Set.InjOn Keccak.hash {b | b ∈ hashed Schedule.sequential 4 false straight ∨
      b ∈ hashed Schedule.sequential 1 false winding} := by
  have hmem : ∀ b, b ∈ hashed Schedule.sequential 4 false straight ∨
      b ∈ hashed Schedule.sequential 1 false winding → b ∈ strings := by
    rintro b (hb | hb)
    · exact mem_strings (.after .empty _) mem_committable_straight hb
    · exact mem_strings (.after .empty _) mem_committable_winding hb
  intro x hx y hy h
  exact List.inj_on_of_nodup_map nodup_digests (hmem x hx) (hmem y hy) h

theorem sameCommittable_of_root_eq_winding :
    straight.Reachable ∧ winding.Reachable ∧
      Set.InjOn Keccak.hash {b | b ∈ hashed Schedule.sequential 4 false straight ∨
        b ∈ hashed Schedule.sequential 1 false winding} ∧
      straight.committable ≠ winding.committable ∧
      ∃ r u₁ u₂, commit Schedule.sequential 4 straight (Trie.empty false) = .done (some r) u₁ ∧
        commit Schedule.sequential 1 winding (Trie.empty false) = .done (some r) u₂ ∧
        straight.SameCommittable winding := by
  have h₁ : straight.Reachable := WorldState.Reachable.empty.after _
  have h₂ : winding.Reachable := WorldState.Reachable.empty.after _
  have hdistinct : straight.committable ≠ winding.committable := by
    rw [committable_straight, committable_winding]
    intro h
    exact absurd (congrArg Account.balance (List.cons.inj h).1) (by decide)
  obtain ⟨r₁, r₂, u₁, u₂, hcommit₁, hcommit₂, hsame⟩ :=
    sameCommittable_of_root_eq Schedule.sequential Schedule.sequential 4 1 false h₁ h₂
      injOn_hashed_winding
  -- both commitments yield the digest of the branch
  have hroot₁ := (commit_accounts h₁ mem_committable_straight).symm.trans hcommit₁
  have hroot₂ := (commit_accounts h₂ mem_committable_winding).symm.trans hcommit₂
  obtain rfl : Keccak.hash rootNode = r₁ :=
    Option.some.inj (Except.ok.inj (congrArg Prod.fst hroot₁))
  obtain rfl : Keccak.hash rootNode = r₂ :=
    Option.some.inj (Except.ok.inj (congrArg Prod.fst hroot₂))
  exact ⟨h₁, h₂, injOn_hashed_winding, hdistinct, _, u₁, u₂, hcommit₁, hcommit₂, hsame rfl⟩

end Commit

end ExecState

namespace ExecState.Commit

/-!
## The root in a trie of its own

A commitment into a trie without leaves always answers a root. Which one it is depends on the
accounts that take part and on the mode of the trie: not on the machine, not on the order of the
accounts, and not on what else is in the world state. Where keys are hashed this takes that the
digests tell the keys apart. Codes may well share a digest, since the store has no part in the root.
-/

variable {secure : Bool} {s s₁ s₂ : WorldState} {root : Word}

/-- Whether every machine that commits a world state into a trie of its own answers this root. -/
def YieldsRoot (secure : Bool) (s : WorldState) (root : Word) : Prop :=
  ∀ schedule threads, (commit schedule threads s (Trie.empty secure)).1 = .ok (some root)

theorem YieldsRoot.eq_of_committable_eq (h : YieldsRoot secure s₁ root)
    (heq : s₁.committable = s₂.committable) : YieldsRoot secure s₂ root := by
  intro schedule threads
  have hroot := h schedule threads
  rwa [commit, heq, ← commit] at hroot

/-- The trie of a row of accounts has one digest, in whatever order the accounts come. -/
theorem digest_ledgerTrie_congr {as bs : List Account} (h : PathsApart secure s) (hs : s.Reachable)
    (has : ∀ a, a ∈ as ↔ a ∈ s.committable) (hbs : ∀ a, a ∈ bs ↔ a ∈ s.committable) :
    (ledgerTrie secure as).digest = (ledgerTrie secure bs).digest :=
  Trie.digest_congr (leaves_written_congr (t := Trie.empty secure) h hs has hbs)

/-- **One root for one set of accounts.** World states in which the same accounts take part yield
one root. -/
theorem exists_yieldsRoot (h : PathsApart secure s₁) (h₁ : s₁.Reachable)
    (hsame : s₁.SameCommittable s₂) :
    ∃ root, YieldsRoot secure s₁ root ∧ YieldsRoot secure s₂ root := by
  have hyields : ∀ s : WorldState, (∀ a, a ∈ s.committable ↔ a ∈ s₁.committable) →
      YieldsRoot secure s (ledgerTrie secure s₁.committable).digest := by
    intro s hs schedule threads
    have hkeys : ∀ a ∈ s.committable, Storage.KeysApart secure a.storage :=
      fun a ha ↦ h.keys a ((hs a).mp ha)
    have harrived : ∀ a, a ∈ arrived schedule threads s ↔ a ∈ s₁.committable :=
      fun a ↦ (mem_arrived schedule threads s a).trans (hs a)
    rw [commit_empty secure schedule threads hkeys,
      digest_ledgerTrie_congr h h₁ harrived fun _ ↦ Iff.rfl]
    rfl
  exact ⟨_, hyields s₁ fun _ ↦ Iff.rfl, hyields s₂ hsame.mem_iff⟩

end ExecState.Commit
