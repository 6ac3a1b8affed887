import ExecState.Proofs.Commit.Binding

/-!
# Committing again

A commitment writes the accounts that take part and takes nothing away. Where a trie was made by
committing one world state and another one is committed into it, the accounts of the second lie
over those of the first, and an account that takes part in the first only keeps its leaf.

So the root is that of the second world state in a trie of its own exactly if every address that
took part in the first still takes part in the second (`commit_again_iff`). It is enough to look at
addresses, since the leaf of an account that still takes part is written anew.
-/

namespace ExecState.Commit

variable {S : Set Bytes} {secure : Bool} {t : Trie} {s s₁ s₂ : WorldState}
  {as as₁ as₂ as₃ : List Account}

theorem commit_of_committable_eq_nil (schedule : Schedule) (threads : Nat)
    (h : s.committable = []) : commit schedule threads s t = .done t.root? t := by
  rw [commit_eq_written schedule threads fun hne ↦ absurd h hne,
    arrived_eq_nil schedule threads h, List.map_nil, written_nil]

/-! ## One ledger over another -/

/-- The trie of one row of accounts with another row laid over it. -/
def again (secure : Bool) (as₁ as₂ : List Account) : Trie :=
  written (ledgerTrie secure as₁) (as₂.map (preparedOf secure))

theorem path_ledgerTrie (secure : Bool) (as : List Account) (key : Bytes) :
    (ledgerTrie secure as).path key = (Trie.empty secure).path key :=
  Trie.path_congr rfl key

theorem getElem?_ledgerTrie_of_ne (has : ∀ a, a ∈ as ↔ a ∈ s.committable) {p : Bytes}
    (hp : ∀ a ∈ s.committable, (Trie.empty secure).path a.address.bytes ≠ p) :
    (ledgerTrie secure as).leaves[p]? = none := by
  refine Std.ExtTreeMap.getElem?_eq_none fun hmem ↦ ?_
  obtain ⟨a, ha, hpath⟩ := exists_of_mem_ledgerTrie has hmem
  exact hp a ha hpath

theorem nil_not_mem_ledgerTrie (has : ∀ a, a ∈ as ↔ a ∈ s.committable) :
    [] ∉ (ledgerTrie secure as).leaves := by
  intro hmem
  obtain ⟨a, -, hpath⟩ := exists_of_mem_ledgerTrie has hmem
  exact path_address_ne_nil _ a.address hpath

theorem accepts_ledgerTrie (has : ∀ a, a ∈ as ↔ a ∈ s.committable) :
    (ledgerTrie secure as).Accepts (addressLength (ledgerTrie secure as)) := by
  intro m hm
  obtain ⟨p, hp, rfl⟩ := Option.map_eq_some_iff.mp hm
  exact (length_eq_of_mem_ledgerTrie has (Std.ExtTreeMap.minKey?_mem hp)).symm

section Over

variable (has₂ : ∀ a, a ∈ as₂ ↔ a ∈ s₂.committable)
include has₂

theorem getElem?_again (h : HashesApart secure s₂) (hs : s₂.Reachable) {a : Account}
    (ha : a ∈ s₂.committable) :
    (again secure as₁ as₂).leaves[(Trie.empty secure).path a.address.bytes]?
      = some (preparedOf secure a).encoding :=
  get?_written (t := ledgerTrie secure as₁) h hs has₂ ha

theorem getElem?_again_of_ne {p : Bytes}
    (hp : ∀ a ∈ s₂.committable, (Trie.empty secure).path a.address.bytes ≠ p) :
    (again secure as₁ as₂).leaves[p]? = (ledgerTrie secure as₁).leaves[p]? := by
  refine leaves_written_of_ne (t := ledgerTrie secure as₁) has₂ fun a ha ↦ ?_
  rw [path_ledgerTrie]
  exact hp a ha

variable (has₁ : ∀ a, a ∈ as₁ ↔ a ∈ s₁.committable)
include has₁

theorem length_eq_of_mem_again {p : Bytes} (hp : p ∈ (again secure as₁ as₂).leaves) :
    p.length = addressLength (Trie.empty secure) := by
  by_cases hnew : ∃ a ∈ s₂.committable, (Trie.empty secure).path a.address.bytes = p
  · obtain ⟨a, -, rfl⟩ := hnew
    exact length_path_address _ _
  · simp only [not_exists, not_and] at hnew
    rw [Std.ExtTreeMap.mem_iff_isSome_getElem?, getElem?_again_of_ne has₂ hnew,
      ← Std.ExtTreeMap.mem_iff_isSome_getElem?] at hp
    exact length_eq_of_mem_ledgerTrie has₁ hp

section Digests

variable (hS : Set.InjOn Keccak.hash S) (h₁ : s₁.Reachable) (h₂ : s₂.Reachable)
  (hin₁ : ∀ a ∈ s₁.committable, ∀ x ∈ hashedFor secure a, x ∈ S)
  (hin₂ : ∀ a ∈ s₂.committable, ∀ x ∈ hashedFor secure a, x ∈ S)
include hS h₁ h₂ hin₁ hin₂

omit h₂ in
theorem getElem?_again_of_left {a : Account} (ha : a ∈ s₁.committable)
    (hleft : a.address ∉ s₂.committable.map Account.address) :
    (again secure as₁ as₂).leaves[(Trie.empty secure).path a.address.bytes]?
      = some (preparedOf secure a).encoding := by
  have hne : ∀ b ∈ s₂.committable,
      (Trie.empty secure).path b.address.bytes ≠ (Trie.empty secure).path a.address.bytes := by
    intro b hb hpath
    have haddress := address_eq_of_path_eq hS (hin₂ b hb) (hin₁ a ha) hpath
    exact hleft (List.mem_map.mpr ⟨b, hb, haddress⟩)
  rw [getElem?_again_of_ne has₂ hne]
  exact getElem?_ledgerTrie has₁ (hashesApart_of_injOn hS hin₁) h₁ ha

/-- **What is left over.** The leaves are those of the second row alone exactly if all addresses of
the first are among those of the second. -/
theorem leaves_again_eq_iff (has₃ : ∀ a, a ∈ as₃ ↔ a ∈ s₂.committable) :
    (again secure as₁ as₂).leaves = (ledgerTrie secure as₃).leaves ↔
      ∀ a ∈ s₁.committable, a.address ∈ s₂.committable.map Account.address := by
  constructor
  · intro heq a ha
    by_contra hleft
    have hleaf := getElem?_again_of_left has₂ has₁ hS h₁ hin₁ hin₂ ha hleft
    rw [heq] at hleaf
    obtain ⟨b, hb, hpath⟩ :=
      exists_of_mem_ledgerTrie has₃ (Std.ExtTreeMap.getElem?_eq_some_iff.mp hleaf).fst
    have haddress := address_eq_of_path_eq hS (hin₂ b hb) (hin₁ a ha) hpath
    exact hleft (List.mem_map.mpr ⟨b, hb, haddress⟩)
  · intro hall
    have hapart := hashesApart_of_injOn hS hin₂
    refine Std.ExtTreeMap.ext_getElem? fun p ↦ ?_
    by_cases hnew : ∃ b ∈ s₂.committable, (Trie.empty secure).path b.address.bytes = p
    · obtain ⟨b, hb, rfl⟩ := hnew
      rw [getElem?_again has₂ hapart h₂ hb, getElem?_ledgerTrie has₃ hapart h₂ hb]
    · simp only [not_exists, not_and] at hnew
      rw [getElem?_again_of_ne has₂ hnew, getElem?_ledgerTrie_of_ne has₃ hnew]
      -- an account of the first row has the address of one of the second
      refine getElem?_ledgerTrie_of_ne has₁ fun a ha hpath ↦ ?_
      obtain ⟨b, hb, haddress⟩ := List.mem_map.mp (hall a ha)
      exact hnew b hb (haddress ▸ hpath)

theorem digest_again_eq_iff (has₃ : ∀ a, a ∈ as₃ ↔ a ∈ s₂.committable)
    (hagain : ∀ x ∈ (again secure as₁ as₂).hashed, x ∈ S)
    (hfresh : ∀ x ∈ (ledgerTrie secure as₃).hashed, x ∈ S) :
    (again secure as₁ as₂).digest = (ledgerTrie secure as₃).digest ↔
      ∀ a ∈ s₁.committable, a.address ∈ s₂.committable.map Account.address := by
  rw [← leaves_again_eq_iff has₂ has₁ hS h₁ h₂ hin₁ hin₂ has₃]
  have hlen : addressLength (Trie.empty secure) < 2 ^ 63 := by
    rw [addressLength]
    split <;> decide
  exact ⟨Trie.leaves_eq_of_digest_eq hS (fun _ ↦ length_eq_of_mem_again has₂ has₁)
    (fun _ ↦ length_eq_of_mem_ledgerTrie has₃) hlen hlen hagain hfresh, Trie.digest_congr⟩

end Digests

end Over

theorem commit_ledgerTrie (secure : Bool) (schedule : Schedule) (threads : Nat)
    (has : ∀ a, a ∈ as ↔ a ∈ s₁.committable)
    (h : ∀ a ∈ s₂.committable, Storage.KeysApart secure a.storage) :
    commit schedule threads s₂ (ledgerTrie secure as)
      = .done (some (again secure as (arrived schedule threads s₂)).digest)
          (again secure as (arrived schedule threads s₂)) := by
  have hcommit := commit_of_accepts (t := ledgerTrie secure as) schedule threads h
    fun _ ↦ accepts_ledgerTrie has
  have hroot := root?_written (t := ledgerTrie secure as) (s := s₂)
    (fun a _ ↦ path_address_ne_nil _ a.address)
    (mem_arrived schedule threads s₂) (nil_not_mem_ledgerTrie has)
  rw [hcommit, hroot]
  rfl

/-! ## One commitment after another -/

/-- What a commitment of one world state after another hashes, and a commitment of the second into a
trie of its own. -/
def hashedAgain (σ₁ σ₂ σ₃ : Schedule) (n₁ n₂ n₃ : Nat) (secure : Bool) (s₁ s₂ : WorldState) :
    List Bytes :=
  hashed σ₁ n₁ secure s₁ ++ hashed σ₃ n₃ secure s₂
    ++ (commit σ₂ n₂ s₂ (commit σ₁ n₁ s₁ (Trie.empty secure)).2).2.hashed

section Root

variable {σ₁ σ₂ σ₃ : Schedule} {n₁ n₂ n₃ : Nat} {a : Account} {x : Bytes}

theorem mem_hashedAgain_of_first (ha : a ∈ s₁.committable) (hx : x ∈ hashedFor secure a) :
    x ∈ hashedAgain σ₁ σ₂ σ₃ n₁ n₂ n₃ secure s₁ s₂ := by
  have hfirst : x ∈ hashed σ₁ n₁ secure s₁ :=
    List.mem_append_left _ (List.mem_flatMap.mpr ⟨a, ha, hx⟩)
  exact List.mem_append_left _ (List.mem_append_left _ hfirst)

theorem mem_hashedAgain_of_second (ha : a ∈ s₂.committable) (hx : x ∈ hashedFor secure a) :
    x ∈ hashedAgain σ₁ σ₂ σ₃ n₁ n₂ n₃ secure s₁ s₂ := by
  have hsecond : x ∈ hashed σ₃ n₃ secure s₂ :=
    List.mem_append_left _ (List.mem_flatMap.mpr ⟨a, ha, hx⟩)
  exact List.mem_append_left _ (List.mem_append_right _ hsecond)

theorem digest_again_arrived_eq_iff (h₁ : s₁.Reachable) (h₂ : s₂.Reachable)
    (hS : Set.InjOn Keccak.hash {b | b ∈ hashedAgain σ₁ σ₂ σ₃ n₁ n₂ n₃ secure s₁ s₂}) :
    (again secure (arrived σ₁ n₁ s₁) (arrived σ₂ n₂ s₂)).digest
        = (ledgerTrie secure (arrived σ₃ n₃ s₂)).digest ↔
      ∀ a ∈ s₁.committable, a.address ∈ s₂.committable.map Account.address := by
  have hkeys₁ := (hashesApart_of_injOn hS fun _ ha _ ↦ mem_hashedAgain_of_first ha).keys
  have hkeys₂ := (hashesApart_of_injOn hS fun _ ha _ ↦ mem_hashedAgain_of_second ha).keys
  refine digest_again_eq_iff (mem_arrived σ₂ n₂ s₂) (mem_arrived σ₁ n₁ s₁) hS h₁ h₂
    (fun _ ha _ ↦ mem_hashedAgain_of_first ha) (fun _ ha _ ↦ mem_hashedAgain_of_second ha)
    (mem_arrived σ₃ n₃ s₂) (fun x hx ↦ List.mem_append_right _ ?_)
    fun x hx ↦ List.mem_append_left _ (List.mem_append_right _ ?_)
  · rwa [commit_empty secure σ₁ n₁ hkeys₁, Outcome.snd_done,
      commit_ledgerTrie secure σ₂ n₂ (mem_arrived σ₁ n₁ s₁) hkeys₂, Outcome.snd_done]
  · rw [hashed_eq hkeys₂]
    exact List.mem_append_right _ hx

end Root

/-- **Nothing is forgotten.** A world state is committed into a trie without leaves, and then a
second one into the same trie. The root is that of the second in a trie of its own exactly if all
addresses that took part in the first still take part. An account of the second has the same leaf in
both tries, and an account that took part in the first only keeps the leaf it had. -/
theorem commit_again_iff (σ₁ σ₂ σ₃ : Schedule) (n₁ n₂ n₃ : Nat) (secure : Bool)
    {s₁ s₂ : WorldState} (h₁ : s₁.Reachable) (h₂ : s₂.Reachable)
    (hS : Set.InjOn Keccak.hash {b | b ∈ hashedAgain σ₁ σ₂ σ₃ n₁ n₂ n₃ secure s₁ s₂}) :
    ∃ r₁ r₂ r₃ u₁ u₂ u₃, commit σ₁ n₁ s₁ (Trie.empty secure) = .done (some r₁) u₁ ∧
      commit σ₂ n₂ s₂ u₁ = .done (some r₂) u₂ ∧
      commit σ₃ n₃ s₂ (Trie.empty secure) = .done (some r₃) u₃ ∧
      (r₂ = r₃ ↔ ∀ a ∈ s₁.committable, a.address ∈ s₂.committable.map Account.address) ∧
      (∀ b ∈ s₂.committable, u₂.get? b.address.bytes = u₃.get? b.address.bytes) ∧
      ∀ a ∈ s₁.committable, a.address ∉ s₂.committable.map Account.address →
        u₂.get? a.address.bytes = u₁.get? a.address.bytes ∧
          (u₂.get? a.address.bytes).isSome := by
  have hapart₁ := hashesApart_of_injOn hS fun _ ha _ ↦ mem_hashedAgain_of_first ha
  have hapart₂ := hashesApart_of_injOn hS fun _ ha _ ↦ mem_hashedAgain_of_second ha
  refine ⟨_, _, _, _, _, _, commit_empty secure σ₁ n₁ hapart₁.keys,
    commit_ledgerTrie secure σ₂ n₂ (mem_arrived σ₁ n₁ s₁) hapart₂.keys,
    commit_empty secure σ₃ n₃ hapart₂.keys, digest_again_arrived_eq_iff h₁ h₂ hS,
    fun b hb ↦ ?_, fun a ha hleft ↦ ?_⟩
  · exact (getElem?_again (mem_arrived σ₂ n₂ s₂) hapart₂ h₂ hb).trans
      (getElem?_ledgerTrie (mem_arrived σ₃ n₃ s₂) hapart₂ h₂ hb).symm
  · have hold := getElem?_ledgerTrie (mem_arrived σ₁ n₁ s₁) hapart₁ h₁ ha
    have hnew := getElem?_again_of_left (mem_arrived σ₂ n₂ s₂) (mem_arrived σ₁ n₁ s₁) hS h₁
      (fun _ ha _ ↦ mem_hashedAgain_of_first ha) (fun _ ha _ ↦ mem_hashedAgain_of_second ha)
      ha hleft
    exact ⟨hnew.trans hold.symm, Option.isSome_of_eq_some hnew⟩

/-- An account with funds, whose code is a string that is hashed anyway. -/
def fundedAccount : Account :=
  { Account.fresh (repeated 1) with code := Rlp.encodeBytes [], balance := 7 }

def funded : WorldState :=
  WorldState.empty.after
    [.addBalance fundedAccount.address 7, .setCode fundedAccount.address fundedAccount.code]

/-- The one node of the trie that `funded` is committed into. -/
def fundedNode (w : Word) : Rlp.Item :=
  .list [.bytes (Nibble.hexPrefix true (Nibble.unpack fundedAccount.address.bytes)),
    .bytes (record fundedAccount w w).encode]

theorem hashed_ledgerTrie_funded :
    (ledgerTrie false [fundedAccount]).hashed = [(fundedNode Patricia.emptyDigest).encode] := by
  have hroot : (Storage.trie false fundedAccount.storage).digest = Patricia.emptyDigest := rfl
  have hcode : Keccak.hash fundedAccount.code = Patricia.emptyDigest := rfl
  rw [ledgerTrie, List.map_singleton, preparedOf, hroot, hcode]
  generalize Patricia.emptyDigest = w
  rfl

theorem hashed_funded :
    hashed Schedule.sequential 4 false funded = [Rlp.encodeBytes [], Rlp.encodeBytes [],
      (fundedNode Patricia.emptyDigest).encode] := by
  have harrived : arrived Schedule.sequential 4 funded = [fundedAccount] := by decide +kernel
  have hcommittable : funded.committable = [fundedAccount] := by decide +kernel
  rw [hashed_eq fun a _ ↦ Storage.keysApart_of_plain a.storage, harrived, hcommittable,
    hashed_ledgerTrie_funded]
  rfl

/-- The world state `funded` after its account was destroyed. -/
def gone : WorldState := funded.after [.destroy fundedAccount.address]

theorem committable_gone : gone.committable = [] := by decide +kernel

theorem hashed_of_committable_eq_nil (h : s.committable = []) (schedule : Schedule)
    (threads : Nat) : hashed schedule threads secure s = (Trie.empty secure).hashed := by
  rw [hashed, h, commit_of_committable_eq_nil schedule threads h]
  rfl

/-- Two strings are hashed in all, and their digests are different once they are worked out. -/
theorem injOn_hashed_funded :
    Set.InjOn Keccak.hash {b | b ∈ hashed Schedule.sequential 4 false funded ∨
      b ∈ hashed Schedule.sequential 4 false gone} := by
  have hnode : Keccak.hash (Rlp.encodeBytes [])
      ≠ Keccak.hash (fundedNode Patricia.emptyDigest).encode := by
    rw [← Patricia.emptyDigest, Patricia.emptyDigest_eq, Keccak.Grid.hash_eq]
    decide +kernel
  have hgone : hashed Schedule.sequential 4 false gone = [Rlp.encodeBytes []] := by
    rw [hashed_of_committable_eq_nil committable_gone]
    rfl
  have hmem : ∀ b, b ∈ hashed Schedule.sequential 4 false funded ∨
      b ∈ hashed Schedule.sequential 4 false gone →
        b = Rlp.encodeBytes [] ∨ b = (fundedNode Patricia.emptyDigest).encode := by
    intro b
    rw [hashed_funded, hgone]
    rintro (h | h)
    · simpa using h
    · exact Or.inl (List.mem_singleton.mp h)
  intro x hx y hy h
  rcases hmem x hx with rfl | rfl <;> rcases hmem y hy with rfl | rfl
  · rfl
  · exact absurd h hnode
  · exact absurd h.symm hnode
  · rfl

/-- No more is hashed than for the two world states apart. -/
theorem injOn_hashedAgain_gone :
    Set.InjOn Keccak.hash {b | b ∈ hashedAgain Schedule.sequential Schedule.sequential
      Schedule.sequential 4 4 4 false funded gone} := by
  refine injOn_hashed_funded.mono fun b hb ↦ ?_
  rcases List.mem_append.mp hb with happart | hagain
  · exact List.mem_append.mp happart
  · rw [commit_of_committable_eq_nil _ _ committable_gone] at hagain
    exact Or.inl (List.mem_append_right _ hagain)

theorem commit_again_iff_gone :
    funded.Reachable ∧ gone.Reachable ∧
      Set.InjOn Keccak.hash {b | b ∈ hashedAgain Schedule.sequential Schedule.sequential
        Schedule.sequential 4 4 4 false funded gone} ∧
      ∃ r₁ r₂ r₃ u₁ u₂ u₃,
        commit Schedule.sequential 4 funded (Trie.empty false) = .done (some r₁) u₁ ∧
        commit Schedule.sequential 4 gone u₁ = .done (some r₂) u₂ ∧
        commit Schedule.sequential 4 gone (Trie.empty false) = .done (some r₃) u₃ ∧ r₂ ≠ r₃ ∧
        (u₂.get? fundedAccount.address.bytes).isSome := by
  have h₁ : funded.Reachable := WorldState.Reachable.empty.after _
  have h₂ : gone.Reachable := h₁.after _
  have hmem : fundedAccount ∈ funded.committable := by decide +kernel
  have hleft : fundedAccount.address ∉ gone.committable.map Account.address := by
    simp [committable_gone]
  obtain ⟨r₁, r₂, r₃, u₁, u₂, u₃, hcommit₁, hcommit₂, hcommit₃, hroot, -, hleaf⟩ :=
    commit_again_iff Schedule.sequential Schedule.sequential Schedule.sequential 4 4 4 false h₁ h₂
      injOn_hashedAgain_gone
  exact ⟨h₁, h₂, injOn_hashedAgain_gone, r₁, r₂, r₃, u₁, u₂, u₃, hcommit₁, hcommit₂, hcommit₃,
    fun heq ↦ hleft (hroot.mp heq _ hmem), (hleaf _ hmem hleft).2⟩

/-- So committing again can lead to another root than committing anew. -/
theorem not_forall_commit_again :
    ¬ ∀ (schedule : Schedule) (threads : Nat) (secure : Bool) (s₁ : WorldState)
        (commands : List Command) (r₁ r₂ r₃ : Option Word) (u₁ u₂ u₃ : Trie), s₁.Reachable →
      commit schedule threads s₁ (Trie.empty secure) = .done r₁ u₁ →
      commit schedule threads (Session.run ⟨s₁, ∅⟩ commands).2.state u₁ = .done r₂ u₂ →
      commit schedule threads (Session.run ⟨s₁, ∅⟩ commands).2.state (Trie.empty secure)
        = .done r₃ u₃ →
      r₂ = r₃ := by
  intro h
  have hkeys : ∀ s : WorldState, ∀ a ∈ s.committable, Storage.KeysApart false a.storage :=
    fun _ a _ ↦ Storage.keysApart_of_plain a.storage
  have h₁ : funded.Reachable := WorldState.Reachable.empty.after _
  have h₂ : gone.Reachable := h₁.after _
  have heq := h Schedule.sequential 4 false funded [.change (.destroy fundedAccount.address)]
    _ _ _ _ _ _ h₁ (commit_empty false _ 4 (hkeys funded))
    (commit_ledgerTrie false _ 4 (mem_arrived _ 4 funded) (hkeys gone))
    (commit_empty false _ 4 (hkeys gone))
  have hall := (digest_again_arrived_eq_iff h₁ h₂ injOn_hashedAgain_gone).mp
    (Option.some_inj.mp heq) fundedAccount (by decide +kernel)
  rw [committable_gone] at hall
  simp at hall

end ExecState.Commit
