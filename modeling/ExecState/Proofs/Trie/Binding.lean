import ExecState.Proofs.Hash.Grid
import ExecState.Proofs.Rlp.Framing
import ExecState.Proofs.Trie.Lookup
import Mathlib.Data.Set.Function

/-!
# The digest of a trie binds its leaves

A node is hashed where it is named by the node above it and is not short enough to stand there
itself, and so is the root. `hashed` lists the byte strings that are hashed on the way to the
digest of a trie. As long as these can be told apart by their digests, the digest determines the
leaves (`leaves_eq_of_digest_eq`).

Trees with one encoding are equal by induction on the first of them: lists of two items are told
apart from those of seventeen, the flag of a written path tells leaves from extensions, and what a
node is named by is either a digest or shorter than one.
-/

namespace ExecState

namespace Patricia

open Rlp

/-! ## What is hashed -/

/-- The encoding of a node, if the node above it names it by a digest. -/
def referenceHashed (node : Item) : List Bytes :=
  if node.encode.length < 32 then [] else [node.encode]

mutual
/-- What is hashed for the nodes below the root of a tree. -/
def Tree.hashedBelow (t : Tree) : List Bytes :=
  match t with
  | .leaf _ _ => []
  | .extension _ t => referenceHashed t.node ++ t.hashedBelow
  | .branch children => (List.finRange 16).flatMap fun i ↦ childHashed (children i)
termination_by structural t

/-- What is hashed below a branch at one of its places. -/
def childHashed (t : Option Tree) : List Bytes :=
  match t with
  | none => []
  | some t => referenceHashed t.node ++ t.hashedBelow
termination_by structural t
end

theorem mem_hashedBelow_branch {children : Nibble → Option Tree} {i : Nibble} {b : Bytes}
    (h : b ∈ childHashed (children i)) : b ∈ (Tree.branch children).hashedBelow :=
  List.mem_flatMap.mpr ⟨i, List.mem_finRange i, h⟩

/-! ## References -/

theorem node_eq_list (t : Tree) : ∃ items, t.node = .list items := by
  cases t <;> exact ⟨_, rfl⟩

theorem length_reference_le (node : Item) : (reference node).length ≤ 33 := by
  rw [← length_encode, reference]
  split
  · omega
  · rw [length_encode_word]

/-- **References bind nodes**, as far as the digests tell apart what is hashed for them. -/
theorem encode_eq_of_reference_eq {S : Set Bytes} (hS : Set.InjOn Keccak.hash S) {a b : Item}
    (ha : ∀ x ∈ referenceHashed a, x ∈ S) (hb : ∀ x ∈ referenceHashed b, x ∈ S)
    (h : (reference a).encode = (reference b).encode) : a.encode = b.encode := by
  rw [reference, reference] at h
  rw [referenceHashed] at ha hb
  by_cases hshort : a.encode.length < 32 <;> by_cases hshort' : b.encode.length < 32
  · rwa [if_pos hshort, if_pos hshort'] at h
  · -- a node that stands for itself is shorter than any digest
    rw [if_pos hshort, if_neg hshort'] at h
    rw [h, length_encode_word] at hshort
    omega
  · rw [if_neg hshort, if_pos hshort'] at h
    rw [← h, length_encode_word] at hshort'
    omega
  · rw [if_neg hshort, if_neg hshort'] at h
    rw [if_neg hshort] at ha
    rw [if_neg hshort'] at hb
    refine hS (ha _ List.mem_cons_self) (hb _ List.mem_cons_self) (FixedBytes.bytes_injective ?_)
    exact encodeBytes_injective h

/-- What is there is not named like nothing. -/
theorem encode_reference_ne (t : Tree) : (reference t.node).encode ≠ encodeBytes [] := by
  obtain ⟨items, hitems⟩ := node_eq_list t
  rw [reference]
  split
  · rw [hitems]
    exact encode_list_ne items
  · intro h
    have hlen := length_encode_word (Keccak.hash t.node.encode)
    rw [h] at hlen
    exact absurd hlen (by decide)

/-! ## Nodes -/

/-- The items of a branch are short, so a branch is not mistaken for anything else. -/
theorem payloadLength_branch_lt (children : Nibble → Option Tree) :
    payloadLength ((List.finRange 16).map (fun i ↦ childReference (children i)) ++ [.bytes []])
      < 2 ^ 64 := by
  have hshort : ∀ a ∈ (List.finRange 16).map (fun i ↦ childReference (children i)) ++ [.bytes []],
      a.length ≤ 33 := by
    intro a ha
    rcases List.mem_append.mp ha with ha | ha
    · obtain ⟨i, -, rfl⟩ := List.mem_map.mp ha
      cases children i with
      | none => exact Nat.le_of_ble_eq_true rfl
      | some t => exact length_reference_le t.node
    · rw [List.mem_singleton.mp ha]
      exact Nat.le_of_ble_eq_true rfl
  have hle := payloadLength_le hshort
  rw [List.length_append, List.length_map, List.length_finRange, List.length_singleton] at hle
  omega

theorem encode_pair_ne_branch (a b : Item) (children : Nibble → Option Tree) :
    (Item.list [a, b]).encode ≠ (Tree.branch children).node.encode := by
  intro h
  have hmap := map_encode_eq_of_encode_list_eq (payloadLength_branch_lt children) h
  have hlen := congrArg List.length hmap
  simp at hlen

/-- Leaves and extensions are told apart by the flag of their paths, which can be read again. -/
theorem pair_inj {l l' : Bool} {p q : List Nibble} {a b : Item} (hp : p.length < 2 ^ 64)
    (hq : q.length < 2 ^ 64)
    (h : (Item.list [.bytes (Nibble.hexPrefix l p), a]).encode
      = (Item.list [.bytes (Nibble.hexPrefix l' q), b]).encode) :
    l = l' ∧ p = q ∧ a.encode = b.encode := by
  have hall := encodeAll_eq_of_encode_list_eq h
  simp only [encodeAll, List.append_nil] at hall
  have hp' := Nibble.two_mul_length_hexPrefix_le l p
  have hq' := Nibble.two_mul_length_hexPrefix_le l' q
  obtain ⟨hpath, hrest⟩ := encodeBytes_append_inj (b := Nibble.hexPrefix l p)
    (c := Nibble.hexPrefix l' q) (by omega) (by omega) hall
  obtain ⟨hl, hpq⟩ := Nibble.hexPrefix_inj (encodeBytes_injective hpath)
  exact ⟨hl, hpq, hrest⟩

theorem childReference_eq_of_node_eq {c c' : Nibble → Option Tree}
    (h : (Tree.branch c).node.encode = (Tree.branch c').node.encode) (i : Nibble) :
    (childReference (c i)).encode = (childReference (c' i)).encode := by
  have hmap := map_encode_eq_of_encode_list_eq (payloadLength_branch_lt c') h
  rw [List.map_append, List.map_append, List.map_map, List.map_map] at hmap
  have hrow := (List.append_inj hmap (by simp)).1
  exact List.map_inj_left.mp hrow i (List.mem_finRange i)

/-! ## Trees -/

theorem eq_of_childReference_eq {S : Set Bytes} (hS : Set.InjOn Keccak.hash S) {t u : Option Tree}
    (hts : ∀ b ∈ childHashed t, b ∈ S) (hus : ∀ b ∈ childHashed u, b ∈ S)
    (h : (childReference t).encode = (childReference u).encode)
    (ih : ∀ t' u', t = some t' → u = some u' → (∀ b ∈ t'.hashedBelow, b ∈ S) →
      (∀ b ∈ u'.hashedBelow, b ∈ S) → t'.node.encode = u'.node.encode → t' = u') : t = u := by
  match t, u with
  | none, none => rfl
  | none, some u => exact absurd h.symm (encode_reference_ne u)
  | some t, none => exact absurd h (encode_reference_ne t)
  | some t, some u =>
    have hnode := encode_eq_of_reference_eq hS (fun b hb ↦ hts b (List.mem_append_left _ hb))
      (fun b hb ↦ hus b (List.mem_append_left _ hb)) h
    exact congrArg some (ih t u rfl rfl (fun b hb ↦ hts b (List.mem_append_right _ hb))
      (fun b hb ↦ hus b (List.mem_append_right _ hb)) hnode)

/-- **Nodes bind trees**, as far as the digests tell apart what is hashed below them. -/
theorem eq_of_node_eq {S : Set Bytes} (hS : Set.InjOn Keccak.hash S) {d e : Nat} {t u : Tree}
    (ht : t.HasDepth d) (hu : u.HasDepth e) (hd : d < 2 ^ 64) (he : e < 2 ^ 64)
    (hts : ∀ b ∈ t.hashedBelow, b ∈ S) (hus : ∀ b ∈ u.hashedBelow, b ∈ S)
    (h : t.node.encode = u.node.encode) : t = u := by
  -- on the first tree; the second is taken apart beside it, and unlike nodes are ruled out
  induction ht generalizing u e with
  | leaf p v =>
    cases hu with
    | leaf q w =>
      obtain ⟨-, rfl, hvw⟩ := pair_inj hd he h
      rw [encodeBytes_injective hvw]
    | extension q hu =>
      obtain ⟨hflag, -⟩ := pair_inj hd (by omega) h
      simp at hflag
    | branch hu => exact absurd h (encode_pair_ne_branch _ _ _)
  | @extension n t p ht ih =>
    cases hu with
    | leaf q w =>
      obtain ⟨hflag, -⟩ := pair_inj (by omega) he h
      simp at hflag
    | @extension m u q hu =>
      obtain ⟨-, rfl, href⟩ := pair_inj (by omega) (by omega) h
      have hnode := encode_eq_of_reference_eq hS (fun b hb ↦ hts b (List.mem_append_left _ hb))
        (fun b hb ↦ hus b (List.mem_append_left _ hb)) href
      rw [ih hu (by omega) (by omega) (fun b hb ↦ hts b (List.mem_append_right _ hb))
        (fun b hb ↦ hus b (List.mem_append_right _ hb)) hnode]
    | branch hu => exact absurd h (encode_pair_ne_branch _ _ _)
  | @branch n children ht ih =>
    cases hu with
    | leaf q w => exact absurd h.symm (encode_pair_ne_branch _ _ _)
    | extension q hu => exact absurd h.symm (encode_pair_ne_branch _ _ _)
    | @branch m children' hu =>
      refine congrArg Tree.branch (funext fun i ↦ ?_)
      refine eq_of_childReference_eq hS (fun b hb ↦ hts b (mem_hashedBelow_branch hb))
        (fun b hb ↦ hus b (mem_hashedBelow_branch hb)) (childReference_eq_of_node_eq h i) ?_
      intro t u hi hi' hts' hus' hnode
      exact ih i t hi (hu i u hi') (by omega) (by omega) hts' hus' hnode

/-- What is hashed on the way to the digest of a tree. -/
def Tree.hashed (t : Tree) : List Bytes := t.node.encode :: t.hashedBelow

/-- What is hashed on the way to the digest of a tree that may not be there. -/
def hashed? : Option Tree → List Bytes
  | none => [encodeBytes []]
  | some t => t.hashed

theorem emptyDigest_eq :
    emptyDigest = ⟨[0x56, 0xe8, 0x1f, 0x17, 0x1b, 0xcc, 0x55, 0xa6, 0xff, 0x83, 0x45, 0xe6, 0x92,
      0xc0, 0xf8, 0x6e, 0x5b, 0x48, 0xe0, 0x1b, 0x99, 0x6c, 0xad, 0xc0, 0x01, 0x62, 0x2f, 0xb5,
      0xe3, 0x63, 0xb4, 0x21], rfl⟩ := by
  rw [emptyDigest, Keccak.Grid.hash_eq]
  decide +kernel

/-- **Digests bind trees**, as far as they tell apart what is hashed on the way to them. -/
theorem eq_of_digest_eq {S : Set Bytes} (hS : Set.InjOn Keccak.hash S) {d e : Nat}
    {t u : Option Tree} (ht : ∀ t', t = some t' → t'.HasDepth d)
    (hu : ∀ u', u = some u' → u'.HasDepth e) (hd : d < 2 ^ 64) (he : e < 2 ^ 64)
    (hts : ∀ b ∈ hashed? t, b ∈ S) (hus : ∀ b ∈ hashed? u, b ∈ S)
    (h : (t.map Tree.digest).getD emptyDigest = (u.map Tree.digest).getD emptyDigest) :
    t = u := by
  match t, u with
  | none, none => rfl
  | none, some u =>
    obtain ⟨items, hitems⟩ := node_eq_list u
    have henc := hS (hts _ List.mem_cons_self) (hus _ List.mem_cons_self) h
    exact absurd (hitems ▸ henc.symm) (encode_list_ne items)
  | some t, none =>
    obtain ⟨items, hitems⟩ := node_eq_list t
    have henc := hS (hts _ List.mem_cons_self) (hus _ List.mem_cons_self) h
    exact absurd (hitems ▸ henc) (encode_list_ne items)
  | some t, some u =>
    have henc := hS (hts _ List.mem_cons_self) (hus _ List.mem_cons_self) h
    exact congrArg some (eq_of_node_eq hS (ht t rfl) (hu u rfl) hd he
      (fun b hb ↦ hts b (List.mem_cons_of_mem _ hb))
      (fun b hb ↦ hus b (List.mem_cons_of_mem _ hb)) henc)

end Patricia

/-! ## Tries -/

namespace Trie

/-- What is hashed on the way to the digest of a trie. -/
def hashed (t : Trie) : List Bytes := Patricia.hashed? t.tree?

theorem hashed_congr {t u : Trie} (h : t.leaves = u.leaves) : t.hashed = u.hashed := by
  rw [hashed, hashed, tree?, tree?, h]

theorem digest_of_hashed {t : Trie} {b : Bytes} {rest : List Bytes} (h : t.hashed = b :: rest) :
    t.digest = Keccak.hash b := by
  rw [hashed] at h
  rw [digest]
  cases htree : t.tree? with
  | none =>
    rw [htree] at h
    exact congrArg Keccak.hash (List.cons.inj h).1
  | some u =>
    rw [htree] at h
    exact congrArg Keccak.hash (List.cons.inj h).1

/-- **The digest binds the leaves**, as far as the digests tell apart what is hashed on the way to
it. -/
theorem leaves_eq_of_digest_eq {S : Set Bytes} (hS : Set.InjOn Keccak.hash S) {t u : Trie}
    {d e : Nat} (ht : ∀ p ∈ t.leaves, p.length = d) (hu : ∀ p ∈ u.leaves, p.length = e)
    (hd : d < 2 ^ 63) (he : e < 2 ^ 63) (hts : ∀ b ∈ t.hashed, b ∈ S)
    (hus : ∀ b ∈ u.hashed, b ∈ S) (h : t.digest = u.digest) : t.leaves = u.leaves := by
  obtain ⟨htdepth, htfind⟩ := tree?_spec ht
  obtain ⟨hudepth, hufind⟩ := tree?_spec hu
  have htree := Patricia.eq_of_digest_eq hS htdepth hudepth (by omega) (by omega) hts hus h
  refine Std.ExtTreeMap.ext_getElem? fun p ↦ Option.ext fun v ↦ ?_
  rw [← htfind p v, ← hufind p v, htree]

end Trie

end ExecState
