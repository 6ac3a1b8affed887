import ExecState.Proofs.Trie.Lookup
import Mathlib.Algebra.GroupWithZero.Nat

/-!
# The node that leaves determine

The tree of a set of leaves is grown in some order, and its node does not tell in which.
-/

namespace ExecState.Patricia

/-!
## Canonical Patricia trees

Many trees hold the same leaves. One of them has no step that could be saved: an extension is not
empty and leads to a branch, and a branch parts in at least two ways. A tree that is grown from
nothing always has this form, whatever the order in which its leaves arrive and however long their
paths are (`isCanonical_of_ofLeaves?`): a branch is made only where two paths part, and once made it
stays.
-/

/-- Whether no step of a tree could be saved. -/
inductive Tree.IsCanonical : Tree → Prop
  | leaf (p : List Nibble) (v : Bytes) : IsCanonical (.leaf p v)
  | extension {p : List Nibble} {children : Nibble → Option Tree} (hp : p ≠ [])
      (h : IsCanonical (.branch children)) : IsCanonical (.extension p (.branch children))
  | branch {children : Nibble → Option Tree} {i j : Nibble} (hij : i ≠ j)
      (hi : (children i).isSome) (hj : (children j).isSome)
      (h : ∀ n t, children n = some t → IsCanonical t) : IsCanonical (.branch children)

/-- A canonical tree is not empty. -/
theorem Tree.IsCanonical.exists_get? {t : Tree} (h : t.IsCanonical) :
    ∃ q v, t.get? q = some v := by
  induction h with
  | leaf p v => exact ⟨p, v, by rw [get?_leaf, if_pos rfl]⟩
  | @extension p children _ _ ih =>
    obtain ⟨q, v, hq⟩ := ih
    refine ⟨p ++ q, v, ?_⟩
    rw [get?_extension, if_pos (List.prefix_append p q), List.drop_left, hq]
  | @branch children i j _ hi _ _ ih =>
    obtain ⟨t, ht⟩ := Option.isSome_iff_exists.mp hi
    obtain ⟨q, v, hq⟩ := ih i t ht
    exact ⟨i :: q, v, by rw [get?_branch_cons, ht, find?_some, hq]⟩

/-! ### Growing -/

theorem isCanonical_below {children : Nibble → Option Tree} (p : List Nibble)
    (h : (Tree.branch children).IsCanonical) : (below p (.branch children)).IsCanonical := by
  cases p with
  | nil => exact h
  | cons n p => exact .extension (List.cons_ne_nil n p) h

theorem isSome_withChild {children : Nibble → Option Tree} {n i : Nibble} {t : Tree}
    (h : (children i).isSome) : (withChild children n t i).isSome := by
  rw [withChild]
  split
  · rfl
  · exact h

theorem isCanonical_fork {m n : Nibble} {s t : Tree} (hmn : m ≠ n) (hs : s.IsCanonical)
    (ht : t.IsCanonical) (c : List Nibble) : (below c (fork m s n t)).IsCanonical := by
  rw [fork, branchOf_eq]
  refine isCanonical_below c (.branch hmn ?_ ?_ fun i u hu ↦ ?_)
  · exact isSome_withChild (by simp [withChild])
  · simp [withChild]
  · rw [withChild, withChild] at hu
    split_ifs at hu
    · exact Option.some_inj.mp hu ▸ ht
    · exact Option.some_inj.mp hu ▸ hs

theorem isCanonical_ofTwo (p : List Nibble) (v : Bytes) (q : List Nibble) (w : Bytes) :
    (ofTwo p v q w).IsCanonical := by
  obtain ⟨-, -, hne⟩ := split_spec p q
  rw [ofTwo]
  split
  · rename_i c m p' n q' heq
    exact isCanonical_fork (hne m p' n q' (by rw [heq])) (.leaf p' v) (.leaf q' w) c
  · exact .leaf q w

/-- A branch stays a branch. -/
theorem exists_insert_branch (children : Nibble → Option Tree) (q : List Nibble) (w : Bytes) :
    ∃ children', (Tree.branch children).insert q w = .branch children' := by
  cases q with
  | nil => exact ⟨children, rfl⟩
  | cons n q => exact ⟨_, branchOf_eq _⟩

/-- **Growing keeps the form**, wherever the new path leads. -/
theorem isCanonical_insert {t : Tree} (h : t.IsCanonical) (q : List Nibble) (w : Bytes) :
    (t.insert q w).IsCanonical := by
  induction h generalizing q with
  | leaf p v => exact isCanonical_ofTwo p v q w
  | @extension p children hp h ih =>
    obtain ⟨-, -, hne⟩ := split_spec p q
    rw [Tree.insert]
    split
    · rename_i c m p' n q' heq
      exact isCanonical_fork (hne m p' n q' (by rw [heq])) (isCanonical_below p' h) (.leaf q' w) c
    · rename_i q' _ _
      obtain ⟨children', hchildren⟩ := exists_insert_branch children q' w
      have hinsert := ih q'
      rw [hchildren] at hinsert ⊢
      exact .extension hp hinsert
  | @branch children i j hij hi hj h ih =>
    cases q with
    | nil => exact .branch hij hi hj h
    | cons n q =>
      rw [Tree.insert, branchOf_eq]
      refine .branch hij (isSome_withChild hi) (isSome_withChild hj) fun k t ht ↦ ?_
      rw [withChild] at ht
      split_ifs at ht
      · rw [← Option.some_inj.mp ht]
        cases hn : children n with
        | none => exact .leaf q w
        | some s => exact ih n s hn q
      · exact h k t ht

theorem isCanonical_of_ofLeaves? {leaves : List (List Nibble × Bytes)} {t : Tree}
    (h : ofLeaves? leaves = some t) : t.IsCanonical := by
  induction leaves using List.reverseRecOn generalizing t with
  | nil => cases h
  | append_singleton leaves leaf ih =>
    rw [ofLeaves?, List.foldl_append, ← ofLeaves?] at h
    obtain rfl := Option.some_inj.mp h
    cases hprior : ofLeaves? leaves with
    | none => exact .leaf _ _
    | some s => exact isCanonical_insert (ih hprior) _ _

end ExecState.Patricia

namespace ExecState

/-!
## The node of a set of leaves

The node at the root of a Patricia tree is defined by recursion on the set of its leaves. A single
leaf is its own node; leaves that share a stretch of their paths have an extension over the node of
what is left of them; any others have a branch over sixteen groups, told apart by the first nibble.
No leaf at all has the empty string for a node, which is also how a branch names a place where there
is nothing, so `merkleNode` needs no case for an absent child.

A tree is not grown this way. Every new leaf may cut an extension or start a branch, and the node is
read off what came out in the end. That is a canonical tree, and a canonical tree has the node of
its leaves (`node_eq_merkleNode`): the branch below an extension parts in two ways, so the stretch
that all leaves share ends where the extension does.
-/

namespace Patricia

open Rlp

/-! ### The longest common beginning -/

/-- The longest common beginning of a path and others. -/
def sharedWith : List Nibble → List (List Nibble) → List Nibble
  | [], _ => []
  | n :: p, others =>
    if ∀ q ∈ others, q.head? = some n then n :: sharedWith p (others.map List.tail) else []

def commonPrefix : List (List Nibble) → List Nibble
  | [] => []
  | p :: others => sharedWith p others

theorem prefix_sharedWith_iff {c p : List Nibble} {others : List (List Nibble)} :
    c <+: sharedWith p others ↔ c <+: p ∧ ∀ q ∈ others, c <+: q := by
  induction p generalizing c others with
  | nil =>
    rw [sharedWith]
    refine ⟨fun h ↦ ⟨h, fun q _ ↦ ?_⟩, fun h ↦ h.1⟩
    rw [List.prefix_nil.mp h]
    exact List.nil_prefix
  | cons n p ih =>
    cases c with
    | nil => simp
    | cons m c =>
      rw [sharedWith]
      split
      · rename_i hall
        rw [List.cons_prefix_cons, List.cons_prefix_cons, ih, and_assoc]
        refine and_congr_right fun hm ↦ and_congr_right fun _ ↦ ?_
        subst hm
        rw [List.forall_mem_map]
        refine forall₂_congr fun q hq ↦ ?_
        obtain ⟨q', rfl⟩ := List.head?_eq_some_iff.mp (hall q hq)
        rw [List.tail_cons, List.cons_prefix_cons, and_iff_right rfl]
      · rename_i hnot
        simp only [List.prefix_nil, reduceCtorEq, false_iff, not_and, List.cons_prefix_cons]
        rintro ⟨rfl, -⟩ hall
        refine hnot fun q hq ↦ ?_
        obtain ⟨r, rfl⟩ := hall q hq
        rfl

/-- **What `commonPrefix` is**: a path begins it exactly if it begins all of them. -/
theorem prefix_commonPrefix_iff {c : List Nibble} {paths : List (List Nibble)} (h : paths ≠ []) :
    c <+: commonPrefix paths ↔ ∀ q ∈ paths, c <+: q := by
  cases paths with
  | nil => exact absurd rfl h
  | cons p others => rw [commonPrefix, prefix_sharedWith_iff, List.forall_mem_cons]

/-! ### Nodes of leaves -/

/-- The leaves whose paths start with a nibble, without it. -/
def under (n : Nibble) (leaves : List (List Nibble × Bytes)) : List (List Nibble × Bytes) :=
  leaves.filterMap fun leaf ↦ if leaf.1.head? = some n then some (leaf.1.tail, leaf.2) else none

/-- The leaves without the beginning that they share. -/
def beyond (c : List Nibble) (leaves : List (List Nibble × Bytes)) : List (List Nibble × Bytes) :=
  leaves.map fun leaf ↦ (leaf.1.drop c.length, leaf.2)

/-- What is left to tell of leaves. -/
def mass (leaves : List (List Nibble × Bytes)) : Nat :=
  (leaves.map fun leaf ↦ leaf.1.length + 1).sum

theorem mem_under_iff {n : Nibble} {leaves : List (List Nibble × Bytes)} {p : List Nibble}
    {v : Bytes} : (p, v) ∈ under n leaves ↔ (n :: p, v) ∈ leaves := by
  rw [under, List.mem_filterMap]
  constructor
  · rintro ⟨⟨q, w⟩, hmem, heq⟩
    split_ifs at heq with hhead
    obtain ⟨r, rfl⟩ := List.head?_eq_some_iff.mp hhead
    obtain ⟨rfl, rfl⟩ := Prod.mk.inj (Option.some_inj.mp heq)
    exact hmem
  · exact fun hmem ↦ ⟨_, hmem, by simp⟩

theorem mem_beyond_iff {c : List Nibble} {leaves : List (List Nibble × Bytes)}
    (h : ∀ leaf ∈ leaves, c <+: leaf.1) {p : List Nibble} {v : Bytes} :
    (p, v) ∈ beyond c leaves ↔ (c ++ p, v) ∈ leaves := by
  rw [beyond, List.mem_map]
  constructor
  · rintro ⟨⟨q, w⟩, hmem, heq⟩
    obtain ⟨r, rfl⟩ := h _ hmem
    obtain ⟨hr, rfl⟩ := Prod.mk.inj heq
    rw [← hr, List.drop_left]
    exact hmem
  · exact fun hmem ↦ ⟨_, hmem, by rw [List.drop_left]⟩

theorem mass_under_le (n : Nibble) (leaves : List (List Nibble × Bytes)) :
    mass (under n leaves) ≤ mass leaves := by
  induction leaves with
  | nil => exact Nat.le_refl _
  | cons leaf leaves ih =>
    simp only [under, mass, List.filterMap_cons, List.map_cons, List.sum_cons] at ih ⊢
    split_ifs
    · simp only [List.map_cons, List.sum_cons, List.length_tail]
      omega
    · simp only
      omega

theorem mass_under_lt (n : Nibble) {leaves : List (List Nibble × Bytes)} (h : leaves ≠ []) :
    mass (under n leaves) < mass leaves := by
  obtain ⟨⟨p, v⟩, leaves, rfl⟩ := List.exists_cons_of_ne_nil h
  have hle := mass_under_le n leaves
  simp only [under, mass, List.filterMap_cons, List.map_cons, List.sum_cons] at hle ⊢
  split_ifs with hhead
  · obtain ⟨q, rfl⟩ := List.head?_eq_some_iff.mp hhead
    simp only [List.map_cons, List.sum_cons, List.tail_cons, List.length_cons]
    omega
  · simp only
    omega

theorem mass_beyond {c : List Nibble} {leaves : List (List Nibble × Bytes)}
    (h : ∀ leaf ∈ leaves, c <+: leaf.1) :
    mass (beyond c leaves) + leaves.length * c.length = mass leaves := by
  induction leaves with
  | nil => simp [mass, beyond]
  | cons leaf leaves ih =>
    rw [List.forall_mem_cons] at h
    have hrest := ih h.2
    have hle := h.1.length_le
    simp only [mass, beyond, List.map_cons, List.sum_cons, List.length_drop, List.length_cons,
      Nat.succ_mul] at hrest ⊢
    omega

theorem commonPrefix_isPrefix {leaves : List (List Nibble × Bytes)} :
    ∀ leaf ∈ leaves, commonPrefix (leaves.map Prod.fst) <+: leaf.1 := by
  intro leaf hleaf
  have hpath : leaf.1 ∈ leaves.map Prod.fst := List.mem_map_of_mem hleaf
  exact (prefix_commonPrefix_iff (List.ne_nil_of_mem hpath)).mp (List.prefix_refl _) _ hpath

theorem mass_beyond_lt {leaves : List (List Nibble × Bytes)} (h : leaves ≠ [])
    (hc : commonPrefix (leaves.map Prod.fst) ≠ []) :
    mass (beyond (commonPrefix (leaves.map Prod.fst)) leaves) < mass leaves := by
  have hmass := mass_beyond (@commonPrefix_isPrefix leaves)
  have hpos := Nat.mul_pos (List.length_pos_of_ne_nil h) (List.length_pos_of_ne_nil hc)
  omega

/-- The node of a set of leaves. -/
def merkleNode : (leaves : List (List Nibble × Bytes)) → Item
  | [] => .bytes []
  | [(p, v)] => .list [.bytes (Nibble.hexPrefix true p), .bytes v]
  | first :: second :: rest =>
    let leaves := first :: second :: rest
    let c := commonPrefix (leaves.map Prod.fst)
    if c = [] then
      .list ((List.finRange 16).map (fun n ↦ reference (merkleNode (under n leaves)))
        ++ [.bytes []])
    else .list [.bytes (Nibble.hexPrefix false c), reference (merkleNode (beyond c leaves))]
termination_by leaves => mass leaves
decreasing_by
  · exact mass_under_lt n (List.cons_ne_nil _ _)
  · rename_i h
    exact mass_beyond_lt (List.cons_ne_nil _ _) h

variable {leaves : List (List Nibble × Bytes)}

theorem merkleNode_of_ne {a b : List Nibble × Bytes} (ha : a ∈ leaves) (hb : b ∈ leaves)
    (hab : a ≠ b) :
    merkleNode leaves =
      if commonPrefix (leaves.map Prod.fst) = [] then
        .list ((List.finRange 16).map (fun n ↦ reference (merkleNode (under n leaves)))
          ++ [.bytes []])
      else .list [.bytes (Nibble.hexPrefix false (commonPrefix (leaves.map Prod.fst))),
        reference (merkleNode (beyond (commonPrefix (leaves.map Prod.fst)) leaves))] := by
  match leaves with
  | [] => exact absurd ha List.not_mem_nil
  | [leaf] => exact absurd ((List.mem_singleton.mp ha).trans (List.mem_singleton.mp hb).symm) hab
  | first :: second :: rest => rw [merkleNode]

theorem commonPrefix_eq {c p q : List Nibble} {i j : Nibble} {paths : List (List Nibble)}
    (h : ∀ path ∈ paths, c <+: path) (hi : c ++ i :: p ∈ paths) (hj : c ++ j :: q ∈ paths)
    (hij : i ≠ j) : commonPrefix paths = c := by
  have hne := List.ne_nil_of_mem hi
  obtain ⟨r, hr⟩ := (prefix_commonPrefix_iff hne).mpr h
  have hall := (prefix_commonPrefix_iff hne).mp (List.prefix_refl _)
  rw [← hr] at hall ⊢
  cases r with
  | nil => rw [List.append_nil]
  | cons n r =>
    have hni := hall _ hi
    have hnj := hall _ hj
    rw [List.prefix_append_right_inj, List.cons_prefix_cons] at hni hnj
    exact absurd (hni.1.symm.trans hnj.1) hij

/-! ### Trees and their leaves -/

/-- Whether leaves are those of a tree, in some order. -/
structure Lists (t : Option Tree) (leaves : List (List Nibble × Bytes)) : Prop where
  /-- No path is listed twice. -/
  apart : leaves.Pairwise fun a b ↦ a.1 ≠ b.1
  /-- What is listed is what is found. -/
  mem_iff : ∀ p v, (p, v) ∈ leaves ↔ find? t p = some v

/-- The node of a tree that may not be there. -/
def rootNode : Option Tree → Item
  | none => .bytes []
  | some t => t.node

theorem childReference_eq (t : Option Tree) : childReference t = reference (rootNode t) := by
  cases t <;> rfl

theorem Lists.eq_nil (h : Lists none leaves) : leaves = [] := by
  refine List.eq_nil_iff_forall_not_mem.mpr fun ⟨p, v⟩ hmem ↦ ?_
  cases (h.mem_iff p v).mp hmem

theorem Lists.eq_singleton {p : List Nibble} {v : Bytes} (h : Lists (some (.leaf p v)) leaves) :
    leaves = [(p, v)] := by
  have hall : ∀ leaf ∈ leaves, leaf = (p, v) := by
    rintro ⟨q, w⟩ hmem
    have hget := (h.mem_iff q w).mp hmem
    rw [find?_some, get?_leaf] at hget
    split_ifs at hget with hq
    rw [hq, Option.some_inj.mp hget]
  have hmem : (p, v) ∈ leaves := (h.mem_iff p v).mpr (by rw [find?_some, get?_leaf, if_pos rfl])
  match leaves with
  | [] => exact absurd hmem List.not_mem_nil
  | [leaf] => rw [hall leaf List.mem_cons_self]
  | first :: second :: rest =>
    have hfirst := hall first List.mem_cons_self
    have hsecond := hall second (List.mem_cons_of_mem _ List.mem_cons_self)
    have hne := List.rel_of_pairwise_cons h.apart List.mem_cons_self
    rw [hfirst, hsecond] at hne
    exact absurd rfl hne

theorem Lists.under {children : Nibble → Option Tree} (h : Lists (some (.branch children)) leaves)
    (n : Nibble) : Lists (children n) (under n leaves) where
  apart := by
    refine h.apart.filterMap _ fun a b hab a' ha' b' hb' ↦ ?_
    split_ifs at ha' with ha
    split_ifs at hb' with hb
    obtain ⟨q, hq⟩ := List.head?_eq_some_iff.mp ha
    obtain ⟨r, hr⟩ := List.head?_eq_some_iff.mp hb
    rw [hq, hr] at hab
    rw [← Option.some_inj.mp ha', ← Option.some_inj.mp hb', hq, hr]
    exact fun heq ↦ hab (congrArg (n :: ·) heq)
  mem_iff p v := by rw [mem_under_iff, h.mem_iff, find?_some, get?_branch_cons]

section Extension

variable {p : List Nibble} {t : Tree} (h : Lists (some (.extension p t)) leaves)
include h

theorem Lists.prefix_of_mem : ∀ leaf ∈ leaves, p <+: leaf.1 := by
  rintro ⟨q, v⟩ hmem
  have hget := (h.mem_iff q v).mp hmem
  rw [find?_some, get?_extension] at hget
  split_ifs at hget with hq
  exact hq

theorem Lists.beyond : Lists (some t) (beyond p leaves) where
  apart := by
    rw [Patricia.beyond, List.pairwise_map]
    refine h.apart.imp_of_mem fun {a b} ha hb hab heq ↦ hab ?_
    obtain ⟨q, hq⟩ := h.prefix_of_mem a ha
    obtain ⟨r, hr⟩ := h.prefix_of_mem b hb
    rw [← hq, ← hr, List.drop_left, List.drop_left] at heq
    have hqr : q = r := heq
    rw [← hq, ← hr, hqr]
  mem_iff q v := by
    rw [mem_beyond_iff h.prefix_of_mem, h.mem_iff, find?_some, find?_some, get?_extension,
      if_pos (List.prefix_append p q), List.drop_left]

end Extension

theorem Lists.exists_parted {children : Nibble → Option Tree}
    (h : Lists (some (.branch children)) leaves) (hc : (Tree.branch children).IsCanonical) :
    ∃ i j p q v w, i ≠ j ∧ (i :: p, v) ∈ leaves ∧ (j :: q, w) ∈ leaves := by
  cases hc with
  | @branch _ i j hij hi hj hall =>
    obtain ⟨t, ht⟩ := Option.isSome_iff_exists.mp hi
    obtain ⟨u, hu⟩ := Option.isSome_iff_exists.mp hj
    obtain ⟨p, v, hp⟩ := (hall i t ht).exists_get?
    obtain ⟨q, w, hq⟩ := (hall j u hu).exists_get?
    refine ⟨i, j, p, q, v, w, hij, (h.mem_iff _ _).mpr ?_, (h.mem_iff _ _).mpr ?_⟩
    · rw [find?_some, get?_branch_cons, ht, find?_some, hp]
    · rw [find?_some, get?_branch_cons, hu, find?_some, hq]

/-- **A canonical tree has the node of its leaves.** -/
theorem node_eq_merkleNode {t : Tree} (hc : t.IsCanonical) (h : Lists (some t) leaves) :
    t.node = merkleNode leaves := by
  induction hc generalizing leaves with
  | leaf p v =>
    rw [h.eq_singleton, merkleNode]
    rfl
  | @extension p children hp hc ih =>
    obtain ⟨i, j, q, r, v, w, hij, hi, hj⟩ := h.beyond.exists_parted hc
    rw [mem_beyond_iff h.prefix_of_mem] at hi hj
    have hshared : commonPrefix (leaves.map Prod.fst) = p :=
      commonPrefix_eq (List.forall_mem_map.mpr h.prefix_of_mem) (List.mem_map_of_mem hi)
        (List.mem_map_of_mem hj) hij
    have hne : (p ++ i :: q, v) ≠ (p ++ j :: r, w) := by simp [hij]
    rw [merkleNode_of_ne hi hj hne, hshared, if_neg hp, ← ih h.beyond]
    rfl
  | @branch children i₀ j₀ hij₀ hi₀ hj₀ hall ih =>
    obtain ⟨i, j, q, r, v, w, hij, hi, hj⟩ := h.exists_parted (.branch hij₀ hi₀ hj₀ hall)
    have hshared : commonPrefix (leaves.map Prod.fst) = [] :=
      commonPrefix_eq (c := []) (fun _ _ ↦ List.nil_prefix) (List.mem_map_of_mem hi)
        (List.mem_map_of_mem hj) hij
    have hne : (i :: q, v) ≠ (j :: r, w) := by simp [hij]
    have hnode : ∀ n, rootNode (children n) = merkleNode (Patricia.under n leaves) := by
      intro n
      have hunder := h.under n
      cases hn : children n with
      | none =>
        rw [hn] at hunder
        rw [hunder.eq_nil, merkleNode]
        rfl
      | some s =>
        rw [hn] at hunder
        exact ih n s hn hunder
    rw [merkleNode_of_ne hi hj hne, if_pos hshared]
    show Item.list ((List.finRange 16).map (fun n ↦ childReference (children n)) ++ [.bytes []]) = _
    simp only [childReference_eq, hnode]

end Patricia

end ExecState
