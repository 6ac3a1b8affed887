import ExecState.Basic
import ExecState.Hash.Keccak
import ExecState.Rlp.Item
import Std.Data.ExtTreeMap

/-!
# Hexary tries

From the halves of a byte to the digest of all leaves: nibbles, the tree that is grown from paths
of nibbles, and the map of byte strings around it.
-/

namespace ExecState

/-!
## Nibbles

A nibble is half a byte. A key is walked through a trie nibble by nibble, the higher half of each
byte first. Where a stretch of such a walk is written down, it is packed into bytes again; the
hex prefix in front of it completes an odd number of nibbles and tells whether the walk ends
there.
-/

/-- Half a byte. -/
abbrev Nibble := Fin 16

namespace Nibble

def high (b : UInt8) : Nibble := ⟨b.toNat / 16, by have := b.toNat_lt; omega⟩

def low (b : UInt8) : Nibble := ⟨b.toNat % 16, by omega⟩

/-- The byte of two halves. -/
def join (h l : Nibble) : UInt8 := UInt8.ofNat (h.val * 16 + l.val)

def unpack (b : Bytes) : List Nibble := b.flatMap fun x ↦ [high x, low x]

/-- The byte string of an even number of nibbles; one that is left over is dropped. -/
def pack : List Nibble → Bytes
  | h :: l :: rest => join h l :: pack rest
  | _ => []

theorem join_high_low (b : UInt8) : join (high b) (low b) = b := by
  have hval : b.toNat / 16 * 16 + b.toNat % 16 = b.toNat := by omega
  simp only [join, high, low, hval, UInt8.ofNat_toNat]

theorem pack_unpack (b : Bytes) : pack (unpack b) = b := by
  induction b with
  | nil => rfl
  | cons x rest ih =>
    rw [unpack, List.flatMap_cons, ← unpack]
    simp [pack, join_high_low, ih]

@[simp] theorem length_unpack (b : Bytes) : (unpack b).length = 2 * b.length := by
  induction b with
  | nil => rfl
  | cons x rest ih =>
    rw [unpack, List.flatMap_cons, ← unpack]
    simp [ih]
    omega

/-! ### Hex prefix -/

/-- The nibbles in front of a path: a flag that is raised by two where the path ends in a leaf
and by one where it is odd, and a zero that fills up an even path. -/
def pathHeader (isLeaf : Bool) (path : List Nibble) : List Nibble :=
  let flag : Nibble := if isLeaf then 2 else 0
  if path.length % 2 = 1 then [flag + 1] else [flag, 0]

/-- A path as bytes, told apart by whether it ends in a leaf. -/
def hexPrefix (isLeaf : Bool) (path : List Nibble) : Bytes := pack (pathHeader isLeaf path ++ path)

end Nibble

end ExecState

namespace ExecState.Patricia

/-!
## Patricia trees

A Patricia tree holds values under paths of nibbles, none of which is the beginning of another.
A leaf holds the rest of its path, an extension a stretch that all paths below it share, and a
branch tells paths apart by their next nibble.

The tree is grown leaf by leaf. Its digest is that of its root node; a node names the nodes below
it by their digests, or contains them where they are shorter than a digest.
-/

/-- A tree with at least one leaf. -/
inductive Tree
  | leaf (path : List Nibble) (value : Bytes)
  | extension (path : List Nibble) (child : Tree)
  | branch (children : Nibble → Option Tree)

/-! ### Growing -/

/-- The branch with the given children, which are worked out beforehand. -/
def branchOf (children : Nibble → Option Tree) : Tree :=
  let row := Vector.ofFn children
  .branch fun n ↦ row[n]

theorem branchOf_eq (children : Nibble → Option Tree) : branchOf children = .branch children := by
  simp [branchOf]

/-- Children with another one at a nibble. -/
def withChild (children : Nibble → Option Tree) (n : Nibble) (t : Tree) (i : Nibble) :
    Option Tree :=
  if i = n then some t else children i

/-- A tree below a path, which may be empty. -/
def below (path : List Nibble) (t : Tree) : Tree :=
  if path.isEmpty then t else .extension path t

def fork (m : Nibble) (s : Tree) (n : Nibble) (t : Tree) : Tree :=
  branchOf (withChild (withChild (fun _ ↦ none) m s) n t)

/-- The longest common beginning of two paths, and what follows it in each. -/
def split : List Nibble → List Nibble → List Nibble × List Nibble × List Nibble
  | m :: p, n :: q =>
    if m = n then
      let (common, p', q') := split p q
      (m :: common, p', q')
    else ([], m :: p, n :: q)
  | p, q => ([], p, q)

/-- The tree of two leaves; where one path is the beginning of the other, the second leaf
replaces the first. -/
def ofTwo (p : List Nibble) (v : Bytes) (q : List Nibble) (w : Bytes) : Tree :=
  match split p q with
  | (common, m :: p', n :: q') => below common (fork m (.leaf p' v) n (.leaf q' w))
  | _ => .leaf q w

mutual
def Tree.insert (q : List Nibble) (w : Bytes) (t : Tree) : Tree :=
  match t with
  | .leaf p v => ofTwo p v q w
  | .extension p t =>
    match split p q with
    | (common, m :: p', n :: q') => below common (fork m (below p' t) n (.leaf q' w))
    | (_, _, q') => .extension p (t.insert q' w)
  | .branch children =>
    match q with
    | [] => .branch children
    | n :: q' => branchOf (withChild children n (grow q' w (children n)))
termination_by structural t

/-- The tree with a value put under a path, where there may be none yet. -/
def grow (q : List Nibble) (w : Bytes) (t : Option Tree) : Tree :=
  match t with
  | none => .leaf q w
  | some t => t.insert q w
termination_by structural t
end

/-- The tree of a row of leaves, the first put in first. -/
def ofLeaves? (leaves : List (List Nibble × Bytes)) : Option Tree :=
  leaves.foldl (fun t leaf ↦ some (grow leaf.1 leaf.2 t)) none

/-! ### Digests -/

/-- How a node is named by the node above it. -/
def reference (node : Rlp.Item) : Rlp.Item :=
  let encoding := node.encode
  if encoding.length < 32 then node else .word (Keccak.hash encoding)

mutual
def Tree.node (t : Tree) : Rlp.Item :=
  match t with
  | .leaf path value => .list [.bytes (Nibble.hexPrefix true path), .bytes value]
  | .extension path t => .list [.bytes (Nibble.hexPrefix false path), reference t.node]
  | .branch children =>
    .list ((List.finRange 16).map (fun i ↦ childReference (children i)) ++ [.bytes []])
termination_by structural t

/-- How a branch names what is below it, which may be nothing. -/
def childReference (t : Option Tree) : Rlp.Item :=
  match t with
  | none => .bytes []
  | some t => reference t.node
termination_by structural t
end

def Tree.digest (t : Tree) : Word := Keccak.hash t.node.encode

/-- The digest that stands for no tree: that of the empty string's encoding. -/
def emptyDigest : Word := Keccak.hash (Rlp.encodeBytes [])

end ExecState.Patricia

namespace ExecState

/-!
## Tries

A trie is a finite map from byte strings to values with one digest for all of its contents, the
root. The values are kept by path; the path of a key is the key itself or, in a secure trie, its
digest. All paths of a trie have one length. The root is computed from scratch whenever it is
asked for, so it depends on nothing but the leaves.

Beside its leaves a trie keeps a store of byte strings by digest, which has no part in the root.
-/

/-- Why a trie refuses a key. -/
inductive TrieError
  /-- The path is not as long as those in the trie. -/
  | keyLength (length expected : Nat)
deriving DecidableEq

def TrieError.detail : TrieError → String
  | .keyLength length expected =>
    "key of " ++ Nat.repr length ++ " bytes in a trie of " ++ Nat.repr expected ++ "-byte keys"

def TrieError.message (e : TrieError) : String := "trie error: " ++ e.detail

/-- A finite map with a root. -/
structure Trie where
  /-- The values, by path. -/
  leaves : Std.ExtTreeMap Bytes Bytes
  /-- Byte strings by digest. -/
  store : Std.ExtTreeMap Word Bytes
  /-- Whether keys are hashed. -/
  secure : Bool
deriving DecidableEq

namespace Trie

/-- The trie without leaves, whose keys are hashed or not. -/
def empty (secure : Bool) : Trie := ⟨∅, ∅, secure⟩

def path (t : Trie) (key : Bytes) : Bytes := if t.secure then (Keccak.hash key).bytes else key

def size (t : Trie) : Nat := t.leaves.size

def get? (t : Trie) (key : Bytes) : Option Bytes := t.leaves[t.path key]?

/-- The length that a path has to have, if there is a leaf already. -/
def pathLength? (t : Trie) : Option Nat := t.leaves.minKey?.map List.length

/-- The trie with a value under a path; the empty value takes the leaf away. -/
def setLeaf (t : Trie) (path value : Bytes) : Trie :=
  { t with leaves := if value.isEmpty then t.leaves.erase path else t.leaves.insert path value }

/-- Puts a value under a key. The empty value takes the key away. -/
def put (t : Trie) (key value : Bytes) : Outcome TrieError Unit Trie :=
  let path := t.path key
  match t.pathLength? with
  | some expected =>
    if path.length = expected then .done () (t.setLeaf path value)
    else .failed (.keyLength path.length expected) t
  | none => .done () (t.setLeaf path value)

/-- Puts values under keys one after the other, until one is refused. -/
def putAll (t : Trie) : List (Bytes × Bytes) → Outcome TrieError Unit Trie
  | [] => .done () t
  | (key, value) :: rest =>
    match t.put key value with
    | (.ok (), t') => t'.putAll rest
    | (.error e, t') => .failed e t'

def putRaw (t : Trie) (key : Word) (value : Bytes) : Trie :=
  { t with store := t.store.insert key value }

/-- The byte string that the store has under a digest. -/
def getRaw? (t : Trie) (key : Word) : Option Bytes := t.store[key]?

def clear (t : Trie) : Trie := { t with leaves := ∅ }

/-- The tree of the leaves, put in by ascending path. -/
def tree? (t : Trie) : Option Patricia.Tree :=
  Patricia.ofLeaves? (t.leaves.toList.map fun leaf ↦ (Nibble.unpack leaf.1, leaf.2))

def digest (t : Trie) : Word := (t.tree?.map Patricia.Tree.digest).getD Patricia.emptyDigest

/-- The root, which is the digest of the leaves. A trie whose only leaf has the empty path has
none. -/
def root? (t : Trie) : Option Word := if t.pathLength? = some 0 then none else some t.digest

theorem get?_setLeaf (t : Trie) (path value p : Bytes) :
    (t.setLeaf path value).leaves[p]? =
      if path = p then (if value.isEmpty then none else some value) else t.leaves[p]? := by
  rw [setLeaf]
  by_cases h : value.isEmpty <;>
    simp [h, Std.ExtTreeMap.getElem?_erase, Std.ExtTreeMap.getElem?_insert]

end Trie

end ExecState
