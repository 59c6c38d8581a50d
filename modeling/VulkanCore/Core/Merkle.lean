import VulkanCore.Common.Memory
import VulkanCore.Common.Crypto
import Mathlib.Data.List.OfFn

/-!
# The Merkle engine

`merkle.c` builds the tree over an array of leaf hashes in place. `nodes` holds one slot per
leaf hash, copied from the buffer of hashes at the byte offset `i * HASH_SIZE`, a `uint32_t`
product: from `2 ^ 27` hashes on it wraps, and leaf `i` gets hash `i mod 2 ^ 27`
(`leafHashes`); each call of `collapse_merkle_nodes` pairs up the live slots `[0, num_of_nodes)`
into a fresh array `temp_nodes` of `num_of_nodes` slots, pairing the last node with itself when
the count is odd, and copies the parents back to the front of `nodes`. The loops are kept as
the C code runs them: the pairing loop steps `i` by two below `num_of_nodes - 1` (a `uint32_t`
difference), and every array access goes through `readLive` or `writeLive`, so an access
outside the live slots shows as a fault. The hash of an inner node is a parameter `combine`:
in the core it is `sha256d` of the two child hashes' 64 bytes (`Crypto.merkleNodeHash`).
-/

namespace VulkanCore

/-- `merkle_node_t`: a leaf has null children; an inner node holds both of its children. -/
inductive MerkleNode (Hash : Type) where
  /-- A node made by `construct_merkle_leaves_from_hashes`. -/
  | leaf (hash : Hash)
  /-- A node made by `construct_merkle_node`. -/
  | node (hash : Hash) (left right : MerkleNode Hash)
deriving DecidableEq

/-- The `hash` field of a node. -/
def MerkleNode.hash {Hash : Type} : MerkleNode Hash → Hash
  | leaf hash => hash
  | node hash _ _ => hash

/-- `merkle_tree_t`. -/
structure MerkleTree (Hash : Type) where
  /-- The root node. -/
  root : MerkleNode Hash

section Engine

variable {Hash : Type} (combine : Hash → Hash → Hash)

/-- `construct_merkle_node`: a parent holding both children and the hash of their hashes. -/
def constructMerkleNode (left right : MerkleNode Hash) : MerkleNode Hash :=
  .node (combine left.hash right.hash) left right

/-- A built node's hash combines its children's hashes. -/
@[simp] theorem constructMerkleNode_hash (left right : MerkleNode Hash) :
    (constructMerkleNode combine left right).hash = combine left.hash right.hash := rfl

/-- The index of the hash that `memcpy(node->hash, &hashes[i * HASH_SIZE], HASH_SIZE)` copies:
the byte offset is a multiple of `HASH_SIZE` that wraps at `2 ^ 32`, so it is `i mod 2 ^ 27`. -/
theorem leafIndex_eq (i : Nat) : i * hashSize % 2 ^ 32 / hashSize = i % 2 ^ 27 := by
  rw [hashSize, Nat.mul_comm, show 2 ^ 32 = 32 * 2 ^ 27 by norm_num, Nat.mul_mod_mul_left,
    Nat.mul_div_cancel_left _ (by norm_num)]

/-- The hash copied into leaf `i` lies in the buffer. -/
theorem leafIndex_lt {n : Nat} (i : Fin n) : i * hashSize % 2 ^ 32 / hashSize < n := by
  rw [leafIndex_eq]
  exact lt_of_le_of_lt (Nat.mod_le _ _) i.isLt

/-- The hashes `construct_merkle_leaves_from_hashes` copies into its leaves, in order: leaf `i`
reads the buffer at the `uint32_t` byte offset `i * HASH_SIZE`, which is whole hash
`(i * HASH_SIZE) % 2 ^ 32 / HASH_SIZE` of the buffer. -/
def leafHashes (hashes : List Hash) : List Hash :=
  List.ofFn fun i : Fin hashes.length => hashes.get ⟨i * hashSize % 2 ^ 32 / hashSize, leafIndex_lt i⟩

/-- There is one leaf per hash. -/
@[simp] theorem length_leafHashes (hashes : List Hash) : (leafHashes hashes).length = hashes.length :=
  List.length_ofFn _

/-- Leaf `i` holds hash `i mod 2 ^ 27`. -/
theorem getElem?_leafHashes (hashes : List Hash) {i : Nat} (below : i < hashes.length) :
    (leafHashes hashes)[i]? = hashes[i % 2 ^ 27]? := by
  rw [List.getElem?_eq_getElem (by simpa using below), List.getElem?_eq_getElem
    (lt_of_le_of_lt (Nat.mod_le _ _) below)]
  simp only [leafHashes, List.getElem_ofFn, List.get_eq_getElem, leafIndex_eq, Option.some.injEq]

/-- Up to `2 ^ 27` hashes the offsets do not wrap: leaf `i` holds hash `i`. -/
theorem leafHashes_of_length_le (hashes : List Hash) (bounded : hashes.length ≤ 2 ^ 27) :
    leafHashes hashes = hashes := by
  refine List.ext_getElem? fun i => ?_
  by_cases below : i < hashes.length
  · rw [getElem?_leafHashes hashes below, Nat.mod_eq_of_lt (by omega)]
  · rw [List.getElem?_eq_none (by simpa using not_lt.mp below),
      List.getElem?_eq_none (not_lt.mp below)]

/-- Two buffers of one length whose first `2 ^ 27` hashes agree give the same leaves. -/
theorem leafHashes_congr {first second : List Hash} (sameLength : first.length = second.length)
    (agree : ∀ i < 2 ^ 27, first[i]? = second[i]?) : leafHashes first = leafHashes second := by
  refine List.ext_getElem? fun i => ?_
  by_cases below : i < first.length
  · rw [getElem?_leafHashes first below, getElem?_leafHashes second (sameLength ▸ below),
      agree _ (Nat.mod_lt _ (by norm_num))]
  · rw [List.getElem?_eq_none (by simpa using not_lt.mp below),
      List.getElem?_eq_none (by simpa [sameLength] using not_lt.mp below)]

/-- `construct_merkle_leaves_from_hashes`: the `nodes` array of one leaf per copied hash, and the
count it stores in `num_of_nodes`. -/
def constructMerkleLeavesFromHashes (hashes : List Hash) : List (MerkleNode Hash) × Nat :=
  ((leafHashes hashes).map .leaf, hashes.length)

/-- `*num_of_nodes - 1` as `uint32_t` arithmetic computes it: zero wraps to `2 ^ 32 - 1`. -/
def uint32Pred (n : Nat) : Nat := if n = 0 then 4294967295 else n - 1

/-- The pairing loop of `collapse_merkle_nodes`: for `i = 0, 2, 4, …` below
`num_of_nodes - 1`, `temp_nodes[current_node_idx++] = construct_merkle_node(nodes[i],
nodes[i + 1])`. -/
def collapsePairs (nodes : List (MerkleNode Hash)) (num : Nat)
    (temp : List (Option (MerkleNode Hash))) (current i : Nat) :
    Except Fault (List (Option (MerkleNode Hash)) × Nat) :=
  if i < uint32Pred num then do
    let left ← readLive nodes num i
    let right ← readLive nodes num (i + 1)
    let temp ← writeLive temp num current (some (constructMerkleNode combine left right))
    collapsePairs nodes num temp (current + 1) (i + 2)
  else .ok (temp, current)
termination_by uint32Pred num - i

/-- The copy-back loop of `collapse_merkle_nodes`: `nodes[i] = temp_nodes[i]` for every `i`
below `current_node_idx`; reading a slot of `temp_nodes` that was never written is a fault. -/
def copyBack (temp : List (Option (MerkleNode Hash))) (num current : Nat)
    (nodes : List (MerkleNode Hash)) : Except Fault (List (MerkleNode Hash)) :=
  (List.range current).foldlM (fun nodes i => do
    let written ← readLive temp num i
    let parent ← written.elim (.error .outOfBounds) .ok
    writeLive nodes num i parent) nodes

/-- `collapse_merkle_nodes`: the parents of the live nodes, in front of `nodes`, and their
count. -/
def collapseMerkleNodes (nodes : List (MerkleNode Hash)) (num : Nat) :
    Except Fault (List (MerkleNode Hash) × Nat) := do
  let (temp, current) ← collapsePairs combine nodes num (List.replicate num none) 0 0
  let (temp, current) ←
    if num % 2 ≠ 0 then do
      let last ← readLive nodes num (num - 1)
      let temp ← writeLive temp num current (some (constructMerkleNode combine last last))
      pure (temp, current + 1)
    else pure (temp, current)
  let nodes ← copyBack temp num current nodes
  pure (nodes, current)

/-- `while (num_of_nodes > 1) collapse_merkle_nodes(nodes, &num_of_nodes)`, run for at most
`rounds` rounds. -/
def collapseWhile : Nat → List (MerkleNode Hash) → Nat →
    Except Fault (List (MerkleNode Hash) × Nat)
  | 0, nodes, num => .ok (nodes, num)
  | rounds + 1, nodes, num =>
    if 1 < num then do
      let (nodes, num) ← collapseMerkleNodes combine nodes num
      collapseWhile rounds nodes num
    else .ok (nodes, num)

/-- `construct_merkle_tree_from_leaves`: no tree for no hashes; otherwise collapse the leaves
to one node, the root. The `while` loop gets `num_of_hashes` rounds, which always suffice
(`length_climb_length`). -/
def constructMerkleTreeFromLeaves (hashes : List Hash) :
    Except Fault (Option (MerkleTree Hash)) :=
  if hashes.length < 1 then .ok none
  else do
    let (nodes, num) := constructMerkleLeavesFromHashes hashes
    let (nodes, num) ← collapseWhile combine hashes.length nodes num
    let root ← readLive nodes num 0
    pure (some ⟨root⟩)

end Engine

end VulkanCore
