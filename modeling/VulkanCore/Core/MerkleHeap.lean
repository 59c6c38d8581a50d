import VulkanCore.Core.Merkle

/-!
# The Merkle engine on the heap

`merkle.c` at the level of pointers. Every `merkle_node_t` is a `malloc`: the heap is the list of
nodes allocated so far, a node's address is its place in that list, and a pointer is an address
(`none` is `NULL`). `free` empties a node's slot; reading or freeing an empty slot, or an address
never allocated, is undefined behaviour and shows as `none`.

`construct_merkle_node` allocates a parent holding its children's addresses, and the odd last node
of a level becomes both children of one parent, so the heap is a graph with shared nodes.
`free_merkle_node` walks it in postorder and frees a node whose two children are one pointer once.
`compute_merkle_root` builds a tree, copies its root's hash out and frees it, once per block it
validates. The array moves of `collapse_merkle_nodes` (`temp_nodes`, the copy back) are those of
the value model in `VulkanCore.Core.Merkle`, which leaves the parents of the live nodes in order
in front of `nodes` (`collapseMerkleNodes_run`); here a round is the allocations it makes, in the
order it makes them, over the live addresses. The `combined_hash` and `node_hash` buffers of
`construct_merkle_node`, and the `nodes` and `temp_nodes` arrays, are freed where they are made
and hold no node, so they are not on this heap.
-/

namespace VulkanCore

/-- `merkle_node_t` as stored: its hash and its `left` and `right` pointers. -/
structure HeapNode (Hash : Type) where
  /-- `hash`. -/
  hash : Hash
  /-- `left`, `none` for `NULL`. -/
  left : Option Nat
  /-- `right`, `none` for `NULL`. -/
  right : Option Nat
deriving DecidableEq

namespace MerkleHeap

variable {Hash : Type}

/-- `malloc` of a node: it takes the next address. -/
def allocNode (heap : List (Option (HeapNode Hash))) (node : HeapNode Hash) :
    List (Option (HeapNode Hash)) × Nat :=
  (heap ++ [some node], heap.length)

/-- A write to the fields of the live node at `addr`. -/
def writeNode (heap : List (Option (HeapNode Hash))) (addr : Nat)
    (update : HeapNode Hash → HeapNode Hash) : Option (List (Option (HeapNode Hash))) := do
  let node ← slot heap addr
  pure (heap.set addr (some (update node)))

/-- `free` of the live node at `addr`. -/
def releaseNode (heap : List (Option (HeapNode Hash))) (addr : Nat) :
    Option (List (Option (HeapNode Hash))) := do
  let _ ← slot heap addr
  pure (heap.set addr none)

/-- A node with null children for each hash, in order, each a new allocation; their addresses. -/
def allocLeaves : List (Option (HeapNode Hash)) → List Hash → List (Option (HeapNode Hash)) × List Nat
  | heap, [] => (heap, [])
  | heap, hash :: rest =>
    let (heap, leaf) := allocNode heap ⟨hash, none, none⟩
    let (heap, leaves) := allocLeaves heap rest
    (heap, leaf :: leaves)

/-- `construct_merkle_leaves_from_hashes`: for each `i` below `num_of_hashes`, in order, a node
with null children holding the hash copied from the `uint32_t` offset `i * HASH_SIZE`
(`leafHashes`); the addresses stored in `nodes`. -/
def constructMerkleLeavesFromHashes (heap : List (Option (HeapNode Hash))) (hashes : List Hash) :
    List (Option (HeapNode Hash)) × List Nat :=
  allocLeaves heap (leafHashes hashes)

section Engine

variable (combine : Hash → Hash → Hash)

/-- `construct_merkle_node`: read the two children's hashes, then allocate the parent, holding
the hash of their hashes and pointing at both. -/
def constructMerkleNode (heap : List (Option (HeapNode Hash))) (left right : Nat) :
    Option (List (Option (HeapNode Hash)) × Nat) := do
  let leftNode ← slot heap left
  let rightNode ← slot heap right
  pure (allocNode heap ⟨combine leftNode.hash rightNode.hash, some left, some right⟩)

/-- The allocations of one `collapse_merkle_nodes` over the live addresses: a parent for each
pair `nodes[i], nodes[i + 1]` in order, then, when the count is odd, one for
`nodes[num_of_nodes - 1]` with itself. The new live addresses are the parents. -/
def collapseMerkleNodes : List (Option (HeapNode Hash)) → List Nat →
    Option (List (Option (HeapNode Hash)) × List Nat)
  | heap, [] => pure (heap, [])
  | heap, [last] => do
    let (heap, parent) ← constructMerkleNode combine heap last last
    pure (heap, [parent])
  | heap, left :: right :: rest => do
    let (heap, parent) ← constructMerkleNode combine heap left right
    let (heap, parents) ← collapseMerkleNodes heap rest
    pure (heap, parent :: parents)

/-- `while (num_of_nodes > 1) collapse_merkle_nodes(nodes, &num_of_nodes)`, run for at most
`rounds` rounds. -/
def collapseWhile : Nat → List (Option (HeapNode Hash)) → List Nat →
    Option (List (Option (HeapNode Hash)) × List Nat)
  | 0, heap, level => pure (heap, level)
  | rounds + 1, heap, level =>
    if 1 < level.length then do
      let (heap, level) ← collapseMerkleNodes combine heap level
      collapseWhile rounds heap level
    else pure (heap, level)

/-- `construct_merkle_tree_from_leaves`: no tree for no hashes; otherwise the leaves, the
`while` loop for `num_of_hashes` rounds (`length_climb_length`), and `tree->root = nodes[0]`.
The heap after, and the root's address. -/
def constructMerkleTreeFromLeaves (heap : List (Option (HeapNode Hash))) (hashes : List Hash) :
    Option (List (Option (HeapNode Hash)) × Option Nat) :=
  if hashes.length < 1 then pure (heap, none)
  else do
    let (heap, leaves) := constructMerkleLeavesFromHashes heap hashes
    let (heap, level) ← collapseWhile combine hashes.length heap leaves
    let root ← level.head?
    pure (heap, some root)

end Engine

/-- `compare_merkle_node`: `compare_hash` of the hashes of the two live nodes. -/
def compareMerkleNode [DecidableEq Hash] (heap : List (Option (HeapNode Hash))) (node other : Nat) :
    Option Bool := do
  let node ← slot heap node
  let other ← slot heap other
  pure (node.hash == other.hash)

/-- The `else` branch of `free_merkle_node`, with `free` for the recursive call: free the left
subtree and clear `node->left`, then read `node->right`, free that subtree and clear it. -/
def freeChildren
    (free : List (Option (HeapNode Hash)) → Nat → Option (List (Option (HeapNode Hash))))
    (heap : List (Option (HeapNode Hash))) (addr : Nat) :
    Option (List (Option (HeapNode Hash))) := do
  let node ← slot heap addr
  let heap ← match node.left with
    | some left => do
      let heap ← free heap left
      writeNode heap addr fun node => { node with left := none }
    | none => pure heap
  let node ← slot heap addr
  match node.right with
  | some right => do
    let heap ← free heap right
    writeNode heap addr fun node => { node with right := none }
  | none => pure heap

/-- `free_merkle_node`, for at most `fuel` nested calls: when both children are one pointer, free
it once; otherwise free each child there is; then free the node. -/
def freeMerkleNode :
    Nat → List (Option (HeapNode Hash)) → Nat → Option (List (Option (HeapNode Hash)))
  | 0, _, _ => none
  | fuel + 1, heap, addr => do
    let node ← slot heap addr
    let heap ← match node.left, node.right with
      | some left, some right =>
        if left = right then freeMerkleNode fuel heap left
        else freeChildren (freeMerkleNode fuel) heap addr
      | _, _ => freeChildren (freeMerkleNode fuel) heap addr
    releaseNode heap addr

/-- `free_merkle_tree`: free the root's nodes. A walk from the root visits each allocated node at
most once unless the heap has a cycle, so the number of nodes bounds its depth. -/
def freeMerkleTree (heap : List (Option (HeapNode Hash))) (root : Nat) :
    Option (List (Option (HeapNode Hash))) :=
  freeMerkleNode heap.length heap root

section Root

variable (combine : Hash → Hash → Hash)

/-- The tree part of `compute_merkle_root`, from the leaf hashes on: build the tree,
`assert(tree != NULL)`, copy the root's hash out, and free the tree. The heap after, and the root
hash. -/
def computeMerkleRoot (heap : List (Option (HeapNode Hash))) (hashes : List Hash) :
    Option (Except Fault (List (Option (HeapNode Hash)) × Hash)) := do
  let (heap, root) ← constructMerkleTreeFromLeaves combine heap hashes
  match root with
  | none => pure (.error .assertion)
  | some root =>
    let node ← slot heap root
    let heap ← freeMerkleTree heap root
    pure (.ok (heap, node.hash))

/-- One call of the tree part of `compute_merkle_root` per block, in order, on one heap, as
validating blocks one after another makes them: the heap after them all, and the roots. -/
def computeMerkleRoots : List (Option (HeapNode Hash)) → List (List Hash) →
    Option (Except Fault (List (Option (HeapNode Hash)) × List Hash))
  | heap, [] => pure (.ok (heap, []))
  | heap, hashes :: later => do
    match ← computeMerkleRoot combine heap hashes with
    | .error fault => pure (.error fault)
    | .ok (heap, root) =>
      match ← computeMerkleRoots heap later with
      | .error fault => pure (.error fault)
      | .ok (heap, roots) => pure (.ok (heap, root :: roots))

end Root

end MerkleHeap

end VulkanCore
