import Mathlib.Data.List.Nodup
import VulkanCore.Core.MerkleHeap
import VulkanCore.Verif.MerkleRoot

/-!
# The Merkle tree on the heap

The pointer-level engine refines the value model: from any heap, on `n ≥ 1` hashes,
`construct_merkle_tree_from_leaves` allocates fresh nodes only, and its root stores the tree the
value model builds, both reading the leaves at the same `uint32_t` offsets; its root hash is
`merkleRef` of the hashes up to `2 ^ 27` of them. And `free_merkle_tree` on that
root frees every node the construction allocated exactly once and touches nothing else: no double
free of the node shared by an odd level's parent, no read of a freed node, no leak. Over any run
of `compute_merkle_root` calls, one per validated block, the heap keeps what it held and gains only
freed slots.

Both rest on `Stores heap addr tree nodes`: the heap holds at `addr` the value `tree` on the
addresses `nodes`, in postorder, each of them once. A parent whose two children are one node owns
that child's nodes once.
-/

namespace VulkanCore

namespace MerkleHeap

variable {Hash : Type}

/-- A live slot is an allocated address. -/
theorem lt_length_of_slot {heap : List (Option (HeapNode Hash))} {addr : Nat} {node : HeapNode Hash}
    (read : slot heap addr = some node) : addr < heap.length := by
  by_contra outside
  simp [slot, List.getElem?_eq_none (not_lt.mp outside)] at read

/-- A write to a live node sets its slot. -/
theorem writeNode_of_slot {heap : List (Option (HeapNode Hash))} {addr : Nat} {node : HeapNode Hash}
    (update : HeapNode Hash → HeapNode Hash) (read : slot heap addr = some node) :
    writeNode heap addr update = some (heap.set addr (some (update node))) := by
  simp [writeNode, read]

/-- Freeing a live node empties its slot. -/
theorem releaseNode_of_slot {heap : List (Option (HeapNode Hash))} {addr : Nat} {node : HeapNode Hash}
    (read : slot heap addr = some node) : releaseNode heap addr = some (heap.set addr none) := by
  simp [releaseNode, read]

/-- The heap holds at `addr` the tree `tree`, on the addresses `nodes`, each once: a leaf has null
children; a parent points at two subtrees on apart nodes, or twice at one subtree. -/
inductive Stores (heap : List (Option (HeapNode Hash))) : Nat → MerkleNode Hash → List Nat → Prop
  /-- A node with null children. -/
  | leaf {addr : Nat} {hash : Hash} (read : slot heap addr = some ⟨hash, none, none⟩) :
      Stores heap addr (.leaf hash) [addr]
  /-- A parent of two subtrees on apart nodes. -/
  | pair {addr left right : Nat} {hash : Hash} {leftTree rightTree : MerkleNode Hash}
      {leftNodes rightNodes : List Nat}
      (read : slot heap addr = some ⟨hash, some left, some right⟩)
      (leftStored : Stores heap left leftTree leftNodes)
      (rightStored : Stores heap right rightTree rightNodes)
      (apart : (leftNodes ++ rightNodes ++ [addr]).Nodup) :
      Stores heap addr (.node hash leftTree rightTree) (leftNodes ++ rightNodes ++ [addr])
  /-- A parent whose two children are one node. -/
  | twin {addr child : Nat} {hash : Hash} {tree : MerkleNode Hash} {nodes : List Nat}
      (read : slot heap addr = some ⟨hash, some child, some child⟩)
      (stored : Stores heap child tree nodes) (apart : (nodes ++ [addr]).Nodup) :
      Stores heap addr (.node hash tree tree) (nodes ++ [addr])

namespace Stores

variable {heap : List (Option (HeapNode Hash))} {addr : Nat} {tree : MerkleNode Hash}
  {nodes : List Nat}

/-- A stored subtree owns its root. -/
theorem mem_self (stored : Stores heap addr tree nodes) : addr ∈ nodes := by
  cases stored <;> simp

/-- A stored subtree owns each of its nodes once. -/
theorem nodup (stored : Stores heap addr tree nodes) : nodes.Nodup := by
  cases stored with
  | leaf => exact List.nodup_singleton _
  | pair _ _ _ apart => exact apart
  | twin _ _ apart => exact apart

/-- A stored subtree lies in allocated memory. -/
theorem lt_length (stored : Stores heap addr tree nodes) : ∀ x ∈ nodes, x < heap.length := by
  induction stored with
  | leaf read => simpa using lt_length_of_slot read
  | pair read _ _ _ leftBelow rightBelow =>
    simp only [List.mem_append, List.mem_singleton]
    rintro x ((inLeft | inRight) | rfl)
    exacts [leftBelow x inLeft, rightBelow x inRight, lt_length_of_slot read]
  | twin read _ _ below =>
    simp only [List.mem_append, List.mem_singleton]
    rintro x (inChild | rfl)
    exacts [below x inChild, lt_length_of_slot read]

/-- The node at a stored subtree's root holds the tree's hash. -/
theorem slot_hash (stored : Stores heap addr tree nodes) :
    ∃ left right, slot heap addr = some ⟨tree.hash, left, right⟩ := by
  cases stored with
  | leaf read => exact ⟨_, _, read⟩
  | pair read => exact ⟨_, _, read⟩
  | twin read => exact ⟨_, _, read⟩

/-- Allocating more nodes keeps a stored subtree. -/
theorem append (extra : List (Option (HeapNode Hash))) (stored : Stores heap addr tree nodes) :
    Stores (heap ++ extra) addr tree nodes := by
  induction stored with
  | leaf read => exact .leaf (by rw [slot_append_left _ _ _ (lt_length_of_slot read), read])
  | pair read _ _ apart leftStored rightStored =>
    exact .pair (by rw [slot_append_left _ _ _ (lt_length_of_slot read), read]) leftStored
      rightStored apart
  | twin read _ apart stored =>
    exact .twin (by rw [slot_append_left _ _ _ (lt_length_of_slot read), read]) stored apart

/-- Freeing a stored subtree with as much fuel as it has nodes, in any heap that holds the same
nodes at its addresses, succeeds and empties exactly those slots. -/
theorem free (stored : Stores heap addr tree nodes) :
    ∀ fuel, nodes.length ≤ fuel → ∀ other : List (Option (HeapNode Hash)),
      (∀ x ∈ nodes, slot other x = slot heap x) →
      ∃ after, freeMerkleNode fuel other addr = some after ∧
        ∀ x, after[x]? = if x ∈ nodes then some none else other[x]? := by
  induction stored with
  | @leaf addr hash read =>
    rintro (_ | fuel) enough other agree
    · simp at enough
    have readOther := (agree addr (List.mem_singleton_self _)).trans read
    refine ⟨other.set addr none, ?_, fun x => ?_⟩
    · simp [freeMerkleNode, freeChildren, readOther, releaseNode_of_slot readOther]
    · simp [List.getElem?_set, lt_length_of_slot readOther, eq_comm]
  | @pair addr left right hash leftTree rightTree leftNodes rightNodes read leftStored
      rightStored apart leftFree rightFree =>
    rintro (_ | fuel) enough other agree
    · simp at enough
    simp only [List.length_append, List.length_singleton] at enough
    have readOther := (agree addr (by simp)).trans read
    obtain ⟨pairApart, -, rootApart⟩ := List.nodup_append.mp apart
    have leftApart : leftNodes.Disjoint rightNodes := (List.nodup_append.mp pairApart).2.2
    have notLeft : addr ∉ leftNodes := fun mem =>
      rootApart (List.mem_append_left _ mem) (List.mem_singleton_self _)
    have notRight : addr ∉ rightNodes := fun mem =>
      rootApart (List.mem_append_right _ mem) (List.mem_singleton_self _)
    have distinct : left ≠ right := fun same =>
      leftApart leftStored.mem_self (same ▸ rightStored.mem_self)
    obtain ⟨mid, freedLeft, clearedLeft⟩ := leftFree fuel (by omega) other
      fun x mem => agree x (by simp [mem])
    have readMid : slot mid addr = some ⟨hash, some left, some right⟩ := by
      rw [← readOther]; simp [slot, clearedLeft, notLeft]
    set written := mid.set addr (some ⟨hash, none, some right⟩)
    have readWritten : slot written addr = some ⟨hash, none, some right⟩ :=
      slot_set_self _ _ _ (lt_length_of_slot readMid)
    obtain ⟨rest, freedRight, clearedRight⟩ := rightFree fuel (by omega) written fun x mem => by
      have differ : addr ≠ x := fun same => notRight (same ▸ mem)
      have notInLeft : x ∉ leftNodes := fun inLeft => leftApart inLeft mem
      rw [slot_set_ne _ _ _ _ differ, ← agree x (by simp [mem])]
      simp [slot, clearedLeft, notInLeft]
    have readRest : slot rest addr = some ⟨hash, none, some right⟩ := by
      rw [← readWritten]; simp [slot, clearedRight, notRight]
    set cleared := rest.set addr (some ⟨hash, none, none⟩)
    have readCleared : slot cleared addr = some ⟨hash, none, none⟩ :=
      slot_set_self _ _ _ (lt_length_of_slot readRest)
    refine ⟨cleared.set addr none, ?_, fun x => ?_⟩
    · simp [freeMerkleNode, freeChildren, readOther, distinct, freedLeft, readMid,
        writeNode_of_slot _ readMid, readWritten, freedRight, writeNode_of_slot _ readRest,
        releaseNode_of_slot readCleared, written, cleared]
    · by_cases here : x = addr
      · subst here
        simp [List.getElem?_set, lt_length_of_slot readCleared]
      · simp only [cleared, written, List.getElem?_set, Ne.symm here, if_false, clearedRight,
          clearedLeft, List.mem_append, List.mem_singleton, here, or_false]
        by_cases inRight : x ∈ rightNodes
        · simp [inRight]
        · by_cases inLeft : x ∈ leftNodes <;> simp [inLeft, inRight]
  | @twin addr child hash tree nodes read stored apart childFree =>
    rintro (_ | fuel) enough other agree
    · simp at enough
    simp only [List.length_append, List.length_singleton] at enough
    have readOther := (agree addr (by simp)).trans read
    have fresh : addr ∉ nodes := by
      simp only [List.nodup_append, List.disjoint_singleton] at apart
      exact apart.2.2
    obtain ⟨mid, freed, clearedChild⟩ := childFree fuel (by omega) other
      fun x mem => agree x (by simp [mem])
    have readMid : slot mid addr = some ⟨hash, some child, some child⟩ := by
      rw [← readOther]; simp [slot, clearedChild, fresh]
    refine ⟨mid.set addr none, ?_, fun x => ?_⟩
    · simp [freeMerkleNode, readOther, freed, releaseNode_of_slot readMid]
    · by_cases here : x = addr
      · subst here
        simp [List.getElem?_set, lt_length_of_slot readMid]
      · simp [List.getElem?_set, Ne.symm here, clearedChild, here]

end Stores

/-- The live addresses of a level: each stores its tree, on nodes apart from the other addresses';
`nodes` is the nodes of all of them. -/
inductive StoresLevel (heap : List (Option (HeapNode Hash))) :
    List Nat → List (MerkleNode Hash) → List Nat → Prop
  /-- No live address. -/
  | nil : StoresLevel heap [] [] []
  /-- A first address, and the others on other nodes. -/
  | cons {addr : Nat} {tree : MerkleNode Hash} {nodes : List Nat} {level : List Nat}
      {trees : List (MerkleNode Hash)} {rest : List Nat}
      (first : Stores heap addr tree nodes) (others : StoresLevel heap level trees rest)
      (apart : (nodes ++ rest).Nodup) :
      StoresLevel heap (addr :: level) (tree :: trees) (nodes ++ rest)

namespace StoresLevel

variable {heap : List (Option (HeapNode Hash))} {level : List Nat}
  {trees : List (MerkleNode Hash)} {nodes : List Nat}

/-- A level's nodes lie in allocated memory. -/
theorem lt_length (stored : StoresLevel heap level trees nodes) : ∀ x ∈ nodes, x < heap.length := by
  induction stored with
  | nil => simp
  | cons first _ _ below =>
    intro x mem
    rcases List.mem_append.mp mem with inFirst | inRest
    exacts [first.lt_length x inFirst, below x inRest]

/-- A level's nodes are each owned once. -/
theorem nodup (stored : StoresLevel heap level trees nodes) : nodes.Nodup := by
  cases stored with
  | nil => exact List.nodup_nil
  | cons _ _ apart => exact apart

/-- A level has as many live addresses as trees. -/
theorem length_eq (stored : StoresLevel heap level trees nodes) : level.length = trees.length := by
  induction stored with
  | nil => rfl
  | cons _ _ _ same => simp [same]

/-- A level of one tree is one address storing it. -/
theorem exists_of_singleton {tree : MerkleNode Hash} (stored : StoresLevel heap level [tree] nodes) :
    ∃ addr, level = [addr] ∧ Stores heap addr tree nodes := by
  cases stored with
  | cons first others _ =>
    cases others
    exact ⟨_, rfl, by simpa using first⟩

/-- Allocating more nodes keeps a level. -/
theorem append (extra : List (Option (HeapNode Hash))) (stored : StoresLevel heap level trees nodes) :
    StoresLevel (heap ++ extra) level trees nodes := by
  induction stored with
  | nil => exact .nil
  | cons first _ apart others => exact .cons (first.append extra) others apart

end StoresLevel

/-- Addresses below a bound, then addresses above it, each list without repeats: no repeats. -/
theorem nodup_append_of_lt {below above : List Nat} {bound : Nat} (belowNodup : below.Nodup)
    (aboveNodup : above.Nodup) (under : ∀ x ∈ below, x < bound)
    (over : ∀ x ∈ above, bound ≤ x) :
    (below ++ above).Nodup :=
  List.nodup_append.mpr ⟨belowNodup, aboveNodup, fun x inBelow inAbove =>
    absurd (over x inAbove) (not_le.mpr (under x inBelow))⟩

/-- Allocating the leaves appends one node per hash and returns their addresses. -/
theorem allocLeaves_eq (heap : List (Option (HeapNode Hash))) (hashes : List Hash) :
    allocLeaves heap hashes =
      (heap ++ hashes.map fun hash => some ⟨hash, none, none⟩,
        List.range' heap.length hashes.length) := by
  induction hashes generalizing heap with
  | nil => simp [allocLeaves]
  | cons hash rest ih =>
    simp only [allocLeaves, allocNode, ih, List.length_append, List.length_singleton,
      List.append_assoc, List.singleton_append, List.map_cons, List.length_cons, List.range'_succ,
      List.length_nil]

/-- `construct_merkle_leaves_from_hashes` appends one leaf per hash, holding the hash its
`uint32_t` offset selects, and returns their addresses. -/
theorem constructMerkleLeavesFromHashes_eq (heap : List (Option (HeapNode Hash))) (hashes : List Hash) :
    constructMerkleLeavesFromHashes heap hashes =
      (heap ++ (leafHashes hashes).map fun hash => some ⟨hash, none, none⟩,
        List.range' heap.length hashes.length) := by
  rw [constructMerkleLeavesFromHashes, allocLeaves_eq, length_leafHashes]

/-- The node allocated at the end of a heap is read back at its address. -/
theorem slot_append_length (heap : List (Option (HeapNode Hash))) (node : HeapNode Hash)
    (extra : List (Option (HeapNode Hash))) :
    slot (heap ++ some node :: extra) heap.length = some node := by
  rw [slot, List.getElem?_append_right (le_refl _), Nat.sub_self, List.getElem?_cons_zero,
    Option.getD_some]

/-- The leaves form a level: each one stores its leaf, on its own address. -/
theorem storesLevel_leaves (heap : List (Option (HeapNode Hash))) (hashes : List Hash) :
    StoresLevel (heap ++ hashes.map fun hash => some ⟨hash, none, none⟩)
      (List.range' heap.length hashes.length) (hashes.map .leaf)
      (List.range' heap.length hashes.length) := by
  induction hashes generalizing heap with
  | nil => exact .nil
  | cons hash rest ih =>
    have grown := ih (heap ++ [some ⟨hash, none, none⟩])
    simp only [List.length_append, List.length_singleton, List.append_assoc,
      List.singleton_append] at grown
    rw [List.map_cons, List.length_cons, List.range'_succ, List.map_cons]
    refine .cons (.leaf (slot_append_length _ _ _)) grown ?_
    rw [List.singleton_append, ← List.range'_succ]
    exact List.nodup_range' _ _

section Engine

variable (combine : Hash → Hash → Hash)

/-- `construct_merkle_node` on two stored subtrees allocates their parent at the next address. -/
theorem constructMerkleNode_stored {heap : List (Option (HeapNode Hash))} {left right : Nat}
    {leftTree rightTree : MerkleNode Hash} {leftNodes rightNodes : List Nat}
    (leftStored : Stores heap left leftTree leftNodes)
    (rightStored : Stores heap right rightTree rightNodes) :
    constructMerkleNode combine heap left right =
      some (heap ++ [some ⟨combine leftTree.hash rightTree.hash, some left, some right⟩],
        heap.length) := by
  obtain ⟨_, _, leftRead⟩ := leftStored.slot_hash
  obtain ⟨_, _, rightRead⟩ := rightStored.slot_hash
  simp [constructMerkleNode, leftRead, rightRead, allocNode]

/-- One round on a level allocates, after the heap, the parents of its pairs and of its odd last
node with itself. They form the next level, storing the value model's `pairUp` of the level's
trees, on the level's nodes and the new ones. -/
theorem collapseMerkleNodes_stores : ∀ {heap : List (Option (HeapNode Hash))} {level : List Nat}
    {trees : List (MerkleNode Hash)} {nodes : List Nat}, StoresLevel heap level trees nodes →
    ∃ extra parents parentNodes,
      collapseMerkleNodes combine heap level = some (heap ++ extra, parents) ∧
      StoresLevel (heap ++ extra) parents (pairUp (VulkanCore.constructMerkleNode combine) trees)
        parentNodes ∧
      ∀ x, x ∈ parentNodes ↔ x ∈ nodes ∨ heap.length ≤ x ∧ x < heap.length + extra.length
  | _, [], _, _, .nil => ⟨[], [], [], by simp [collapseMerkleNodes], .nil, by simp⟩
  | heap, [addr], _, _, @StoresLevel.cons _ _ _ tree nodes _ _ _ first .nil apart => by
    have fresh : (nodes ++ [heap.length]).Nodup :=
      nodup_append_of_lt first.nodup (List.nodup_singleton _) first.lt_length (by simp)
    refine ⟨[some ⟨combine tree.hash tree.hash, some addr, some addr⟩], [heap.length],
      (nodes ++ [heap.length]) ++ [], ?_, ?_, fun x => ?_⟩
    · simp [collapseMerkleNodes, constructMerkleNode_stored combine first first]
    · exact .cons (.twin (slot_append_length _ _ _) (first.append _) fresh) .nil
        (by simpa using fresh)
    · simp only [List.append_nil, List.mem_append, List.mem_singleton, List.length_singleton]
      constructor
      · rintro (mem | rfl)
        exacts [.inl mem, .inr ⟨le_refl _, by omega⟩]
      · rintro (mem | ⟨late, early⟩)
        exacts [.inl mem, .inr (by omega)]
  | heap, left :: right :: rest, _, _, @StoresLevel.cons _ _ _ leftTree leftNodes _ _ _ first
      (@StoresLevel.cons _ _ _ rightTree rightNodes _ restTrees restNodes second others restApart)
      apart => by
    set parent : HeapNode Hash := ⟨combine leftTree.hash rightTree.hash, some left, some right⟩
    obtain ⟨extra, parents, parentNodes, collapsed, storedParents, members⟩ :=
      collapseMerkleNodes_stores (others.append [some parent])
    have leftBelow := first.lt_length
    have rightBelow := second.lt_length
    have restBelow := others.lt_length
    obtain ⟨-, -, leftApart⟩ := List.nodup_append.mp apart
    obtain ⟨-, -, rightApart⟩ := List.nodup_append.mp restApart
    have pairNodup : (leftNodes ++ rightNodes ++ [heap.length]).Nodup :=
      nodup_append_of_lt (apart.sublist ((List.sublist_append_left _ _).append_left _))
        (List.nodup_singleton _)
        (fun x mem => (List.mem_append.mp mem).elim (leftBelow x) (rightBelow x)) (by simp)
    refine ⟨some parent :: extra, heap.length :: parents,
      (leftNodes ++ rightNodes ++ [heap.length]) ++ parentNodes, ?_, ?_, fun x => ?_⟩
    · simp only [collapseMerkleNodes, constructMerkleNode_stored combine first second]
      simp [parent, collapsed]
    · refine .cons (.pair (slot_append_length _ _ _) (first.append _) (second.append _) pairNodup)
        ?_ ?_
      · simpa using storedParents
      · refine List.nodup_append.mpr ⟨pairNodup, storedParents.nodup, fun x mem inParents => ?_⟩
        simp only [List.length_append, List.length_singleton] at members
        simp only [List.mem_append, List.mem_singleton] at mem
        rcases (members x).mp inParents with inRest | ⟨late, -⟩
        · rcases mem with (inLeft | inRight) | rfl
          · exact leftApart inLeft (List.mem_append_right _ inRest)
          · exact rightApart inRight inRest
          · exact absurd (restBelow _ inRest) (lt_irrefl _)
        · rcases mem with (inLeft | inRight) | rfl
          · exact absurd (leftBelow x inLeft) (by omega)
          · exact absurd (rightBelow x inRight) (by omega)
          · omega
    · simp only [List.length_append, List.length_singleton] at members
      simp only [List.mem_append, List.mem_singleton, members, List.length_cons]
      constructor
      · rintro (((inLeft | inRight) | rfl) | inRest | ⟨late, early⟩)
        exacts [.inl (.inl inLeft), .inl (.inr (.inl inRight)), .inr ⟨le_refl _, by omega⟩,
          .inl (.inr (.inr inRest)), .inr ⟨by omega, by omega⟩]
      · rintro ((inLeft | inRight | inRest) | ⟨late, early⟩)
        · exact .inl (.inl (.inl inLeft))
        · exact .inl (.inl (.inr inRight))
        · exact .inr (.inl inRest)
        · by_cases here : x = heap.length
          · exact .inl (.inr here)
          · exact .inr (.inr ⟨by omega, by omega⟩)

/-- `rounds` rounds of the `while` loop: the heap grows, and the live addresses store the value
model's `climb` of the level's trees, on the level's nodes and the new ones. -/
theorem collapseWhile_stores (rounds : Nat) : ∀ {heap : List (Option (HeapNode Hash))}
    {level : List Nat} {trees : List (MerkleNode Hash)} {nodes : List Nat},
    StoresLevel heap level trees nodes →
    ∃ extra final finalNodes,
      collapseWhile combine rounds heap level = some (heap ++ extra, final) ∧
      StoresLevel (heap ++ extra) final (climb (VulkanCore.constructMerkleNode combine) rounds trees)
        finalNodes ∧
      ∀ x, x ∈ finalNodes ↔
        x ∈ nodes ∨ heap.length ≤ x ∧ x < heap.length + extra.length := by
  induction rounds with
  | zero =>
    intro heap level trees nodes stored
    exact ⟨[], level, nodes, by simp [collapseWhile], by simpa [climb] using stored, by simp⟩
  | succ rounds ih =>
    intro heap level trees nodes stored
    by_cases more : 1 < level.length
    · obtain ⟨extra, parents, parentNodes, collapsed, storedParents, members⟩ :=
        collapseMerkleNodes_stores combine stored
      obtain ⟨later, final, finalNodes, run, storedFinal, finalMembers⟩ := ih storedParents
      refine ⟨extra ++ later, final, finalNodes, ?_, ?_, fun x => ?_⟩
      · simp [collapseWhile, more, collapsed, run]
      · rw [climb, if_pos (stored.length_eq ▸ more), ← List.append_assoc]
        exact storedFinal
      · rw [finalMembers, members]
        by_cases mem : x ∈ nodes <;> simp [mem]
        omega
    · refine ⟨[], level, nodes, by simp [collapseWhile, more], ?_, by simp⟩
      rw [climb, if_neg (stored.length_eq ▸ more), List.append_nil]
      exact stored

/-- From any heap, on `n ≥ 1` hashes, `construct_merkle_tree_from_leaves` only appends nodes; its
root stores the tree the value model's levels climb to, on exactly the appended nodes. -/
theorem constructMerkleTreeFromLeaves_stores (heap : List (Option (HeapNode Hash)))
    (hashes : List Hash) (nonempty : hashes ≠ []) :
    ∃ extra root tree nodes,
      constructMerkleTreeFromLeaves combine heap hashes = some (heap ++ extra, some root) ∧
      climb (VulkanCore.constructMerkleNode combine) hashes.length
        ((leafHashes hashes).map .leaf) = [tree] ∧
      Stores (heap ++ extra) root tree nodes ∧
      ∀ x, x ∈ nodes ↔ heap.length ≤ x ∧ x < heap.length + extra.length := by
  obtain ⟨tree, climbed, -⟩ := VulkanCore.constructMerkleTreeFromLeaves_eq combine hashes nonempty
  have leaves := storesLevel_leaves heap (leafHashes hashes)
  rw [length_leafHashes] at leaves
  obtain ⟨extra, final, finalNodes, run, storedFinal, members⟩ :=
    collapseWhile_stores combine hashes.length leaves
  obtain ⟨root, rfl, stored⟩ := (climbed ▸ storedFinal).exists_of_singleton
  refine ⟨(leafHashes hashes).map (fun hash => some ⟨hash, none, none⟩) ++ extra, root, tree,
    finalNodes, ?_,
    climbed, by simpa using stored, fun x => ?_⟩
  · have positive : ¬hashes.length < 1 := not_lt.mpr (List.length_pos.mpr nonempty)
    simp [constructMerkleTreeFromLeaves, positive, constructMerkleLeavesFromHashes_eq, run]
  · rw [members]
    simp only [List.mem_range'_1, List.length_append, List.length_map, length_leafHashes]
    omega

/-- What a tree of `n` nodes owns is `n` distinct addresses among the appended ones, so at most
as many as were appended. -/
theorem length_le_of_mem_appended {heap extra : List (Option (HeapNode Hash))} {nodes : List Nat}
    (nodup : nodes.Nodup)
    (members : ∀ x, x ∈ nodes ↔ heap.length ≤ x ∧ x < heap.length + extra.length) :
    nodes.length ≤ (heap ++ extra).length := by
  have owned := (List.subperm_of_subset nodup
    (fun x mem => List.mem_range'_1.mpr ((members x).mp mem))).length_le
  rw [List.length_range'] at owned
  simp only [List.length_append]
  omega

/-- Freeing a tree that owns exactly the nodes appended to a heap empties exactly those slots. -/
theorem freeMerkleTree_appended {heap extra : List (Option (HeapNode Hash))} {root : Nat}
    {tree : MerkleNode Hash} {nodes : List Nat} (stored : Stores (heap ++ extra) root tree nodes)
    (members : ∀ x, x ∈ nodes ↔ heap.length ≤ x ∧ x < heap.length + extra.length) :
    freeMerkleTree (heap ++ extra) root = some (heap ++ List.replicate extra.length none) := by
  obtain ⟨after, freed, cleared⟩ := stored.free _
    (length_le_of_mem_appended stored.nodup members) _ fun _ _ => rfl
  rw [freeMerkleTree, freed]
  refine congrArg some (List.ext_getElem? fun x => ?_)
  rw [cleared]
  by_cases low : x < heap.length
  · simp [members, low, List.getElem?_append_left]
  · have late := not_lt.mp low
    by_cases inside : x - heap.length < extra.length
    · simp [members, late, inside, List.getElem?_append_right, List.getElem?_replicate]
      omega
    · simp [members, late, inside, List.getElem?_append_right, List.getElem?_replicate,
        List.getElem?_eq_none (not_lt.mp inside)]
      omega

/-- `free_merkle_tree` after `construct_merkle_tree_from_leaves`: from any heap, on `n ≥ 1` hashes,
freeing the root empties exactly the slots the construction appended, each once, and leaves every
slot before them as it was. It never reads or frees an empty slot on the way. -/
theorem freeMerkleTree_after_construction (heap : List (Option (HeapNode Hash)))
    (hashes : List Hash) (nonempty : hashes ≠ []) :
    ∃ built root, constructMerkleTreeFromLeaves combine heap hashes = some (built, some root) ∧
      freeMerkleTree built root = some (heap ++ List.replicate (built.length - heap.length) none) := by
  obtain ⟨extra, root, tree, nodes, built, -, stored, members⟩ :=
    constructMerkleTreeFromLeaves_stores combine heap hashes nonempty
  refine ⟨heap ++ extra, root, built, ?_⟩
  rw [List.length_append, Nat.add_sub_cancel_left]
  exact freeMerkleTree_appended stored members

/-- Freeing the tree built on three hashes from an empty heap leaves every slot freed. -/
theorem freeMerkleTree_after_construction_three :
    ([1, 2, 3] : List Nat) ≠ [] ∧
      ∃ built root, constructMerkleTreeFromLeaves (· + ·) [] [1, 2, 3] = some (built, some root) ∧
        freeMerkleTree built root = some (List.replicate built.length none) :=
  ⟨by decide, freeMerkleTree_after_construction (· + ·) [] [1, 2, 3] (by decide)⟩

/-- The tree part of `compute_merkle_root` on `n ≥ 1` hashes, from any heap: the MerkleRef of the
leaves the hashes' offsets select, and the heap as it was, followed by the freed slots of the
nodes it allocated. -/
theorem computeMerkleRoot_merkleRef (heap : List (Option (HeapNode Hash))) (hashes : List Hash)
    (nonempty : hashes ≠ []) :
    ∃ freed root, computeMerkleRoot combine heap hashes =
        some (.ok (heap ++ List.replicate freed none, root)) ∧
      merkleRef combine (leafHashes hashes) = some root := by
  obtain ⟨extra, root, tree, nodes, built, climbed, stored, members⟩ :=
    constructMerkleTreeFromLeaves_stores combine heap hashes nonempty
  obtain ⟨left, right, read⟩ := stored.slot_hash
  obtain ⟨valueTree, value, rooted⟩ :=
    VulkanCore.constructMerkleTreeFromLeaves_merkleRef combine hashes nonempty
  obtain ⟨_, climbedValue, valueBuilt⟩ :=
    VulkanCore.constructMerkleTreeFromLeaves_eq combine hashes nonempty
  obtain rfl := List.singleton_inj.mp (climbed.symm.trans climbedValue)
  rw [value, Except.ok.injEq, Option.some_inj] at valueBuilt
  subst valueBuilt
  refine ⟨extra.length, tree.hash, ?_, rooted⟩
  simp [computeMerkleRoot, built, read, freeMerkleTree_appended stored members]

/-- Validating blocks one after another, from any heap, each block's call of `compute_merkle_root`
on `1 ≤ n ≤ 2 ^ 27` leaf hashes: no call reads or frees an empty slot or fails its assertion, each
returns the MerkleRef of its leaves, and the heap ends as it started, followed by the freed slots
of every node allocated on the way. -/
theorem computeMerkleRoots_run (heap : List (Option (HeapNode Hash))) (blocks : List (List Hash))
    (nonempty : ∀ hashes ∈ blocks, hashes ≠ [])
    (bounded : ∀ hashes ∈ blocks, hashes.length ≤ 2 ^ 27) :
    ∃ freed roots, computeMerkleRoots combine heap blocks =
        some (.ok (heap ++ List.replicate freed none, roots)) ∧
      roots.map some = blocks.map (merkleRef combine) := by
  induction blocks generalizing heap with
  | nil => exact ⟨0, [], by simp [computeMerkleRoots], rfl⟩
  | cons hashes later ih =>
    obtain ⟨freed, root, step, rooted⟩ :=
      computeMerkleRoot_merkleRef combine heap hashes (nonempty hashes (List.mem_cons_self _ _))
    rw [leafHashes_of_length_le hashes (bounded hashes (List.mem_cons_self _ _))] at rooted
    obtain ⟨laterFreed, roots, run, rootsEq⟩ := ih (heap ++ List.replicate freed none)
      (fun hashes mem => nonempty hashes (List.mem_cons_of_mem _ mem))
      fun hashes mem => bounded hashes (List.mem_cons_of_mem _ mem)
    refine ⟨freed + laterFreed, root :: roots, ?_, by simp [rooted, rootsEq]⟩
    simp only [computeMerkleRoots, step, Option.bind_eq_bind, Option.some_bind, run]
    rw [List.replicate_add, List.append_assoc]
    rfl

/-- Two blocks' roots computed in turn from an empty heap: each is its MerkleRef, and the heap
ends with only freed slots. -/
theorem computeMerkleRoots_run_two :
    (∀ hashes ∈ ([[1, 2, 3], [4]] : List (List Nat)), hashes ≠ []) ∧
      (∀ hashes ∈ ([[1, 2, 3], [4]] : List (List Nat)), hashes.length ≤ 2 ^ 27) ∧
      ∃ freed roots, computeMerkleRoots (· + ·) [] [[1, 2, 3], [4]] =
          some (.ok ([] ++ List.replicate freed none, roots)) ∧
        roots.map some = [[1, 2, 3], [4]].map (merkleRef (· + ·)) :=
  ⟨by decide, by decide, computeMerkleRoots_run (· + ·) [] _ (by decide) (by decide)⟩

end Engine

end MerkleHeap

end VulkanCore
