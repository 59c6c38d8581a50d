import VulkanCore.Verif.MerkleRoot
import Mathlib.Data.List.Nodup
import Mathlib.Data.Nat.Pairing

/-!
# What the Merkle root binds

Odd-leaf duplication makes `[a, b, c]` and `[a, b, c, c]` share a root, so a root cannot bind a
leaf list in general. It binds lists without repeated entries when the node hash is injective
and no leaf is itself a node hash: such a root hash determines the whole tree (the hash of
every node is the node hash of its children's), the tree's fringe is the leaf list followed by
copies of some of its entries, and a list without repeats is the longest prefix of that fringe
without repeats. That holds up to `2 ^ 27` leaves: from there on the leaves copy the hashes at
`uint32_t` offsets that wrap, and the hashes past the first `2 ^ 27` are never read.
-/

namespace VulkanCore

variable {Hash : Type}

namespace MerkleNode

/-- The leaf hashes of a tree, left to right. -/
def leaves : MerkleNode Hash → List Hash
  | leaf hash => [hash]
  | node _ left right => left.leaves ++ right.leaves

/-- Every inner node holds the node hash of its children's hashes. -/
def Consistent (combine : Hash → Hash → Hash) : MerkleNode Hash → Prop
  | leaf _ => True
  | node hash left right =>
    hash = combine left.hash right.hash ∧ left.Consistent combine ∧ right.Consistent combine

/-- With an injective node hash and no leaf hash a node hash, the root hash of a consistent tree
determines the tree. -/
theorem eq_of_hash_eq {combine : Hash → Hash → Hash}
    (injective : ∀ a b c d, combine a b = combine c d → a = c ∧ b = d) :
    ∀ (first second : MerkleNode Hash), first.Consistent combine → second.Consistent combine →
      (∀ hash ∈ first.leaves ++ second.leaves, ∀ a b, combine a b ≠ hash) →
      first.hash = second.hash → first = second
  | leaf _, leaf _, _, _, _, same => by simpa [MerkleNode.hash] using same
  | leaf hash, node _ left right, _, ⟨made, _⟩, fresh, same => by
    simp only [MerkleNode.hash] at same
    exact absurd (made ▸ same).symm (fresh hash (by simp [leaves]) _ _)
  | node _ left right, leaf hash, ⟨made, _⟩, _, fresh, same => by
    simp only [MerkleNode.hash] at same
    exact absurd (made ▸ same) (fresh hash (by simp [leaves]) _ _)
  | node _ left right, node _ left' right', ⟨made, leftOk, rightOk⟩, ⟨made', leftOk', rightOk'⟩,
      fresh, same => by
    simp only [MerkleNode.hash] at same
    obtain ⟨sameLeft, sameRight⟩ := injective _ _ _ _ (made ▸ made' ▸ same)
    have leftEq := eq_of_hash_eq injective left left' leftOk leftOk'
      (fun hash mem => fresh hash (List.mem_append.mpr ((List.mem_append.mp mem).imp
        (List.mem_append_left _) (List.mem_append_left _)))) sameLeft
    have rightEq := eq_of_hash_eq injective right right' rightOk rightOk'
      (fun hash mem => fresh hash (List.mem_append.mpr ((List.mem_append.mp mem).imp
        (List.mem_append_right _) (List.mem_append_right _)))) sameRight
    rw [made, made', leftEq, rightEq]

/-- The fringe of the leaves made from hashes is the hashes. -/
@[simp] theorem flatMap_leaves_map_leaf (hashes : List Hash) :
    (hashes.map leaf).flatMap leaves = hashes := by
  induction hashes <;> simp_all [leaves]

end MerkleNode

section Climb

variable (combine : Hash → Hash → Hash)

/-- Going one level up keeps every node consistent. -/
theorem consistent_pairUp (level : List (MerkleNode Hash))
    (consistent : ∀ node ∈ level, node.Consistent combine) :
    ∀ node ∈ pairUp (constructMerkleNode combine) level, node.Consistent combine := by
  induction level using pairUp.induct (constructMerkleNode combine) with
  | case1 => simp [pairUp]
  | case2 last =>
    have lastOk := consistent last (by simp)
    simp [pairUp, constructMerkleNode, MerkleNode.Consistent, lastOk]
  | case3 left right rest ih =>
    simp only [pairUp, List.mem_cons, forall_eq_or_imp]
    exact ⟨⟨rfl, consistent left (by simp), consistent right (by simp)⟩,
      ih fun node mem => consistent node (by simp [mem])⟩

/-- Building levels keeps every node hash-consistent. -/
theorem consistent_climb (rounds : Nat) (level : List (MerkleNode Hash))
    (consistent : ∀ node ∈ level, node.Consistent combine) :
    ∀ node ∈ climb (constructMerkleNode combine) rounds level, node.Consistent combine := by
  induction rounds generalizing level with
  | zero => exact consistent
  | succ rounds ih =>
    simp only [climb]
    split
    · exact ih _ (consistent_pairUp combine level consistent)
    · exact consistent

/-- Going one level up appends to the fringe copies of hashes already in it. -/
theorem fringe_pairUp (level : List (MerkleNode Hash)) :
    ∃ copies, (pairUp (constructMerkleNode combine) level).flatMap MerkleNode.leaves =
      level.flatMap MerkleNode.leaves ++ copies ∧
      ∀ hash ∈ copies, hash ∈ level.flatMap MerkleNode.leaves := by
  induction level using pairUp.induct (constructMerkleNode combine) with
  | case1 => exact ⟨[], by simp [pairUp]⟩
  | case2 last => exact ⟨last.leaves, by simp [pairUp, constructMerkleNode, MerkleNode.leaves]⟩
  | case3 left right rest ih =>
    obtain ⟨copies, fringe, within⟩ := ih
    refine ⟨copies, ?_, fun hash mem => ?_⟩
    · simp [pairUp, constructMerkleNode, MerkleNode.leaves, fringe]
    · have := within hash mem
      simp only [List.flatMap_cons, List.mem_append] at this ⊢
      tauto

/-- The leaves under the built levels are the leaves below them, then copies of some of them. -/
theorem fringe_climb (rounds : Nat) (level : List (MerkleNode Hash)) :
    ∃ copies, (climb (constructMerkleNode combine) rounds level).flatMap MerkleNode.leaves =
      level.flatMap MerkleNode.leaves ++ copies ∧
      ∀ hash ∈ copies, hash ∈ level.flatMap MerkleNode.leaves := by
  induction rounds generalizing level with
  | zero => exact ⟨[], by simp [climb]⟩
  | succ rounds ih =>
    simp only [climb]
    split
    · obtain ⟨copies, fringe, within⟩ := fringe_pairUp combine level
      obtain ⟨more, fringe', within'⟩ := ih (pairUp (constructMerkleNode combine) level)
      refine ⟨copies ++ more, by rw [fringe', fringe, List.append_assoc], fun hash mem => ?_⟩
      rcases List.mem_append.mp mem with early | late
      · exact within hash early
      · have := within' hash late
        rw [fringe, List.mem_append] at this
        exact this.elim id (within hash)
    · exact ⟨[], by simp⟩

end Climb

/-- A list without repeats is the longest repeat-free prefix of itself followed by copies of
its entries. -/
theorem eq_of_append_copies {first second firstCopies secondCopies : List Hash}
    (firstDistinct : first.Nodup) (secondDistinct : second.Nodup)
    (firstWithin : ∀ hash ∈ firstCopies, hash ∈ first)
    (secondWithin : ∀ hash ∈ secondCopies, hash ∈ second)
    (same : first ++ firstCopies = second ++ secondCopies) : first = second := by
  rcases List.append_eq_append_iff.mp same with ⟨extra, rfl, rfl⟩ | ⟨extra, rfl, rfl⟩
  · cases extra with
    | nil => simp
    | cons hash extra =>
      have twice := List.disjoint_of_nodup_append secondDistinct
      exact absurd (firstWithin hash (by simp)) (fun mem => twice mem (by simp))
  · cases extra with
    | nil => simp
    | cons hash extra =>
      have twice := List.disjoint_of_nodup_append firstDistinct
      exact absurd (secondWithin hash (by simp)) (fun mem => twice mem (by simp))

/-- The root of the tree built over some hashes is consistent, and its fringe is the hashes its
leaves copied followed by copies of some of them. -/
theorem constructMerkleTreeFromLeaves_fringe (combine : Hash → Hash → Hash) (hashes : List Hash)
    (tree : MerkleTree Hash) (built : constructMerkleTreeFromLeaves combine hashes = .ok (some tree)) :
    tree.root.Consistent combine ∧ ∃ copies, tree.root.leaves = leafHashes hashes ++ copies ∧
      ∀ hash ∈ copies, hash ∈ leafHashes hashes := by
  have nonempty : hashes ≠ [] := by
    rintro rfl
    simp [constructMerkleTreeFromLeaves] at built
  obtain ⟨root, isRoot, made⟩ := constructMerkleTreeFromLeaves_eq combine hashes nonempty
  obtain rfl : tree = ⟨root⟩ := by simpa [made] using built.symm
  obtain ⟨copies, fringe, within⟩ :=
    fringe_climb combine hashes.length ((leafHashes hashes).map .leaf)
  rw [isRoot, MerkleNode.flatMap_leaves_map_leaf] at fringe
  rw [MerkleNode.flatMap_leaves_map_leaf] at within
  refine ⟨consistent_climb combine hashes.length ((leafHashes hashes).map .leaf)
    (by simp [MerkleNode.Consistent]) root (by simp [isRoot]), copies, by simpa using fringe, within⟩

/-- Up to `2 ^ 27` leaves the Merkle root binds its leaf list: trees built over two lists without
repeated entries, under an injective node hash of which no entry is a value, have the same root
hash only when the lists are equal. -/
theorem eq_of_built_root_hash_eq (combine : Hash → Hash → Hash)
    (injective : ∀ a b c d, combine a b = combine c d → a = c ∧ b = d)
    (first second : List Hash) (firstBounded : first.length ≤ 2 ^ 27)
    (secondBounded : second.length ≤ 2 ^ 27) (firstDistinct : first.Nodup)
    (secondDistinct : second.Nodup) (fresh : ∀ hash ∈ first ++ second, ∀ a b, combine a b ≠ hash)
    (firstTree secondTree : MerkleTree Hash)
    (firstBuilt : constructMerkleTreeFromLeaves combine first = .ok (some firstTree))
    (secondBuilt : constructMerkleTreeFromLeaves combine second = .ok (some secondTree))
    (sameRoot : firstTree.root.hash = secondTree.root.hash) : first = second := by
  obtain ⟨firstOk, firstCopies, firstFringe, firstWithin⟩ :=
    constructMerkleTreeFromLeaves_fringe combine first firstTree firstBuilt
  obtain ⟨secondOk, secondCopies, secondFringe, secondWithin⟩ :=
    constructMerkleTreeFromLeaves_fringe combine second secondTree secondBuilt
  rw [leafHashes_of_length_le first firstBounded] at firstFringe firstWithin
  rw [leafHashes_of_length_le second secondBounded] at secondFringe secondWithin
  have sameTree := MerkleNode.eq_of_hash_eq injective _ _ firstOk secondOk (fun hash mem => by
    rw [firstFringe, secondFringe] at mem
    simp only [List.mem_append] at mem
    exact fresh hash (by
      rcases mem with (mem | mem) | (mem | mem)
      · exact List.mem_append_left _ mem
      · exact List.mem_append_left _ (firstWithin hash mem)
      · exact List.mem_append_right _ mem
      · exact List.mem_append_right _ (secondWithin hash mem))) sameRoot
  have sameFringe : first ++ firstCopies = second ++ secondCopies := by
    rw [← firstFringe, ← secondFringe, sameTree]
  exact eq_of_append_copies firstDistinct secondDistinct firstWithin secondWithin sameFringe

/-- From `2 ^ 27` hashes on the root does not bind the leaf list: the leaves copy the hashes at
`uint32_t` byte offsets, which wrap there, so `construct_merkle_tree_from_leaves` reads no hash
past the first `2 ^ 27`, and two lists of one length that agree on those get the same tree
whatever follows. -/
theorem constructMerkleTreeFromLeaves_ignores_tail (combine : Hash → Hash → Hash)
    (first second : List Hash) (sameLength : first.length = second.length)
    (agree : ∀ i < 2 ^ 27, first[i]? = second[i]?) :
    constructMerkleTreeFromLeaves combine first = constructMerkleTreeFromLeaves combine second := by
  simp only [constructMerkleTreeFromLeaves, constructMerkleLeavesFromHashes, sameLength,
    leafHashes_congr sameLength agree]

/-- A node hash that is injective and above every leaf below: `2 ^ 28` plus the pairing of the
two child hashes. -/
def pairAbove (left right : Nat) : Nat := 2 ^ 28 + Nat.pair left right

/-- Two lists of `2 ^ 27 + 1` leaves without repeats, under an injective node hash of which no
leaf is a value, that differ in their last leaf only: the tree built over both is one tree. -/
theorem constructMerkleTreeFromLeaves_ignores_tail_range :
    (∀ a b c d, pairAbove a b = pairAbove c d → a = c ∧ b = d) ∧
      (List.range (2 ^ 27 + 1)).Nodup ∧ (List.range (2 ^ 27) ++ [2 ^ 27 + 1]).Nodup ∧
      (∀ hash ∈ List.range (2 ^ 27 + 1) ++ (List.range (2 ^ 27) ++ [2 ^ 27 + 1]),
        ∀ a b, pairAbove a b ≠ hash) ∧
      List.range (2 ^ 27 + 1) ≠ List.range (2 ^ 27) ++ [2 ^ 27 + 1] ∧
      ∃ tree, constructMerkleTreeFromLeaves pairAbove (List.range (2 ^ 27 + 1)) = .ok (some tree) ∧
        constructMerkleTreeFromLeaves pairAbove (List.range (2 ^ 27) ++ [2 ^ 27 + 1]) =
          .ok (some tree) := by
  have sameLength :
      (List.range (2 ^ 27 + 1)).length = (List.range (2 ^ 27) ++ [2 ^ 27 + 1]).length := by
    rw [List.length_append, List.length_range, List.length_range, List.length_singleton]
  have agree : ∀ i < 2 ^ 27,
      (List.range (2 ^ 27 + 1))[i]? = (List.range (2 ^ 27) ++ [2 ^ 27 + 1])[i]? := fun i below => by
    rw [List.getElem?_range (by omega),
      List.getElem?_append_left (by rw [List.length_range]; exact below), List.getElem?_range below]
  obtain ⟨tree, built, -⟩ := constructMerkleTreeFromLeaves_merkleRef pairAbove
    (List.range (2 ^ 27 + 1)) (by rw [Ne, List.range_eq_nil]; omega)
  refine ⟨fun a b c d same => Nat.pair_eq_pair.mp (by unfold pairAbove at same; omega),
    List.nodup_range _, ?_, ?_, fun same => ?_, tree, built, ?_⟩
  · refine List.Nodup.append (List.nodup_range _) (List.nodup_singleton _) fun hash mem last => ?_
    rw [List.mem_singleton] at last
    rw [last, List.mem_range] at mem
    omega
  · intro hash mem a b
    rw [List.mem_append, List.mem_append, List.mem_range, List.mem_range, List.mem_singleton] at mem
    unfold pairAbove
    omega
  · have last := congrArg (·[2 ^ 27]?) same
    simp only [List.getElem?_range (show 2 ^ 27 < 2 ^ 27 + 1 by omega)] at last
    rw [List.getElem?_append_right (by rw [List.length_range]), List.length_range, Nat.sub_self,
      List.getElem?_cons_zero, Option.some.injEq] at last
    omega
  · rw [← constructMerkleTreeFromLeaves_ignores_tail pairAbove _ _ sameLength agree, built]

end VulkanCore
