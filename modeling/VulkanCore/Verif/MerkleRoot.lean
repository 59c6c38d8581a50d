import VulkanCore.Core.Merkle
import Mathlib.Data.Nat.Log

/-!
# The root the Merkle engine computes

The specification's root, `merkleRef`: pair up a level, the last element with itself when the
level is odd, until one element remains. Each `collapse_merkle_nodes` call replaces the live
nodes by `pairUp` of them without touching a slot outside `[0, num_of_nodes)`, and the
`while` loop of `construct_merkle_tree_from_leaves` stops after exactly `⌈log₂ n⌉` calls, so
the engine returns a tree whose root hash is `merkleRef` of the hashes its leaves copied. Those
are the hashes themselves up to `2 ^ 27` of them; from there on the `uint32_t` offsets wrap and
the leaves start over at the first hash (`leafHashes`).
-/

namespace VulkanCore

section Spec

variable {α : Type} (pair : α → α → α)

/-- One level up: adjacent elements paired, a last unpaired element paired with itself. -/
def pairUp : List α → List α
  | [] => []
  | [last] => [pair last last]
  | left :: right :: rest => pair left right :: pairUp rest

/-- The pairs of adjacent elements, without the odd tail: what the pairing loop makes. -/
def evenPairs : List α → List α
  | left :: right :: rest => pair left right :: evenPairs rest
  | _ => []

/-- Pairing a level halves its length, rounding up. -/
@[simp] theorem length_pairUp (level : List α) :
    (pairUp pair level).length = (level.length + 1) / 2 := by
  induction level using pairUp.induct pair <;> simp [pairUp, *]; omega

/-- Pairing an even level halves its length, rounding down. -/
@[simp] theorem length_evenPairs (level : List α) :
    (evenPairs pair level).length = level.length / 2 := by
  induction level using evenPairs.induct pair with
  | case1 left right rest ih => simp [evenPairs, ih]; omega
  | case2 level notPair =>
    match level, notPair with
    | [], _ | [_], _ => simp [evenPairs]
    | _ :: _ :: _, notPair => exact absurd rfl (notPair _ _ _)

/-- `MerkleRef`: the levels collapsed until one element remains; nothing for no leaves. -/
def merkleRef : List α → Option α
  | [] => none
  | [root] => some root
  | left :: right :: rest => merkleRef (pairUp pair (left :: right :: rest))
termination_by level => level.length
decreasing_by simp; omega

/-- `rounds` rounds of the loop `while (count > 1)` over levels. -/
def climb : Nat → List α → List α
  | 0, level => level
  | rounds + 1, level => if 1 < level.length then climb rounds (pairUp pair level) else level

/-- A level is its pairs followed by the last element paired with itself when it is left over. -/
theorem pairUp_eq_evenPairs (level : List α) :
    pairUp pair level =
      evenPairs pair level ++ (level.drop (2 * (level.length / 2))).map fun last => pair last last := by
  induction level using pairUp.induct pair with
  | case1 | case2 => simp [pairUp, evenPairs]
  | case3 left right rest ih =>
    have skip : 2 * ((rest.length + 2) / 2) = 2 * (rest.length / 2) + 2 := by omega
    simp [pairUp, evenPairs, ih, skip]

/-- Climbing keeps the root. -/
theorem merkleRef_climb (rounds : Nat) (level : List α) :
    merkleRef pair (climb pair rounds level) = merkleRef pair level := by
  induction rounds generalizing level with
  | zero => rfl
  | succ rounds ih =>
    match level with
    | [] | [_] => simp [climb]
    | left :: right :: rest => simp [climb, ih, merkleRef]

/-- Building levels never empties a nonempty level. -/
theorem one_le_length_climb (rounds : Nat) (level : List α) (nonempty : 1 ≤ level.length) :
    1 ≤ (climb pair rounds level).length := by
  induction rounds generalizing level with
  | zero => exact nonempty
  | succ rounds ih =>
    simp only [climb]
    split
    · exact ih _ (by simp; omega)
    · exact nonempty

/-- The loop still has more than one element after `rounds` rounds exactly when
`rounds < ⌈log₂ n⌉`. -/
theorem one_lt_length_climb_iff (rounds : Nat) (level : List α) (nonempty : 1 ≤ level.length) :
    1 < (climb pair rounds level).length ↔ rounds < Nat.clog 2 level.length := by
  induction rounds generalizing level with
  | zero =>
    by_cases single : level.length ≤ 1
    · simp [climb, Nat.clog_of_right_le_one single]; omega
    · simp [climb, Nat.clog_pos (by decide : 1 < 2) (by omega : 2 ≤ level.length)]; omega
  | succ rounds ih =>
    by_cases single : level.length ≤ 1
    · simp [climb, show ¬ 1 < level.length by omega, Nat.clog_of_right_le_one single]
    · have halve := Nat.clog_of_two_le (by decide : 1 < 2) (by omega : 2 ≤ level.length)
      simp only [climb, show 1 < level.length by omega, if_true]
      rw [ih _ (by simp; omega), halve]
      simp

/-- As many rounds as elements bring a nonempty level down to one element. -/
theorem length_climb_length (level : List α) (nonempty : 1 ≤ level.length) :
    (climb pair level.length level).length = 1 := by
  have enough : Nat.clog 2 level.length ≤ level.length :=
    (Nat.le_pow_iff_clog_le (by decide)).mp (Nat.lt_two_pow _).le
  have atLeast := one_le_length_climb pair level.length level nonempty
  have notMore := (one_lt_length_climb_iff pair level.length level nonempty).not.mpr (by omega)
  omega

end Spec

section Engine

variable {Hash : Type} (combine : Hash → Hash → Hash)

/-- Hashing commutes with going one level up. -/
theorem map_hash_pairUp (level : List (MerkleNode Hash)) :
    (pairUp (constructMerkleNode combine) level).map MerkleNode.hash =
      pairUp combine (level.map MerkleNode.hash) := by
  induction level using pairUp.induct (constructMerkleNode combine) <;> simp [pairUp, *]

/-- Hashing commutes with climbing. -/
theorem map_hash_climb (rounds : Nat) (level : List (MerkleNode Hash)) :
    (climb (constructMerkleNode combine) rounds level).map MerkleNode.hash =
      climb combine rounds (level.map MerkleNode.hash) := by
  induction rounds generalizing level with
  | zero => rfl
  | succ rounds ih =>
    simp only [climb, List.length_map]
    split
    · rw [ih, map_hash_pairUp]
    · rfl

/-- On a positive count, the unsigned decrement is subtraction. -/
theorem uint32Pred_of_pos {n : Nat} (positive : 1 ≤ n) : uint32Pred n = n - 1 := by
  simp [uint32Pred, show n ≠ 0 by omega]

/-- The slot a live suffix starts at holds the suffix's first element. -/
theorem getElem_of_drop_take {nodes rest : List α} {num i : Nat} {first : α}
    (suffix : (nodes.take num).drop i = first :: rest) :
    ∃ inside : i < nodes.length, i < num ∧ nodes[i] = first := by
  have bound : i < (nodes.take num).length := by
    have := congrArg List.length suffix
    simp only [List.length_drop, List.length_cons] at this
    omega
  refine ⟨by simp at bound; omega, by simp at bound; omega, ?_⟩
  have head := congrArg List.head? suffix
  rw [List.head?_drop, List.getElem?_take_of_lt (by simp at bound; omega),
    List.getElem?_eq_getElem (by simp at bound; omega)] at head
  simpa using head

/-- An odd count of live nodes leaves one node past the last pair: the one read at
`num - 1`. -/
theorem odd_live_last {nodes : List α} {num : Nat} (odd : num % 2 ≠ 0) (stored : num ≤ nodes.length) :
    ∃ last, readLive nodes num (num - 1) = .ok last ∧ (nodes.take num).drop (2 * (num / 2)) = [last] := by
  have inside : num - 1 < nodes.length := by omega
  refine ⟨nodes[num - 1], readLive_of_lt nodes num (num - 1) (by omega) inside, ?_⟩
  rw [show 2 * (num / 2) = num - 1 by omega, List.drop_take, List.drop_eq_getElem_cons inside,
    show num - (num - 1) = 0 + 1 by omega, List.take_succ_cons, List.take_zero]

/-- A write into the first unwritten slot of `temp_nodes`. -/
theorem writeLive_written (done : List α) (pad live : Nat) (next : α) (alive : done.length < live) :
    writeLive (done.map some ++ List.replicate (pad + 1) none) live done.length (some next) =
      .ok ((done ++ [next]).map some ++ List.replicate pad none) := by
  rw [writeLive_of_lt _ _ _ _ alive (by simp), List.set_append_right _ _ (by simp)]
  simp [List.replicate_succ]

/-- The pairing loop, from the round that starts at the live suffix `rest`, writes the pairs
of `rest` after the parents written so far. -/
theorem collapsePairs_run (nodes : List (MerkleNode Hash)) (num : Nat) (positive : 1 ≤ num)
    (stored : num ≤ nodes.length) (rest : List (MerkleNode Hash)) :
    ∀ done : List (MerkleNode Hash), (nodes.take num).drop (2 * done.length) = rest →
      collapsePairs combine nodes num (done.map some ++ List.replicate (num - done.length) none)
          done.length (2 * done.length) =
        .ok ((done ++ evenPairs (constructMerkleNode combine) rest).map some ++
            List.replicate (num - (done.length + rest.length / 2)) none,
          done.length + rest.length / 2) := by
  induction rest using evenPairs.induct (constructMerkleNode combine) with
  | case1 left right rest ih =>
    intro done suffix
    obtain ⟨leftInside, leftLive, leftAt⟩ := getElem_of_drop_take suffix
    have tail : (nodes.take num).drop (2 * done.length + 1) = right :: rest := by
      rw [← List.drop_drop, suffix]; rfl
    obtain ⟨rightInside, rightLive, rightAt⟩ := getElem_of_drop_take tail
    have room : num - done.length = (num - (done.length + 1)) + 1 := by omega
    have after : (nodes.take num).drop (2 * (done.length + 1)) = rest := by
      rw [show 2 * (done.length + 1) = 2 * done.length + 2 by omega, ← List.drop_drop 2, suffix]
      rfl
    have next := ih (done ++ [constructMerkleNode combine left right]) (by simpa using after)
    have loops : 2 * done.length < uint32Pred num := by
      rw [uint32Pred_of_pos positive]; omega
    rw [collapsePairs, if_pos loops]
    simp only [readLive_of_lt _ _ _ leftLive leftInside, readLive_of_lt _ _ _ rightLive rightInside,
      leftAt, rightAt, except_ok_bind, room,
      writeLive_written _ _ _ _ (show done.length < num by omega)]
    simp only [List.length_append, List.length_singleton] at next
    rw [show 2 * done.length + 2 = 2 * (done.length + 1) by omega, next]
    simp [evenPairs]
    constructor <;> omega
  | case2 rest notPair =>
    intro done suffix
    have short : rest.length ≤ 1 := by
      match rest, notPair with
      | [], _ | [_], _ => simp
      | _ :: _ :: _, notPair => exact absurd rfl (notPair _ _ _)
    have length := congrArg List.length suffix
    simp only [List.length_drop, List.length_take, min_eq_left stored] at length
    have stops : ¬ 2 * done.length < uint32Pred num := by
      rw [uint32Pred_of_pos positive]; omega
    rw [collapsePairs, if_neg stops]
    have noPairs : evenPairs (constructMerkleNode combine) rest = [] := by
      match rest, notPair with
      | [], _ | [_], _ => rfl
      | _ :: _ :: _, notPair => exact absurd rfl (notPair _ _ _)
    simp [noPairs, show rest.length / 2 = 0 by omega]

/-- One round of the copy-back loop moves the boundary between copied and old slots by one. -/
theorem set_take_append_drop (written nodes : List α) (j : Nat) (copying : j < written.length)
    (inside : j < nodes.length) :
    (written.take j ++ nodes.drop j).set j written[j] = written.take (j + 1) ++ nodes.drop (j + 1) := by
  have shorter : (written.take j).length = j := by simp only [List.length_take]; omega
  rw [List.set_append_right _ _ shorter.le, List.drop_eq_getElem_cons inside, List.take_succ,
    List.getElem?_eq_getElem copying, shorter, Nat.sub_self]
  simp only [List.set_cons_zero, Option.toList_some, List.append_assoc, List.singleton_append]

/-- The copy-back loop puts the parents written into `temp_nodes` in front of `nodes`. -/
theorem copyBack_run (written : List (MerkleNode Hash)) (pad num : Nat)
    (nodes : List (MerkleNode Hash)) (live : written.length ≤ num) (stored : num ≤ nodes.length) :
    copyBack (written.map some ++ List.replicate pad none) num written.length nodes =
      .ok (written ++ nodes.drop written.length) := by
  suffices copied : ∀ j ≤ written.length,
      (List.range j).foldlM (fun nodes i => do
        let slot ← readLive (written.map some ++ List.replicate pad none) num i
        let parent ← slot.elim (.error .outOfBounds) .ok
        writeLive nodes num i parent) nodes = .ok (written.take j ++ nodes.drop j) by
    simpa using copied written.length le_rfl
  intro j
  induction j with
  | zero => simp
  | succ j ih =>
    intro within
    have slotAt : (written.map some ++ List.replicate pad none)[j]? = some (some written[j]) := by
      rw [List.getElem?_append_left (by simp; omega)]
      simp [List.getElem?_eq_getElem (show j < written.length by omega)]
    have fits : j < (written.take j ++ nodes.drop j).length := by simp; omega
    rw [List.range_succ, List.foldlM_append, ih (by omega)]
    simp only [except_ok_bind, List.foldlM_cons, List.foldlM_nil, readLive, slotAt,
      show j < num by omega, if_true, Option.elim, writeLive_of_lt _ _ _ _ (show j < num by omega) fits,
      set_take_append_drop written nodes j (by omega) (by omega), except_pure]

/-- One call of `collapse_merkle_nodes` on `1 ≤ num_of_nodes` live nodes puts `pairUp` of them
in front of `nodes` and returns their count, without an access outside the live slots. -/
theorem collapseMerkleNodes_run (nodes : List (MerkleNode Hash)) (num : Nat) (positive : 1 ≤ num)
    (stored : num ≤ nodes.length) :
    collapseMerkleNodes combine nodes num =
      .ok (pairUp (constructMerkleNode combine) (nodes.take num) ++ nodes.drop ((num + 1) / 2),
        (num + 1) / 2) := by
  have pairs := collapsePairs_run combine nodes num positive stored (nodes.take num) []
    (by simp)
  simp only [List.map_nil, List.nil_append, List.length_nil, Nat.mul_zero, Nat.zero_add,
    Nat.sub_zero, List.length_take, min_eq_left stored] at pairs
  have live : (nodes.take num).length = num := by simp [stored]
  have shape := pairUp_eq_evenPairs (constructMerkleNode combine) (nodes.take num)
  rw [live] at shape
  unfold collapseMerkleNodes
  rw [pairs]
  simp only [except_ok_bind]
  by_cases odd : num % 2 ≠ 0
  · obtain ⟨last, lastRead, lastAt⟩ := odd_live_last odd stored
    rw [lastAt] at shape
    have room : num - num / 2 = (num - (num / 2 + 1)) + 1 := by omega
    have written := writeLive_written (evenPairs (constructMerkleNode combine) (nodes.take num))
      (num - (num / 2 + 1)) num (constructMerkleNode combine last last) (by simp; omega)
    simp only [length_evenPairs, live] at written
    simp only [if_pos odd, lastRead, except_ok_bind, room, written, except_pure]
    have copied := copyBack_run ((evenPairs (constructMerkleNode combine) (nodes.take num)) ++
      [constructMerkleNode combine last last]) (num - (num / 2 + 1)) num nodes
      (by simp [stored]; omega) stored
    simp only [List.length_append, length_evenPairs, live, List.length_singleton] at copied
    rw [show (num + 1) / 2 = num / 2 + 1 by omega, copied, shape]
    simp
  · have noTail : (nodes.take num).drop (2 * (num / 2)) = [] :=
      List.drop_eq_nil_of_le (by simp [stored]; omega)
    rw [noTail, List.map_nil, List.append_nil] at shape
    have copied := copyBack_run (evenPairs (constructMerkleNode combine) (nodes.take num))
      (num - num / 2) num nodes (by simp [stored]; omega) stored
    simp only [length_evenPairs, live] at copied
    simp only [if_neg odd, except_pure, except_ok_bind]
    rw [show (num + 1) / 2 = num / 2 by omega, copied, shape]
    rfl

/-- `rounds` rounds of the `while` loop leave the level reached after `rounds` climbs in front
of `nodes`, its length in `num_of_nodes`. -/
theorem collapseWhile_run (rounds : Nat) : ∀ (nodes : List (MerkleNode Hash)) (num : Nat),
    1 ≤ num → num ≤ nodes.length →
      ∃ stale, collapseWhile combine rounds nodes num =
        .ok (climb (constructMerkleNode combine) rounds (nodes.take num) ++ stale,
          (climb (constructMerkleNode combine) rounds (nodes.take num)).length) := by
  induction rounds with
  | zero => exact fun nodes num _ stored => ⟨nodes.drop num, by simp [collapseWhile, climb, stored]⟩
  | succ rounds ih =>
    intro nodes num positive stored
    by_cases more : 1 < num
    · let parents := pairUp (constructMerkleNode combine) (nodes.take num)
      have counted : parents.length = (num + 1) / 2 := by simp [parents, stored]
      obtain ⟨stale, run⟩ := ih (parents ++ nodes.drop ((num + 1) / 2)) ((num + 1) / 2)
        (by omega) (by simp [counted])
      have front : (parents ++ nodes.drop ((num + 1) / 2)).take ((num + 1) / 2) = parents :=
        List.take_left' counted
      refine ⟨stale, ?_⟩
      simp only [collapseWhile, if_pos more, collapseMerkleNodes_run combine nodes num positive stored,
        except_ok_bind]
      rw [run, front]
      simp [climb, stored, more, parents]
    · exact ⟨nodes.drop num, by simp [collapseWhile, climb, more, stored]⟩

/-- `construct_merkle_tree_from_leaves` on `n ≥ 1` hashes returns the one node its `num_of_hashes`
rounds leave over the leaves it copied. -/
theorem constructMerkleTreeFromLeaves_eq (hashes : List Hash) (nonempty : hashes ≠ []) :
    ∃ root, climb (constructMerkleNode combine) hashes.length ((leafHashes hashes).map .leaf) =
        [root] ∧ constructMerkleTreeFromLeaves combine hashes = .ok (some ⟨root⟩) := by
  have positive : 1 ≤ hashes.length := List.length_pos.mpr nonempty
  obtain ⟨stale, run⟩ := collapseWhile_run combine hashes.length ((leafHashes hashes).map .leaf)
    hashes.length positive (by simp)
  rw [List.take_of_length_le (by simp)] at run
  have single := length_climb_length (constructMerkleNode combine) ((leafHashes hashes).map .leaf)
    (by simpa using positive)
  rw [List.length_map, length_leafHashes] at single
  obtain ⟨root, isRoot⟩ := List.length_eq_one.mp single
  exact ⟨root, isRoot, by simp [constructMerkleTreeFromLeaves, constructMerkleLeavesFromHashes,
    show ¬ hashes.length < 1 by omega, run, isRoot, readLive]⟩

/-- The tree `construct_merkle_tree_from_leaves` returns on `n ≥ 1` hashes has the root hash
`merkleRef` of the hashes its leaves copied. -/
theorem constructMerkleTreeFromLeaves_merkleRef (hashes : List Hash) (nonempty : hashes ≠ []) :
    ∃ tree, constructMerkleTreeFromLeaves combine hashes = .ok (some tree) ∧
      merkleRef combine (leafHashes hashes) = some tree.root.hash := by
  obtain ⟨root, isRoot, built⟩ := constructMerkleTreeFromLeaves_eq combine hashes nonempty
  refine ⟨⟨root⟩, built, ?_⟩
  have rootHash := map_hash_climb combine hashes.length ((leafHashes hashes).map .leaf)
  rw [isRoot, List.map_map] at rootHash
  simp only [Function.comp_def, MerkleNode.hash, List.map_id'] at rootHash
  rw [← merkleRef_climb combine hashes.length (leafHashes hashes), ← rootHash]
  simp [merkleRef, MerkleNode.hash]

/-- `construct_merkle_tree_from_leaves` on `n` hashes, `1 ≤ n ≤ 2 ^ 27`: after `rounds` rounds
its `while` loop still goes on exactly when `rounds < ⌈log₂ n⌉`, no round reads or writes
outside the live slots, and the tree it returns has the root hash `merkleRef` of the hashes. -/
theorem constructMerkleTreeFromLeaves_root (hashes : List Hash) (nonempty : hashes ≠ [])
    (bounded : hashes.length ≤ 2 ^ 27) :
    (∀ rounds, ∃ nodes num,
      collapseWhile combine rounds (constructMerkleLeavesFromHashes hashes).1 hashes.length =
          .ok (nodes, num) ∧
        (1 < num ↔ rounds < Nat.clog 2 hashes.length)) ∧
    ∃ tree, constructMerkleTreeFromLeaves combine hashes = .ok (some tree) ∧
      merkleRef combine hashes = some tree.root.hash := by
  have positive : 1 ≤ hashes.length := List.length_pos.mpr nonempty
  have copied := leafHashes_of_length_le hashes bounded
  refine ⟨fun rounds => ?_, by
    simpa [copied] using constructMerkleTreeFromLeaves_merkleRef combine hashes nonempty⟩
  obtain ⟨stale, run⟩ := collapseWhile_run combine rounds (hashes.map .leaf) hashes.length
    positive (by simp)
  rw [List.take_of_length_le (by simp)] at run
  have going := one_lt_length_climb_iff (constructMerkleNode combine) rounds (hashes.map .leaf)
    (by simpa using positive)
  rw [List.length_map] at going
  exact ⟨_, _, by rw [constructMerkleLeavesFromHashes, copied, run], going⟩

end Engine

/-- The spec's three-leaf case, with sums for node hashes. -/
theorem constructMerkleTreeFromLeaves_root_three :
    (∀ rounds, ∃ nodes num,
      collapseWhile (· + ·) rounds (constructMerkleLeavesFromHashes [1, 2, 3]).1 3 =
          .ok (nodes, num) ∧
        (1 < num ↔ rounds < Nat.clog 2 3)) ∧
    ∃ tree, constructMerkleTreeFromLeaves (· + ·) [1, 2, 3] = .ok (some tree) ∧
      merkleRef (· + ·) [1, 2, 3] = some tree.root.hash :=
  constructMerkleTreeFromLeaves_root (· + ·) [1, 2, 3] (by simp) (by decide)

end VulkanCore
