import VulkanCore.Verif.MerkleRoot
import VulkanCore.Verif.WellFormed

/-!
# The Merkle root of a block

`compute_merkle_root` writes the id of each transaction into a buffer at `HASH_SIZE * i` and
builds the tree over the buffer. Both the size of the buffer and the offsets are `uint32_t`
products. Below `2 ^ 27` transactions neither wraps and the root written is `merkleRef` of the
ids in block order (`computeMerkleRoot_eq`). From `2 ^ 27` on the buffer is `HASH_SIZE` times the
count modulo `2 ^ 32` bytes long, shorter than the ids, and the loop writes past its end
(`computeMerkleRoot_overflows`). Whatever the count, a root is only ever written from the ids
(`computeMerkleRoot_eq_ok_some`).
-/

namespace VulkanCore

section Model

variable {Hash : Type} (crypto : Crypto Hash)

/-- `compute_tx_id(transactions[i])` for each `i` below the count, in block order; `none` when a
slot is null or an id cannot be computed. -/
def Block.txIds (block : Block Hash) : Option (List Hash) :=
  (List.range block.transactionCount.toNat).mapM fun i => (block.tx i).bind (computeTxId crypto)

/-- A read of every slot through the `Option` monad returns one value per slot. -/
theorem length_of_mapM_eq_some {β : Type} (g : Nat → Option β) (indices : List Nat)
    (found : List β) (read : indices.mapM g = some found) : found.length = indices.length := by
  induction indices generalizing found with
  | nil =>
    simp only [List.mapM_nil, Option.pure_def, Option.some.injEq] at read
    simp [← read]
  | cons i rest ih =>
    rw [List.mapM_cons] at read
    cases present : g i with
    | none => simp [present] at read
    | some value =>
      cases later : rest.mapM g with
      | none =>
        simp only [present, later, Option.bind_eq_bind, Option.some_bind, Option.none_bind,
          reduceCtorEq] at read
      | some values =>
        simp only [present, later, Option.bind_eq_bind, Option.some_bind, Option.pure_def,
          Option.some.injEq] at read
        simp [← read, ih values later]

variable (block : Block Hash) (capacity : Nat)

/-- A round of the leaf loop at a slot holding a transaction: compute its id and write it, or
stop with 1 when it has none. -/
theorem computeLeaves_cons_of_tx {i : Nat} {tx : Transaction Hash} (rest : List Nat)
    (found : block.tx i = some tx) :
    computeLeaves crypto block capacity (i :: rest) =
      match computeTxId crypto tx with
      | none => .ok none
      | some id =>
        if capacity < (hashSize * i) % 2 ^ 32 + hashSize then .error .outOfBounds
        else (computeLeaves crypto block capacity rest).map (Option.map (id :: ·)) := by
  rw [computeLeaves, (block.assertTx_eq_ok i tx).mpr found, except_ok_bind]
  rfl

/-- When the leaf loop ends with every id written, those are the ids of the slots it visited. -/
theorem computeLeaves_eq_ok_some (indices : List Nat) (hashes : List Hash)
    (computed : computeLeaves crypto block capacity indices = .ok (some hashes)) :
    indices.mapM (fun i => (block.tx i).bind (computeTxId crypto)) = some hashes := by
  induction indices generalizing hashes with
  | nil =>
    simp only [computeLeaves, Except.ok.injEq, Option.some.injEq] at computed
    subst computed
    rfl
  | cons i rest ih =>
    rw [List.mapM_cons]
    cases read : block.assertTx i with
    | error fault => simp [computeLeaves, read] at computed
    | ok tx =>
      have found := (block.assertTx_eq_ok i tx).mp read
      rw [computeLeaves_cons_of_tx crypto block capacity rest found] at computed
      cases id : computeTxId crypto tx with
      | none => simp only [id, Except.ok.injEq, reduceCtorEq] at computed
      | some id' =>
        simp only [id] at computed
        split at computed
        · cases computed
        · cases later : computeLeaves crypto block capacity rest with
          | error fault => simp only [later, except_map_error, reduceCtorEq] at computed
          | ok found' =>
            cases found' with
            | none =>
              simp only [later, except_map_ok, Option.map_none', Except.ok.injEq,
                reduceCtorEq] at computed
            | some values =>
              simp only [later, except_map_ok, Option.map_some', Except.ok.injEq,
                Option.some.injEq] at computed
              simp [found, id, ih values later, ← computed, -List.mapM]

/-- The leaf loop over slots that are all present, each with room for its id: it collects the
ids, or stops with 1 at the first that cannot be computed. -/
theorem computeLeaves_of_room (indices : List Nat)
    (present : ∀ i ∈ indices, (block.tx i).isSome)
    (room : ∀ i ∈ indices, (hashSize * i) % 2 ^ 32 + hashSize ≤ capacity) :
    computeLeaves crypto block capacity indices =
      .ok (indices.mapM fun i => (block.tx i).bind (computeTxId crypto)) := by
  induction indices with
  | nil => rfl
  | cons i rest ih =>
    obtain ⟨tx, found⟩ := Option.isSome_iff_exists.mp (present i (List.mem_cons_self _ _))
    rw [List.mapM_cons, computeLeaves_cons_of_tx crypto block capacity rest found, found]
    cases id : computeTxId crypto tx with
    | none => simp [id, -List.mapM]
    | some id' =>
      simp only [id, if_neg (not_lt.mpr (room i (List.mem_cons_self _ _))),
        ih (fun j mem => present j (List.mem_cons_of_mem _ mem))
          (fun j mem => room j (List.mem_cons_of_mem _ mem)), except_map_ok,
        Option.bind_eq_bind, Option.some_bind]
      cases rest.mapM fun i => (block.tx i).bind (computeTxId crypto) <;> rfl

/-- The leaf loop reaching a present slot whose id does not fit stops writing past the end. -/
theorem computeLeaves_of_no_room (i : Nat) (rest : List Nat) (tx : Transaction Hash) (id : Hash)
    (found : block.tx i = some tx) (computed : computeTxId crypto tx = some id)
    (full : capacity < (hashSize * i) % 2 ^ 32 + hashSize) :
    computeLeaves crypto block capacity (i :: rest) = .error .outOfBounds := by
  rw [computeLeaves_cons_of_tx crypto block capacity rest found]
  simp only [computed, if_pos full]

/-- The leaf loop over visited slots with room and computed ids goes on with the rest. -/
theorem computeLeaves_append (front rest : List Nat) (ids : List Hash)
    (present : ∀ i ∈ front, (block.tx i).isSome)
    (room : ∀ i ∈ front, (hashSize * i) % 2 ^ 32 + hashSize ≤ capacity)
    (computed : front.mapM (fun i => (block.tx i).bind (computeTxId crypto)) = some ids) :
    computeLeaves crypto block capacity (front ++ rest) =
      (computeLeaves crypto block capacity rest).map (Option.map (ids ++ ·)) := by
  induction front generalizing ids with
  | nil =>
    simp only [List.mapM_nil, Option.pure_def, Option.some.injEq] at computed
    subst computed
    rw [List.nil_append]
    cases computeLeaves crypto block capacity rest with
    | error fault => rfl
    | ok found => cases found <;> rfl
  | cons i front ih =>
    obtain ⟨tx, found⟩ := Option.isSome_iff_exists.mp (present i (List.mem_cons_self _ _))
    rw [List.mapM_cons] at computed
    cases id : computeTxId crypto tx with
    | none => simp [found, id] at computed
    | some id' =>
      cases later : front.mapM fun i => (block.tx i).bind (computeTxId crypto) with
      | none =>
        simp only [found, id, later, Option.some_bind, Option.bind_eq_bind, Option.none_bind,
          reduceCtorEq] at computed
      | some values =>
        simp only [found, id, later, Option.some_bind, Option.bind_eq_bind, Option.pure_def,
          Option.some.injEq] at computed
        subst computed
        rw [List.cons_append, computeLeaves_cons_of_tx crypto block capacity _ found]
        simp only [id, if_neg (not_lt.mpr (room i (List.mem_cons_self _ _))), ih values
          (fun j mem => present j (List.mem_cons_of_mem _ mem))
          (fun j mem => room j (List.mem_cons_of_mem _ mem)) later]
        cases computeLeaves crypto block capacity rest with
        | error fault => rfl
        | ok found => cases found <;> rfl

/-- A root written by `compute_merkle_root` is the root of the tree built over the ids of the
block's transactions. -/
theorem computeMerkleRoot_eq_ok_some (root : Hash)
    (computed : computeMerkleRoot crypto block = .ok (some root)) :
    ∃ ids tree, block.txIds crypto = some ids ∧
      constructMerkleTreeFromLeaves crypto.merkleNodeHash ids = .ok (some tree) ∧
      root = tree.root.hash := by
  simp only [computeMerkleRoot, -Nat.reducePow] at computed
  cases leaves : computeLeaves crypto block ((hashSize * block.transactionCount.toNat) % 2 ^ 32)
      (List.range block.transactionCount.toNat) with
  | error fault => rw [leaves] at computed; simp at computed
  | ok found =>
    rw [leaves] at computed
    cases found with
    | none => simp at computed
    | some ids =>
      cases built : constructMerkleTreeFromLeaves crypto.merkleNodeHash ids with
      | error fault => simp [built] at computed
      | ok tree =>
        cases tree with
        | none => simp [built] at computed
        | some tree =>
          simp only [built, except_ok_bind, except_pure, Except.ok.injEq,
            Option.some.injEq] at computed
          exact ⟨ids, tree, computeLeaves_eq_ok_some crypto block _ _ ids leaves, built,
            computed.symm⟩

/-- A slot that holds a transaction whose id computes gives a leaf. -/
theorem leaf_isSome {block : Block Hash} {i : Nat}
    (computes : ∃ tx, block.tx i = some tx ∧ (computeTxId crypto tx).isSome) :
    ((block.tx i).bind (computeTxId crypto)).isSome := by
  obtain ⟨tx, found, isSome⟩ := computes
  simpa [found] using isSome

/-- Below `2 ^ 27` transactions, all present, `compute_merkle_root` builds its tree over the ids
of the transactions, in block order, and writes that tree's root, which is `merkleRef` of the
ids. -/
theorem computeMerkleRoot_of_txIds (nonempty : 1 ≤ block.transactionCount.toNat)
    (small : block.transactionCount.toNat < 2 ^ 27) (wellFormed : block.WellFormed)
    {ids : List Hash} (read : block.txIds crypto = some ids) :
    ∃ tree, constructMerkleTreeFromLeaves crypto.merkleNodeHash ids = .ok (some tree) ∧
      merkleRef crypto.merkleNodeHash ids = some tree.root.hash ∧
      computeMerkleRoot crypto block = .ok (some tree.root.hash) := by
  have present : ∀ i ∈ List.range block.transactionCount.toNat, (block.tx i).isSome :=
    fun i mem => wellFormed i (List.mem_range.mp mem)
  have room : ∀ i ∈ List.range block.transactionCount.toNat,
      (hashSize * i) % 2 ^ 32 + hashSize ≤ (hashSize * block.transactionCount.toNat) % 2 ^ 32 := by
    intro i mem
    have below := List.mem_range.mp mem
    rw [hashSize, Nat.mod_eq_of_lt (by omega), Nat.mod_eq_of_lt (by omega)]
    omega
  have counted := length_of_mapM_eq_some _ _ _ read
  have nonemptyIds : ids ≠ [] := by
    rintro rfl
    simp at counted
    omega
  obtain ⟨tree, built, isRef⟩ :=
    constructMerkleTreeFromLeaves_merkleRef crypto.merkleNodeHash ids nonemptyIds
  rw [leafHashes_of_length_le ids (by rw [counted, List.length_range]; omega)] at isRef
  refine ⟨tree, built, isRef, ?_⟩
  simp only [computeMerkleRoot, -Nat.reducePow]
  rw [Block.txIds] at read
  rw [computeLeaves_of_room crypto block _ _ present room, read]
  simp [built]

/-- Below `2 ^ 27` transactions, each present and with an id that computes,
`compute_merkle_root` writes `merkleRef` of the ids, in block order. -/
theorem computeMerkleRoot_eq (nonempty : 1 ≤ block.transactionCount.toNat)
    (small : block.transactionCount.toNat < 2 ^ 27)
    (computes : ∀ i < block.transactionCount.toNat,
      ∃ tx, block.tx i = some tx ∧ (computeTxId crypto tx).isSome) :
    ∃ ids root, block.txIds crypto = some ids ∧ merkleRef crypto.merkleNodeHash ids = some root ∧
      computeMerkleRoot crypto block = .ok (some root) := by
  obtain ⟨ids, read⟩ := mapM_eq_some_of_isSome _ _ fun i mem =>
    leaf_isSome crypto (computes i (List.mem_range.mp mem))
  have wellFormed : block.WellFormed := fun i below => by
    obtain ⟨tx, found, -⟩ := computes i below
    simp [found]
  obtain ⟨tree, -, isRef, computed⟩ :=
    computeMerkleRoot_of_txIds crypto block nonempty small wellFormed read
  exact ⟨ids, tree.root.hash, read, isRef, computed⟩

/-- From `2 ^ 27` transactions on, each present and with an id that computes, the leaf loop
writes an id past the end of its buffer: the buffer is `HASH_SIZE` times the count modulo
`2 ^ 32` bytes long, and the id of the transaction at that many slots does not fit. -/
theorem computeLeaves_overflows (large : 2 ^ 27 ≤ block.transactionCount.toNat)
    (computes : ∀ i < block.transactionCount.toNat,
      ∃ tx, block.tx i = some tx ∧ (computeTxId crypto tx).isSome) :
    computeLeaves crypto block ((hashSize * block.transactionCount.toNat) % 2 ^ 32)
      (List.range block.transactionCount.toNat) = .error .outOfBounds := by
  obtain ⟨first, isFirst⟩ : ∃ first, first = block.transactionCount.toNat % 2 ^ 27 := ⟨_, rfl⟩
  have firstBelow : first < block.transactionCount.toNat := by omega
  have capacity : (hashSize * block.transactionCount.toNat) % 2 ^ 32 = hashSize * first := by
    rw [hashSize, isFirst, show (2 : Nat) ^ 32 = 32 * 2 ^ 27 by norm_num, Nat.mul_mod_mul_left]
  obtain ⟨rest, split⟩ : ∃ rest,
      List.range block.transactionCount.toNat = List.range first ++ first :: rest := by
    obtain ⟨later, more⟩ : ∃ later, block.transactionCount.toNat = first + (later + 1) :=
      ⟨block.transactionCount.toNat - first - 1, by omega⟩
    refine ⟨((List.range later).map Nat.succ).map (first + ·), ?_⟩
    rw [more, List.range_add, List.range_succ_eq_map]
    rfl
  have frontPresent : ∀ i ∈ List.range first, (block.tx i).isSome := by
    intro i mem
    obtain ⟨tx, found, -⟩ := computes i (by have := List.mem_range.mp mem; omega)
    simp [found]
  have frontRoom : ∀ i ∈ List.range first,
      (hashSize * i) % 2 ^ 32 + hashSize ≤ (hashSize * block.transactionCount.toNat) % 2 ^ 32 := by
    intro i mem
    have below := List.mem_range.mp mem
    rw [capacity, hashSize, Nat.mod_eq_of_lt (by omega)]
    omega
  obtain ⟨ids, read⟩ := mapM_eq_some_of_isSome _ (List.range first) fun i mem =>
    leaf_isSome crypto (computes i (by have := List.mem_range.mp mem; omega))
  obtain ⟨tx, found, computed⟩ := computes first firstBelow
  obtain ⟨id, computed⟩ := Option.isSome_iff_exists.mp computed
  have full : (hashSize * block.transactionCount.toNat) % 2 ^ 32 <
      (hashSize * first) % 2 ^ 32 + hashSize := by
    rw [capacity, hashSize, Nat.mod_eq_of_lt (by omega)]
    omega
  rw [split, computeLeaves_append crypto block _ _ _ ids frontPresent frontRoom read,
    computeLeaves_of_no_room crypto block _ first rest tx id found computed full]
  rfl

/-- From `2 ^ 27` transactions on, each present and with an id that computes,
`compute_merkle_root` writes an id past the end of its buffer instead of computing a root. -/
theorem computeMerkleRoot_overflows (large : 2 ^ 27 ≤ block.transactionCount.toNat)
    (computes : ∀ i < block.transactionCount.toNat,
      ∃ tx, block.tx i = some tx ∧ (computeTxId crypto tx).isSome) :
    computeMerkleRoot crypto block = .error .outOfBounds := by
  simp only [computeMerkleRoot, -Nat.reducePow]
  rw [computeLeaves_overflows crypto block large computes]
  rfl

/-- `compute_merkle_root` writes a root only below `2 ^ 27` transactions. -/
theorem transactionCount_lt_of_computeMerkleRoot {root : Hash}
    (computed : computeMerkleRoot crypto block = .ok (some root)) :
    block.transactionCount.toNat < 2 ^ 27 := by
  by_contra large
  obtain ⟨ids, tree, read, -, -⟩ := computeMerkleRoot_eq_ok_some crypto block root computed
  have computes : ∀ i < block.transactionCount.toNat,
      ∃ tx, block.tx i = some tx ∧ (computeTxId crypto tx).isSome := fun i below => by
    obtain ⟨id, leaf⟩ := Option.isSome_iff_exists.mp
      (isSome_of_mapM_eq_some _ _ _ read i (List.mem_range.mpr below))
    obtain ⟨tx, found, hashed⟩ := Option.bind_eq_some.mp leaf
    exact ⟨tx, found, by simp [hashed]⟩
  rw [computeMerkleRoot_overflows crypto block (by omega) computes] at computed
  cases computed

end Model

/-- Three transactions under 32-byte hashes: a round that pairs the first two and the third with
itself, then one round for the root. -/
theorem computeMerkleRoot_eq_sampleBlock :
    ∃ ids root, (sampleBlock 3).txIds Crypto.truncating = some ids ∧
      merkleRef Crypto.truncating.merkleNodeHash ids = some root ∧
      computeMerkleRoot Crypto.truncating (sampleBlock 3) = .ok (some root) :=
  computeMerkleRoot_eq Crypto.truncating (sampleBlock 3) (by decide) (by decide)
    fun i below => ⟨sampleTx i, sampleBlock_tx 3 (by decide) i below, rfl⟩

/-- The sample block of `2 ^ 27` transactions gets a buffer of no bytes, and the first id is
written past its end. -/
theorem computeMerkleRoot_overflows_at_two_pow :
    2 ^ 27 ≤ (sampleBlock (2 ^ 27)).transactionCount.toNat ∧
      computeMerkleRoot Crypto.truncating (sampleBlock (2 ^ 27)) = .error .outOfBounds := by
  have large : 2 ^ 27 ≤ (sampleBlock (2 ^ 27)).transactionCount.toNat := by decide
  exact ⟨large, computeMerkleRoot_overflows Crypto.truncating (sampleBlock (2 ^ 27)) large
    fun i below => ⟨sampleTx i, sampleBlock_tx _ (by decide) i below, rfl⟩⟩

end VulkanCore
