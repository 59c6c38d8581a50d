import Mathlib.Algebra.BigOperators.Group.List
import Mathlib.Data.List.Nodup
import VulkanCore.Verif.MerkleCommitment
import VulkanCore.Verif.BlockHash

/-!
# The size check of `valid_block`

`get_block_header_size` adds the header size of each transaction to `BLOCK_HEADER_SIZE` in a
`uint32_t`, so the size `valid_block` compares with `MAX_BLOCK_SIZE` is the exact size modulo
`2 ^ 32` (`validBlock_size_check_wraps`). A block whose headers add up to `2 ^ 32` bytes or more
passes the check with what is left over. The second half of this module builds one under hashes of
`HASH_SIZE` bytes: a coinbase and 233,931 transactions of 255 inputs and 255 outputs each,
4,294,973,324 bytes of headers, which `valid_block` accepts under a limit of a million bytes,
because the accumulator ends at 6,028. What does bound the count of an accepted block is the
Merkle root check: `compute_merkle_root` faults from `2 ^ 27` transactions on, so its `uint32_t`
products do not wrap on a block `valid_block` accepts (`validBlock_transactionCount_lt`).
-/

namespace VulkanCore

/-- A `uint32_t` accumulator ends at the exact sum modulo `2 ^ 32`. -/
theorem foldl_uint32_add {α : Type} (f : α → UInt32) (xs : List α) (start : UInt32) :
    (xs.foldl (fun total x => total + f x) start).toNat =
      (start.toNat + (xs.map fun x => (f x).toNat).sum) % 2 ^ 32 := by
  induction xs generalizing start with
  | nil => simpa using (Nat.mod_eq_of_lt start.toNat_lt_size).symm
  | cons x xs ih =>
    rw [List.foldl_cons, ih, uint32_toNat_add, List.map_cons, List.sum_cons, Nat.mod_add_mod,
      Nat.add_assoc]

section Model

variable {Hash : Type} (params : Parameters) (crypto : Crypto Hash)

/-- `BLOCK_HEADER_SIZE` plus the header size of each transaction below the count, summed without
a bound. -/
def Block.headerSizeSum (block : Block Hash) : Nat :=
  blockHeaderSize + (block.listed.map fun tx => (getTxHeaderSize tx).toNat).sum

/-- `get_block_header_size` of a well-formed block is its exact header size modulo `2 ^ 32`. -/
theorem getBlockHeaderSize_toNat {block : Block Hash} (wellFormed : block.WellFormed) :
    ∃ size, getBlockHeaderSize block = .ok size ∧ size.toNat = block.headerSizeSum % 2 ^ 32 := by
  refine ⟨_, block.getBlockHeaderSize_of_wellFormed wellFormed, ?_⟩
  rw [foldl_uint32_add, UInt32.toNat_ofNat_of_lt (by decide)]
  rfl

/-- On a well-formed block, what `valid_block` compares with `MAX_BLOCK_SIZE` is the exact header
size modulo `2 ^ 32`: the block is accepted exactly when the other checks pass and what is left
of its size once the `uint32_t` has wrapped fits the limit. -/
theorem validBlock_size_check_wraps [DecidableEq Hash] (now : Nat) (fresh : Bytes) (block : Block Hash)
    (wellFormed : block.WellFormed) :
    validBlock params crypto now fresh block = .ok true ↔
      validBlockTimestamp params now block = true ∧ 1 ≤ block.transactionCount.toNat ∧
      (∃ coinbase, block.tx 0 = some coinbase ∧ isCoinbaseTx crypto coinbase = true) ∧
      validBlockTransactions crypto block = .ok true ∧
      block.headerSizeSum % 2 ^ 32 ≤ params.maxBlockSize ∧
      validBlockHash params crypto fresh block = true ∧ validMerkleRoot crypto block = .ok true := by
  obtain ⟨size, found, wrapped⟩ := getBlockHeaderSize_toNat wellFormed
  have checked : (∃ size, getBlockHeaderSize block = .ok size ∧
      size.toNat ≤ params.maxBlockSize) ↔ block.headerSizeSum % 2 ^ 32 ≤ params.maxBlockSize := by
    simp only [found, Except.ok.injEq, exists_eq_left', wrapped]
  rw [validBlock_eq_ok_true, checked]

/-- What bounds the count of a block `valid_block` accepts is the Merkle root check, not the size
check: it has fewer than `2 ^ 27` transactions, so the `uint32_t` products `HASH_SIZE *
transaction_count` and `HASH_SIZE * i` of `compute_merkle_root` do not wrap on it. -/
theorem validBlock_transactionCount_lt [DecidableEq Hash] {now : Nat} {fresh : Bytes}
    {block : Block Hash} (valid : validBlock params crypto now fresh block = .ok true) :
    block.transactionCount.toNat < 2 ^ 27 ∧ hashSize * block.transactionCount.toNat < 2 ^ 32 := by
  have bounded := transactionCount_lt_of_computeMerkleRoot crypto block
    (computeMerkleRoot_of_validBlock params crypto valid)
  exact ⟨bounded, by rw [hashSize]; omega⟩

/-- `compute_block_hash` does not read the hash field. -/
theorem computeBlockHash_with_hash (fresh : Bytes) (block : Block Hash) (hash : Hash) :
    computeBlockHash crypto fresh { block with hash := hash } = computeBlockHash crypto fresh block :=
  rfl

end Model

/-- The two-transaction block `valid_block` accepts under `delimitedCrypto`. -/
theorem validBlock_transactionCount_lt_twoTxBlock :
    validBlock delimitedParams delimitedCrypto 0 (List.replicate 92 0) (twoTxBlock [7]) = .ok true ∧
      (twoTxBlock [7]).transactionCount.toNat < 2 ^ 27 ∧
      hashSize * (twoTxBlock [7]).transactionCount.toNat < 2 ^ 32 :=
  ⟨twoTxBlock_seven_valid,
    validBlock_transactionCount_lt delimitedParams delimitedCrypto twoTxBlock_seven_valid⟩

/-! ## A block of four gigabytes of headers that `valid_block` accepts -/

/-- A network whose blocks may be a million bytes and whose proof-of-work limit admits every
hash of `HASH_SIZE` bytes. -/
def millionParams : Parameters := ⟨1, 1000000, 7200, 256 ^ 32⟩

/-- The id of the transaction whose outputs the `k`-th wide transaction spends: `k + 1` in its
first four bytes. -/
def fundingId (k : Nat) : Digest := Digest.ofBytes (bufferWriteUint32 (UInt32.ofNat (k + 1)))

/-- Input `j` of the `k`-th wide transaction: output `j` of `fundingId k`. -/
def wideInput (k j : Nat) : InputTransaction Digest := ⟨fundingId k, UInt32.ofNat j, [], []⟩

/-- An output of one unit to the empty address. -/
def unitOutput : OutputTransaction := ⟨1, []⟩

/-- The signing preimage of the `k`-th wide transaction. -/
def widePreimage (k : Nat) : Bytes :=
  ((List.range 255).map (wideInput k)).flatMap (getTxinHeader Crypto.truncating) ++
    ((List.range 255).map fun _ => unitOutput).flatMap getTxoutHeader

/-- The `k`-th wide transaction: 255 inputs and 255 outputs, the most a `uint8_t` count allows,
and the id `compute_tx_id` gives it. -/
def wideTx (k : Nat) : Transaction Digest where
  id := Crypto.truncating.sha256d (widePreimage k)
  txinCount := 255
  txoutCount := 255
  txins := (List.range 255).map fun j => some (wideInput k j)
  txouts := (List.range 255).map fun _ => some unitOutput

/-- The coinbase input. -/
def coinbaseInput : InputTransaction Digest := ⟨Crypto.truncating.zeroHash, 0xFFFFFFFF, [], []⟩

/-- A coinbase of one output, with the id `compute_tx_id` gives it. -/
def unitCoinbase : Transaction Digest where
  id := Crypto.truncating.sha256d
    (getTxinHeader Crypto.truncating coinbaseInput ++ getTxoutHeader unitOutput)
  txinCount := 1
  txoutCount := 1
  txins := [some coinbaseInput]
  txouts := [some unitOutput]

/-- The transactions of the block: the coinbase, then the wide transactions. -/
def wrapTx : Nat → Transaction Digest
  | 0 => unitCoinbase
  | k + 1 => wideTx k

/-- The number of wide transactions: enough for the headers to pass `2 ^ 32` bytes. -/
def spendCount : Nat := 233931

/-- The ids of the block's transactions, in order. -/
def wrapIds : List Digest := (List.range (spendCount + 1)).map fun i => (wrapTx i).id

/-- The root hash of a built tree, the zero hash when none was built. -/
def builtRoot : Except Fault (Option (MerkleTree Digest)) → Digest
  | .ok (some tree) => tree.root.hash
  | _ => Crypto.truncating.zeroHash

/-- The root of the tree over the block's ids. -/
def wrapRoot : Digest :=
  builtRoot (constructMerkleTreeFromLeaves Crypto.truncating.merkleNodeHash wrapIds)

/-- The block before its hash is computed. -/
def wrapHeader : Block Digest :=
  { makeBlock millionParams Crypto.truncating with
    bits := 0x23000001,
    merkleRoot := wrapRoot,
    transactionCount := UInt32.ofNat (spendCount + 1),
    transactions := some ((List.range (spendCount + 1)).map fun i => some (wrapTx i)) }

/-- What the buffer of `compute_block_hash` holds before the header is written: zeros. -/
def zeroFresh : Bytes := List.replicate blockHeaderSize 0

/-- The block, with the hash `compute_block_hash` gives it. -/
def wrapBlock : Block Digest :=
  { wrapHeader with hash := computeBlockHash Crypto.truncating zeroFresh wrapHeader }

section Fixture

/-! Each check of `valid_block` on the block, proved for every index at once: the block is far
too large to evaluate. -/

/-- Hashes written as a `uint32_t` and zeros are equal only for equal numbers. -/
theorem ofBytes_bufferWriteUint32_inj {value other : UInt32}
    (same : Digest.ofBytes (bufferWriteUint32 value) = Digest.ofBytes (bufferWriteUint32 other)) :
    value = other := by
  have bytes := congrArg Subtype.val same
  simp only [Digest.ofBytes, hashSize, List.take_append_eq_append_take, bufferWriteUint32_length,
    List.take_of_length_le (show (bufferWriteUint32 _).length ≤ 32 by simp)] at bytes
  exact bufferWriteUint32_append_inj bytes

/-- Different wide transactions spend from different transactions. -/
theorem fundingId_inj {k k' : Nat} (small : k < spendCount) (small' : k' < spendCount)
    (same : fundingId k = fundingId k') : k = k' := by
  unfold spendCount at small small'
  have words := uint32_ofNat_inj (by omega) (by omega) (ofBytes_bufferWriteUint32_inj same)
  omega

/-- No wide transaction spends from the zero hash, which the coinbase input names. -/
theorem zeroHash_ne_fundingId {k : Nat} (small : k < spendCount) :
    Crypto.truncating.zeroHash ≠ fundingId k := fun same => by
  have zero : Crypto.truncating.zeroHash = Digest.ofBytes (bufferWriteUint32 (UInt32.ofNat 0)) := by
    decide
  unfold spendCount at small
  have words := uint32_ofNat_inj (by omega) (by omega) (ofBytes_bufferWriteUint32_inj (zero ▸ same))
  omega

/-- The inputs of the wide transactions spend pairwise different outputs. -/
theorem wideInput_apart {k k' j j' : Nat} (small : k < spendCount) (small' : k' < spendCount)
    (below : j < 255) (below' : j' < 255)
    (same : ((wideInput k j).transaction, (wideInput k j).txoutIndex) =
      ((wideInput k' j').transaction, (wideInput k' j').txoutIndex)) : k = k' ∧ j = j' :=
  ⟨fundingId_inj small small' (Prod.mk.inj same).1,
    uint32_ofNat_inj (by omega) (by omega) (Prod.mk.inj same).2⟩

/-- The inputs of a wide transaction, read back from its pointer array. -/
theorem wideTx_inputs (k : Nat) :
    (wideTx k).inputs = some ((List.range 255).map (wideInput k)) :=
  mapM_eq_some_map _ _ _ fun j mem => slot_map_range _ 255 j (List.mem_range.mp mem)

/-- The outputs of a wide transaction, read back from its pointer array. -/
theorem wideTx_outputs (k : Nat) :
    (wideTx k).outputs = some ((List.range 255).map fun _ => unitOutput) :=
  mapM_eq_some_map _ _ _ fun j mem => slot_map_range _ 255 j (List.mem_range.mp mem)

/-- The signed header of a wide transaction is its preimage. -/
theorem getTxSignHeader_wideTx (k : Nat) :
    getTxSignHeader Crypto.truncating (wideTx k) = some (widePreimage k) := by
  simp only [getTxSignHeader, wideTx_inputs, wideTx_outputs]
  rfl

/-- Every transaction of the block carries the id that `compute_tx_id` gives it. -/
theorem computeTxId_wrapTx : ∀ i, computeTxId Crypto.truncating (wrapTx i) = some (wrapTx i).id
  | 0 => rfl
  | k + 1 => by simp only [wrapTx, computeTxId, getTxSignHeader_wideTx]; rfl

/-- Each output carries one unit. -/
theorem unitOutput_amount : unitOutput.amount.toNat = 1 := rfl

/-- Every wide transaction passes `valid_transaction`. -/
theorem validTransaction_wideTx (k : Nat) (small : k < spendCount) :
    validTransaction Crypto.truncating (wideTx k) = true := by
  have distinct : (((List.range 255).map (wideInput k)).map fun txin =>
      (txin.transaction, txin.txoutIndex)).Nodup := by
    rw [List.map_map]
    exact (List.nodup_range 255).map_on fun j mem j' mem' same =>
      (wideInput_apart small small (List.mem_range.mp mem) (List.mem_range.mp mem') same).2
  have amounts : (((List.range 255).map fun _ => unitOutput).map fun txout =>
      txout.amount.toNat).sum = 255 := by
    simp only [List.map_const', List.map_replicate, unitOutput_amount, List.sum_const_nat,
      List.length_range]
  rw [validTransaction, wideTx_inputs, wideTx_outputs, getTxSignHeader_wideTx]
  simp only [Bool.and_eq_true, Bool.or_eq_true, decide_eq_true_eq, beq_iff_eq, List.all_eq_true,
    amounts, distinct]
  refine ⟨⟨⟨⟨⟨(by decide : 1 ≤ 255), (by decide : 1 ≤ 255)⟩, rfl⟩, fun txout mem => ?_⟩,
    by decide⟩, .inr ⟨fun _ _ => rfl, trivial⟩⟩
  obtain ⟨_, _, rfl⟩ := List.mem_map.mp mem
  decide

/-- Every transaction of the block passes `valid_transaction`. -/
theorem validTransaction_wrapTx :
    ∀ i ≤ spendCount, validTransaction Crypto.truncating (wrapTx i) = true
  | 0, _ => by decide
  | k + 1, bound => validTransaction_wideTx k bound

/-- `List.range 255`, with its first index apart. -/
theorem range_255 : List.range 255 = 0 :: (List.range 254).map Nat.succ :=
  List.range_succ_eq_map 254

/-- The hash the first input of each transaction spends from: `HASH_SIZE` zeros for the
coinbase, `fundingId k` for the `k`-th wide transaction. -/
def firstSpent : Nat → Digest
  | 0 => Crypto.truncating.zeroHash
  | k + 1 => fundingId k

/-- A transaction's id is the hash its first input spends from: the `HASH_SIZE` bytes the stand-in
`sha256d` keeps are those of that hash. -/
theorem wrapTx_id : ∀ i, (wrapTx i).id = firstSpent i
  | 0 => by decide
  | k + 1 => by
    show Digest.ofBytes (widePreimage k) = fundingId k
    rw [widePreimage, range_255, List.map_cons, List.flatMap_cons, getTxinHeader, wideInput,
      List.append_assoc, List.append_assoc]
    exact Digest.ofBytes_append _ _

/-- The transactions of the block have pairwise different ids. -/
theorem wrapTx_id_ne {i i' : Nat} (bound : i ≤ spendCount) (bound' : i' ≤ spendCount)
    (differ : i ≠ i') : (wrapTx i).id ≠ (wrapTx i').id := by
  rw [wrapTx_id, wrapTx_id]
  match i, i' with
  | 0, 0 => exact absurd rfl differ
  | 0, k + 1 => exact zeroHash_ne_fundingId bound'
  | k + 1, 0 => exact (zeroHash_ne_fundingId bound).symm
  | k + 1, k' + 1 => exact fun same => differ (congrArg (· + 1) (fundingId_inj bound bound' same))

/-- The inputs of a wide transaction, read slot by slot. -/
theorem slot_wrapTx_txins (k j : Nat) (below : j < 255) :
    slot (wrapTx (k + 1)).txins j = some (wideInput k j) :=
  slot_map_range _ 255 j below

/-- The coinbase's one input, read from its slot. -/
theorem slot_wrapTx_zero_txins {a : Nat} (below : a < (wrapTx 0).txinCount.toNat) :
    slot (wrapTx 0).txins a = some coinbaseInput := by
  obtain rfl : a = 0 := Nat.lt_one_iff.mp below
  rfl

/-- The coinbase input spends another output than every input of a wide transaction. -/
theorem coinbaseInput_apart {k : Nat} (small : k < spendCount) (j : Nat) :
    (coinbaseInput.transaction, coinbaseInput.txoutIndex) ≠
      ((wideInput k j).transaction, (wideInput k j).txoutIndex) := fun same =>
  zeroHash_ne_fundingId small (Prod.mk.inj same).1

/-- Two different transactions of the block spend no common output. -/
theorem inputsDisjoint_wrapTx {i i' : Nat} (bound : i ≤ spendCount) (bound' : i' ≤ spendCount)
    (differ : i ≠ i') : inputsDisjoint (wrapTx i) (wrapTx i') = true := by
  rw [inputsDisjoint_eq_true]
  match i, i' with
  | 0, 0 => exact absurd rfl differ
  | 0, k + 1 => exact fun a below => ⟨coinbaseInput, slot_wrapTx_zero_txins below, fun b below' =>
    ⟨wideInput k b, slot_wrapTx_txins k b below', coinbaseInput_apart bound' b⟩⟩
  | k + 1, 0 => exact fun a below => ⟨wideInput k a, slot_wrapTx_txins k a below, fun b below' =>
    ⟨coinbaseInput, slot_wrapTx_zero_txins below', (coinbaseInput_apart bound a).symm⟩⟩
  | k + 1, k' + 1 => exact fun a below => ⟨wideInput k a, slot_wrapTx_txins k a below, fun b below' =>
    ⟨wideInput k' b, slot_wrapTx_txins k' b below', fun same => differ <| congrArg (· + 1)
      (wideInput_apart bound bound' below below' same).1⟩⟩

/-- A wide transaction's header is 18,360 bytes. -/
theorem getTxHeaderSize_wideTx (k : Nat) : (getTxHeaderSize (wideTx k)).toNat = 18360 := by
  simp only [getTxHeaderSize, wideTx]
  rfl

/-- The header sizes of the first `n + 1` transactions: 72 bytes of coinbase and 18,360 for each
wide transaction. -/
theorem sum_getTxHeaderSize_wrapTx (n : Nat) :
    ((List.range (n + 1)).map ((fun tx => (getTxHeaderSize tx).toNat) ∘ wrapTx)).sum =
      72 + n * 18360 := by
  induction n with
  | zero => rfl
  | succ n ih =>
    rw [List.range_succ, List.map_append, List.sum_append, ih, List.map_singleton,
      List.sum_singleton, Function.comp_apply, wrapTx, getTxHeaderSize_wideTx]
    ring

/-- The block declares the coinbase and 233,931 wide transactions. -/
theorem wrapBlock_transactionCount : wrapBlock.transactionCount.toNat = spendCount + 1 :=
  UInt32.toNat_ofNat_of_lt (by decide)

/-- The block's transaction array, as written. -/
theorem wrapBlock_transactions_eq :
    wrapBlock.transactions = some ((List.range (spendCount + 1)).map fun i => some (wrapTx i)) :=
  rfl

/-- The block's header carries the root built over its ids. -/
theorem wrapBlock_merkleRoot : wrapBlock.merkleRoot = wrapRoot := by
  simp only [wrapBlock, wrapHeader]

/-- Every declared slot of the block holds its transaction. -/
theorem wrapBlock_tx (i : Nat) (below : i < spendCount + 1) : wrapBlock.tx i = some (wrapTx i) := by
  rw [Block.tx, wrapBlock_transactions_eq, Option.some_bind, slot_map_range _ _ _ below]

/-- The block is well formed: every declared slot is written. -/
theorem wrapBlock_wellFormed : wrapBlock.WellFormed := fun i below => by
  rw [wrapBlock_transactionCount] at below
  simp [wrapBlock_tx i below]

/-- The block's transactions, in order. -/
theorem wrapBlock_listed : wrapBlock.listed = (List.range (spendCount + 1)).map wrapTx := by
  apply List.map_injective_iff.mpr (Option.some_injective _)
  rw [← wrapBlock.map_tx_range wrapBlock_wellFormed, wrapBlock_transactionCount, List.map_map]
  exact List.map_congr_left fun i mem => wrapBlock_tx i (List.mem_range.mp mem)

/-- The exact header size: `BLOCK_HEADER_SIZE`, the coinbase, and 233,931 wide transactions. -/
theorem wrapBlock_headerSizeSum : wrapBlock.headerSizeSum = 4294973324 := by
  rw [Block.headerSizeSum, wrapBlock_listed, List.map_map, sum_getTxHeaderSize_wrapTx]
  rfl

/-- The ids the block's transactions give, in order. -/
theorem wrapBlock_txIds : wrapBlock.txIds Crypto.truncating = some wrapIds := by
  rw [Block.txIds, wrapBlock_transactionCount]
  exact mapM_eq_some_map _ _ _ fun i mem => by
    rw [wrapBlock_tx i (List.mem_range.mp mem), Option.some_bind, computeTxId_wrapTx]

/-- The block passes `valid_merkle_root`. -/
theorem wrapBlock_rooted : validMerkleRoot Crypto.truncating wrapBlock = .ok true := by
  obtain ⟨tree, built, -, computed⟩ := computeMerkleRoot_of_txIds Crypto.truncating wrapBlock
    (by rw [wrapBlock_transactionCount]; decide) (by rw [wrapBlock_transactionCount]; decide)
    wrapBlock_wellFormed wrapBlock_txIds
  have root : wrapBlock.merkleRoot = tree.root.hash := by
    rw [wrapBlock_merkleRoot, wrapRoot, built]
    rfl
  simp [validMerkleRoot, computed, root]

/-- The block passes `valid_block_hash`: its hash is its own and meets the target. -/
theorem wrapBlock_hashed :
    validBlockHash millionParams Crypto.truncating zeroFresh wrapBlock = true := by
  rw [validBlockHash, Bool.and_eq_true, checkProofOfWork, Bool.and_eq_true, decide_eq_true_eq]
  refine ⟨?_, rfl, ?_⟩
  · rw [wrapBlock, computeBlockHash_with_hash]
    exact decide_eq_true rfl
  · have below := bigEndian_lt (Crypto.truncating.hashBytes wrapBlock.hash)
    have target : min (compactTarget wrapBlock.bits) millionParams.powLimit = 256 ^ 32 := by
      decide
    rw [Crypto.truncating_sized, hashSize] at below
    rw [target]
    exact below.le

/-- The block passes the transaction loops of `valid_block`. -/
theorem wrapBlock_transactions : validBlockTransactions Crypto.truncating wrapBlock = .ok true := by
  rw [validBlockTransactions_eq_true, wrapBlock_transactionCount]
  intro i below
  refine ⟨wrapTx i, wrapBlock_tx i below, validTransaction_wrapTx i (by omega), ?_,
    fun j below' => ⟨wrapTx j, wrapBlock_tx j below', fun differ =>
      ⟨wrapTx_id_ne (by omega) (by omega) differ, inputsDisjoint_wrapTx (by omega) (by omega)
        differ⟩⟩⟩
  intro later
  obtain ⟨k, rfl⟩ := Nat.exists_eq_succ_of_ne_zero later
  rfl

end Fixture

/-- The block of 233,932 transactions and 4,294,973,324 bytes of headers, under hashes of
`HASH_SIZE` bytes, passes every check of `valid_block` under a limit of a million bytes:
`get_block_header_size` returns 6,028. -/
theorem validBlock_accepts_oversized :
    validBlock millionParams Crypto.truncating 0 zeroFresh wrapBlock = .ok true ∧
      millionParams.maxBlockSize < wrapBlock.headerSizeSum := by
  refine ⟨(validBlock_size_check_wraps millionParams Crypto.truncating 0 zeroFresh wrapBlock
    wrapBlock_wellFormed).mpr ⟨rfl, by rw [wrapBlock_transactionCount]; decide,
      ⟨unitCoinbase, wrapBlock_tx 0 (by decide), rfl⟩, wrapBlock_transactions,
      by rw [wrapBlock_headerSizeSum]; decide, wrapBlock_hashed, wrapBlock_rooted⟩, ?_⟩
  rw [wrapBlock_headerSizeSum]
  decide

end VulkanCore
