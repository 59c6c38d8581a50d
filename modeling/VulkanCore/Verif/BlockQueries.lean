import VulkanCore.Core.BlockTransactions
import VulkanCore.Verif.BlockCodec
import VulkanCore.Verif.BlockSize

/-!
# Comparing blocks and looking up transactions

`compare_block` compares the header fields and the count with `==`, then the transactions below
the count with `compare_transaction`, reading and asserting the block's slot and then the other's
on the way. The blocks it finds equal are those of `Block.Matches`, an equivalence on well-formed
blocks: a block compares equal to itself exactly when it is well-formed, and otherwise faults,
dereferencing `NULL` when it has no array and on the assertion at its first null slot when it
has one.

`get_tx_by_hash_from_block` is the first-match search over the transactions in order. On a
well-formed block it is `find?` over the block's listed transactions, and on a block that
`valid_block` accepts, where the ids are distinct, it finds every transaction by its id.
-/

namespace VulkanCore

section Model

variable {Hash : Type}

/-! ## compare_block -/

/-- The fields `compare_block` compares with `==` before the transactions, in its order. -/
structure ComparedHeader (Hash : Type) where
  /-- `version`. -/
  version : UInt32
  /-- `previous_hash`. -/
  previousHash : Hash
  /-- `hash`. -/
  hash : Hash
  /-- `timestamp`. -/
  timestamp : UInt32
  /-- `nonce`. -/
  nonce : UInt32
  /-- `bits`. -/
  bits : UInt32
  /-- `cumulative_emission`. -/
  cumulativeEmission : UInt64
  /-- `merkle_root`. -/
  merkleRoot : Hash
  /-- `transaction_count`. -/
  transactionCount : UInt32
deriving DecidableEq

namespace Block

/-- A block's fields that `compare_block` compares before the transactions. -/
def compared (block : Block Hash) : ComparedHeader Hash :=
  ⟨block.version, block.previousHash, block.hash, block.timestamp, block.nonce, block.bits,
    block.cumulativeEmission, block.merkleRoot, block.transactionCount⟩

/-- Blocks whose compared fields agree have the same count. -/
theorem transactionCount_eq_of_compared {block other : Block Hash}
    (same : block.compared = other.compared) : block.transactionCount = other.transactionCount := by
  simp only [compared, ComparedHeader.mk.injEq] at same
  exact same.2.2.2.2.2.2.2.2

end Block

section Comparing

variable [DecidableEq Hash]

/-- `compare_transaction` finds two transactions equal exactly when their ids, their counts and
their inputs and outputs below the counts agree. -/
theorem compareTransaction_eq_true (tx other : Transaction Hash) :
    compareTransaction tx other = true ↔
      (tx.id, tx.txinCount, tx.txoutCount, tx.inputs, tx.outputs) =
        (other.id, other.txinCount, other.txoutCount, other.inputs, other.outputs) := by
  simp [compareTransaction, and_assoc]

/-- `compare_transaction` is transitive. -/
theorem compareTransaction_trans {tx other third : Transaction Hash}
    (first : compareTransaction tx other = true) (second : compareTransaction other third = true) :
    compareTransaction tx third = true :=
  (compareTransaction_eq_true _ _).mpr
    (((compareTransaction_eq_true _ _).mp first).trans ((compareTransaction_eq_true _ _).mp second))

namespace Block

/-- What `compare_block` returning 1 means: the compared fields agree, and below the count both
blocks hold transactions that `compare_transaction` finds equal. -/
structure Matches (block other : Block Hash) : Prop where
  /-- The header fields and the count. -/
  header : block.compared = other.compared
  /-- The transactions below the count, pairwise. -/
  transactions : ∀ i < block.transactionCount.toNat, ∃ tx otherTx,
    block.tx i = some tx ∧ other.tx i = some otherTx ∧ compareTransaction tx otherTx = true

/-- Matching is transitive. -/
theorem Matches.trans {block other third : Block Hash} (first : block.Matches other)
    (second : other.Matches third) : block.Matches third := by
  refine ⟨first.header.trans second.header, fun i below => ?_⟩
  obtain ⟨tx, otherTx, found, otherFound, same⟩ := first.transactions i below
  rw [transactionCount_eq_of_compared first.header] at below
  obtain ⟨otherTx', thirdTx, otherFound', thirdFound, same'⟩ := second.transactions i below
  obtain rfl := Option.some_inj.mp (otherFound.symm.trans otherFound')
  exact ⟨tx, thirdTx, found, thirdFound, compareTransaction_trans same same'⟩

end Block

/-- `compare_block` with its header condition read as one equation. -/
theorem compareBlock_eq (block other : Block Hash) :
    compareBlock block other =
      if block.compared = other.compared then
        compareTransactionsFrom block other (List.range block.transactionCount.toNat)
      else .ok false := by
  simp only [compareBlock, Block.compared, ComparedHeader.mk.injEq, Bool.and_eq_true, beq_iff_eq,
    and_assoc]

/-- The loop of `compare_block` returns 1 exactly when at every index both slots hold
transactions that compare equal. -/
theorem compareTransactionsFrom_eq_ok_true (block other : Block Hash) : ∀ indices : List Nat,
    compareTransactionsFrom block other indices = .ok true ↔ ∀ i ∈ indices, ∃ tx otherTx,
      block.tx i = some tx ∧ other.tx i = some otherTx ∧ compareTransaction tx otherTx = true
  | [] => by simp [compareTransactionsFrom]
  | i :: rest => by
    rw [List.forall_mem_cons, ← compareTransactionsFrom_eq_ok_true block other rest]
    match found : block.tx i, otherFound : other.tx i with
    | some tx, some otherTx =>
      by_cases same : compareTransaction tx otherTx <;>
        simp [compareTransactionsFrom, Block.assertTx_eq, found, otherFound, same]
    | none, _ => simp [compareTransactionsFrom, Block.assertTx_eq, found]
    | some _, none => simp [compareTransactionsFrom, Block.assertTx_eq, found, otherFound]

/-- Comparing a block with itself, over indices: 1 when every slot is present; otherwise the
fault of the first read of a missing one. -/
theorem compareTransactionsFrom_self (block : Block Hash) : ∀ indices : List Nat,
    compareTransactionsFrom block block indices =
      if ∀ i ∈ indices, (block.tx i).isSome then .ok true
      else .error (if block.transactions.isSome then .assertion else .nullDereference)
  | [] => by simp [compareTransactionsFrom]
  | i :: rest => by
    cases found : block.tx i <;>
      simp [compareTransactionsFrom, Block.assertTx_eq, found, compareTransaction_self,
        compareTransactionsFrom_self block rest]

/-- The loop of `compare_block` reads the blocks only through their asserting reads. -/
theorem compareTransactionsFrom_congr {block other block' other' : Block Hash}
    (reads : ∀ i, block'.assertTx i = block.assertTx i)
    (otherReads : ∀ i, other'.assertTx i = other.assertTx i) :
    ∀ indices : List Nat,
      compareTransactionsFrom block' other' indices = compareTransactionsFrom block other indices
  | [] => rfl
  | i :: rest => by
    simp only [compareTransactionsFrom, reads, otherReads,
      compareTransactionsFrom_congr reads otherReads rest]

/-- Two copies of a block that differ at most in the `hash` field compare as the block with
itself when the hashes agree, and as different otherwise. -/
theorem compareBlock_with_hash (block : Block Hash) (hash other : Hash) :
    compareBlock { block with hash := hash } { block with hash := other } =
      if hash = other then compareBlock block block else .ok false := by
  rw [compareBlock_eq, compareBlock_eq, if_pos rfl]
  by_cases same : hash = other
  · rw [if_pos same, same, if_pos (rfl : ({ block with hash := other } : Block Hash).compared = _)]
    apply compareTransactionsFrom_congr <;> exact fun _ => rfl
  · have differ : ({ block with hash := hash } : Block Hash).compared ≠
        ({ block with hash := other } : Block Hash).compared := by
      simpa [Block.compared] using same
    rw [if_neg differ, if_neg same]

/-- `compare_block` returns 1 exactly on the pairs of `Block.Matches`. -/
theorem compareBlock_eq_ok_true (block other : Block Hash) :
    compareBlock block other = .ok true ↔ block.Matches other := by
  rw [compareBlock_eq]
  split_ifs with same
  · rw [compareTransactionsFrom_eq_ok_true]
    exact ⟨fun pairs => ⟨same, fun i below => pairs i (List.mem_range.mpr below)⟩,
      fun matching i mem => matching.transactions i (List.mem_range.mp mem)⟩
  · simp only [Except.ok.injEq, Bool.false_eq_true, false_iff]
    exact fun matching => same matching.header

/-- Two blocks `compare_block` finds equal to a third are found equal to each other. -/
theorem compareBlock_trans {block other third : Block Hash}
    (first : compareBlock block other = .ok true) (second : compareBlock other third = .ok true) :
    compareBlock block third = .ok true :=
  (compareBlock_eq_ok_true _ _).mpr
    (((compareBlock_eq_ok_true _ _).mp first).trans ((compareBlock_eq_ok_true _ _).mp second))

/-- A block of one transaction and a copy whose array has a null slot past the count compare
equal both ways, and the block compares equal to itself. -/
theorem compareBlock_trans_padded :
    compareBlock (emptyTxBlock 1) { emptyTxBlock 1 with transactions := some [some emptyTx, none] } =
        .ok true ∧
      compareBlock { emptyTxBlock 1 with transactions := some [some emptyTx, none] }
        (emptyTxBlock 1) = .ok true ∧
      compareBlock (emptyTxBlock 1) (emptyTxBlock 1) = .ok true :=
  ⟨rfl, rfl, compareBlock_trans (rfl : compareBlock (emptyTxBlock 1)
    { emptyTxBlock 1 with transactions := some [some emptyTx, none] } = .ok true) rfl⟩

/-- A block compares equal to itself exactly when it is well-formed, and `compare_block` never
returns 0 on it: otherwise it faults, dereferencing `NULL` when the block has no array and on the
assertion at the first null slot below the count when it has one. -/
theorem compareBlock_self (block : Block Hash) :
    compareBlock block block =
      if block.WellFormed then .ok true
      else .error (if block.transactions.isSome then .assertion else .nullDereference) := by
  rw [compareBlock_eq, if_pos rfl, compareTransactionsFrom_self]
  simp only [List.mem_range, Block.WellFormed]

/-! ## compare_with_genesis_block -/

section Genesis

variable (crypto : Crypto Hash)

/-- On a copy of a well-formed genesis block, whatever hash it stores, `compare_with_genesis_block`
returns 1 exactly when the four bytes past the serialized header agree in the two buffers of
`compute_block_hash`: with an injective `sha256d`, whether the genesis block is recognised
depends on memory that no field of either block decides. -/
theorem compareWithGenesisBlock_of_copy (sized : ∀ hash, (crypto.hashBytes hash).length = hashSize)
    (injective : Function.Injective crypto.sha256d) {genesisBlock : Block Hash}
    (wellFormed : genesisBlock.WellFormed) (hash : Hash) {fresh genesisFresh : Bytes}
    (allocated : fresh.length = blockHeaderSize)
    (genesisAllocated : genesisFresh.length = blockHeaderSize) :
    (compareWithGenesisBlock crypto genesisBlock fresh genesisFresh
        { genesisBlock with hash := hash }).map (·.2.2) =
      .ok (decide (fresh.drop 88 = genesisFresh.drop 88)) := by
  have recomputed : computeBlockHash crypto fresh genesisBlock =
      computeBlockHash crypto genesisFresh genesisBlock ↔ fresh.drop 88 = genesisFresh.drop 88 := by
    rw [computeBlockHash_eq crypto sized fresh allocated,
      computeBlockHash_eq crypto sized genesisFresh genesisAllocated, injective.eq_iff,
      List.append_cancel_left_eq]
  have compared := compareBlock_with_hash genesisBlock (computeBlockHash crypto fresh genesisBlock)
    (computeBlockHash crypto genesisFresh genesisBlock)
  rw [compareBlock_self, if_pos wellFormed] at compared
  simp only [compareWithGenesisBlock, computeBlockHash_with_hash]
  rw [compared]
  by_cases same : fresh.drop 88 = genesisFresh.drop 88
  · simp [recomputed.mpr same, same]
  · simp [mt recomputed.mp same, same]

/-- A transaction of the genesis sample: the 32-byte id `k + 1`, one input spending output 0 of
the 32-byte hash `k`, and one output of 50. -/
def genesisTx (k : Nat) : Transaction Bytes :=
  ⟨List.replicate 31 0 ++ [UInt8.ofNat (k + 1)], 1, 1,
    [some ⟨List.replicate 31 0 ++ [UInt8.ofNat k], 0, [7], [8]⟩], [some ⟨50, [1]⟩]⟩

/-- A genesis block under `reversingCrypto`, with 32-byte header hashes and the transactions
`genesisTx 0` and `genesisTx 1`. -/
def genesisSample : Block Bytes :=
  { makeBlock ⟨1, 0, 0, 0⟩ reversingCrypto with
    hash := List.replicate 32 2, timestamp := 1231006505, nonce := 2083236893, bits := 0x1d00ffff,
    cumulativeEmission := 50, merkleRoot := List.replicate 32 3, transactionCount := 2,
    transactions := some [some (genesisTx 0), some (genesisTx 1)] }

/-- A copy of the genesis sample storing another hash is not recognised when the last four bytes
of the two buffers differ. -/
theorem compareWithGenesisBlock_of_copy_genesisSample :
    genesisSample.WellFormed ∧
      (compareWithGenesisBlock reversingCrypto genesisSample (List.replicate 92 0)
          (List.replicate 88 0 ++ [1, 2, 3, 4]) { genesisSample with hash := List.replicate 32 9 }).map
          (·.2.2) =
        .ok (decide ((List.replicate 92 0 : Bytes).drop 88 =
          (List.replicate 88 0 ++ [1, 2, 3, 4] : Bytes).drop 88)) ∧
      (List.replicate 92 0 : Bytes).drop 88 ≠ (List.replicate 88 0 ++ [1, 2, 3, 4] : Bytes).drop 88 :=
  have wellFormed : genesisSample.WellFormed := by decide
  ⟨wellFormed, compareWithGenesisBlock_of_copy reversingCrypto reversingCrypto_sized
    List.reverse_injective wellFormed _ rfl rfl, by decide⟩

end Genesis

end Comparing

/-! ## validate_block_signatures -/

section Signatures

variable (validateTxSignatures : Transaction Hash → Except Fault UInt32)

/-- The loop of `validate_block_signatures` returns 0 exactly when at every index there is a
transaction for which `validate_tx_signatures` returns 0. -/
theorem validateSignaturesFrom_eq_ok_zero (block : Block Hash) : ∀ indices : List Nat,
    validateSignaturesFrom validateTxSignatures block indices = .ok 0 ↔
      ∀ i ∈ indices, ∃ tx, block.tx i = some tx ∧ validateTxSignatures tx = .ok 0
  | [] => by simp [validateSignaturesFrom]
  | i :: rest => by
    rw [List.forall_mem_cons, ← validateSignaturesFrom_eq_ok_zero block rest]
    match found : block.tx i with
    | none => simp [validateSignaturesFrom, Block.assertTx_eq, found]
    | some tx =>
      cases checked : validateTxSignatures tx with
      | error fault => simp [validateSignaturesFrom, Block.assertTx_eq, found, checked]
      | ok status =>
        by_cases zero : status = 0 <;>
          simp [validateSignaturesFrom, Block.assertTx_eq, found, checked, zero]

/-- `validate_block_signatures` returns 0 exactly on the well-formed blocks for each of whose
transactions `validate_tx_signatures` returns 0. -/
theorem validateBlockSignatures_eq_ok_zero (block : Block Hash) :
    validateBlockSignatures validateTxSignatures block = .ok 0 ↔
      block.WellFormed ∧ ∀ tx ∈ block.listed, validateTxSignatures tx = .ok 0 := by
  rw [validateBlockSignatures, validateSignaturesFrom_eq_ok_zero]
  constructor
  · intro checked
    refine ⟨fun i below => ?_, fun tx listed => ?_⟩
    · obtain ⟨tx, found, -⟩ := checked i (List.mem_range.mpr below)
      simp [found]
    · obtain ⟨i, within, found⟩ := List.mem_filterMap.mp listed
      obtain ⟨tx', found', passed⟩ := checked i within
      rwa [Option.some_inj.mp (found.symm.trans found')]
  · rintro ⟨wellFormed, passed⟩ i within
    obtain ⟨tx, found⟩ := Option.isSome_iff_exists.mp (wellFormed i (List.mem_range.mp within))
    exact ⟨tx, found, passed tx (List.mem_filterMap.mpr ⟨i, within, found⟩)⟩

end Signatures

/-! ## get_tx_by_hash_from_block -/

section Lookup

variable [DecidableEq Hash]

/-- Over indices whose slots are all present, the loop of `get_tx_by_hash_from_block` is `find?`
over the transactions at them. -/
theorem findTxByHash_eq_find (block : Block Hash) (txHash : Hash) : ∀ indices : List Nat,
    (∀ i ∈ indices, (block.tx i).isSome) →
    findTxByHash block txHash indices = .ok ((indices.filterMap block.tx).find? (·.id == txHash))
  | [], _ => rfl
  | i :: rest, present => by
    obtain ⟨tx, found⟩ := Option.isSome_iff_exists.mp (present i (List.mem_cons_self _ _))
    by_cases named : tx.id = txHash
    · simp [findTxByHash, Block.assertTx_eq, found, named]
    · simp [findTxByHash, Block.assertTx_eq, found, named, findTxByHash_eq_find block txHash rest
        fun j mem => present j (List.mem_cons_of_mem _ mem)]

/-- On a well-formed block, `get_tx_by_hash_from_block` returns the first of the block's
transactions, in order, whose id is the hash, and NULL when none has it. -/
theorem getTxByHashFromBlock_eq_find {block : Block Hash} (wellFormed : block.WellFormed)
    (txHash : Hash) :
    getTxByHashFromBlock block txHash = .ok (block.listed.find? (·.id == txHash)) :=
  findTxByHash_eq_find block txHash _ fun i mem => wellFormed i (List.mem_range.mp mem)

/-- The first of two transactions with the same id is the one found. -/
theorem getTxByHashFromBlock_eq_find_two :
    (emptyTxBlock 2).WellFormed ∧
      getTxByHashFromBlock (emptyTxBlock 2) () = .ok ((emptyTxBlock 2).listed.find? (·.id == ())) :=
  ⟨by decide, getTxByHashFromBlock_eq_find (by decide) ()⟩

/-- Over present slots, a transaction at one of the indices, and the only one there with its
id, is what the loop of `get_tx_by_hash_from_block` finds by that id. -/
theorem findTxByHash_of_unique (block : Block Hash) {tx : Transaction Hash} : ∀ {indices : List Nat},
    (∀ j ∈ indices, (block.tx j).isSome) → (∃ i ∈ indices, block.tx i = some tx) →
    (∀ j ∈ indices, ∀ other, block.tx j = some other → other.id = tx.id → other = tx) →
    findTxByHash block tx.id indices = .ok (some tx)
  | [], _, ⟨_, absent, _⟩, _ => absurd absent (List.not_mem_nil _)
  | j :: rest, present, ⟨i, mem, found⟩, unique => by
    obtain ⟨other, otherFound⟩ := Option.isSome_iff_exists.mp (present j (List.mem_cons_self _ _))
    by_cases named : other.id = tx.id
    · simp [findTxByHash, Block.assertTx_eq, otherFound, named,
        unique j (List.mem_cons_self _ _) other otherFound named]
    · have later : i ∈ rest := by
        rcases List.mem_cons.mp mem with rfl | later
        · exact absurd (by rw [Option.some_inj.mp (otherFound.symm.trans found)]) named
        · exact later
      simp only [findTxByHash, Block.assertTx_eq, otherFound, Option.elim_some, except_ok_bind, named,
        if_false]
      exact findTxByHash_of_unique block (fun k mem => present k (List.mem_cons_of_mem _ mem))
        ⟨i, later, found⟩ fun k mem => unique k (List.mem_cons_of_mem _ mem)

variable (params : Parameters) (crypto : Crypto Hash)

/-- On every block `valid_block` accepts, `get_tx_by_hash_from_block` finds each transaction of
the block by its id. -/
theorem getTxByHashFromBlock_of_validBlock {now : Nat} {fresh : Bytes} {block : Block Hash}
    (valid : validBlock params crypto now fresh block = .ok true) :
    ∀ i < block.transactionCount.toNat, ∀ tx, block.tx i = some tx →
      getTxByHashFromBlock block tx.id = .ok (some tx) := by
  have listed := transactions_of_validBlock params crypto valid
  intro i below tx found
  refine findTxByHash_of_unique block (fun j mem => ?_) ⟨i, List.mem_range.mpr below, found⟩
    fun j mem other otherFound named => ?_
  · obtain ⟨_, present, -⟩ := listed j (List.mem_range.mp mem)
    simp [present]
  · obtain ⟨tx', found', -, distinct⟩ := listed i below
    obtain rfl := Option.some_inj.mp (found.symm.trans found')
    by_cases same : i = j
    · subst same
      exact Option.some_inj.mp (otherFound.symm.trans found)
    · exact absurd named.symm (distinct j (List.mem_range.mp mem) other otherFound same)

/-- Both transactions of the two-transaction block `valid_block` accepts are found by their ids. -/
theorem getTxByHashFromBlock_of_validBlock_twoTxBlock :
    validBlock delimitedParams delimitedCrypto 0 (List.replicate 92 0) (twoTxBlock [7]) = .ok true ∧
      ∀ i < (twoTxBlock [7]).transactionCount.toNat, ∀ tx, (twoTxBlock [7]).tx i = some tx →
        getTxByHashFromBlock (twoTxBlock [7]) tx.id = .ok (some tx) :=
  ⟨twoTxBlock_seven_valid, getTxByHashFromBlock_of_validBlock _ _ twoTxBlock_seven_valid⟩

end Lookup

end Model

end VulkanCore
