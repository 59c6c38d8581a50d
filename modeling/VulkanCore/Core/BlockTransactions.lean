import VulkanCore.Core.Block

/-!
# A block's transactions

The operations of `block.c` that change or walk a block's array of transactions: appending one
transaction or several, freeing them, looking one up by id, comparing two blocks or a block with
the genesis block, and copying one block into another. The array grows by `realloc` one slot at a
time, and `transaction_count` is a `uint32_t` incremented before the assertion on the index is
checked: at `2 ^ 32 - 1` it wraps to 0, and `realloc` to no slot returns `NULL`. Freeing a
transaction leaves nothing to model, so `free_block_transactions` is the assertions it makes and
the state it leaves.
-/

namespace VulkanCore

section Model

variable {Hash : Type} [DecidableEq Hash]

/-- `add_transaction_to_block`: count up, assert that `tx_index` is the new count less one, grow
the array to the new count, assert that `realloc` did not return `NULL`, and store `tx` at
`tx_index`. -/
def addTransactionToBlock (block : Block Hash) (tx : Transaction Hash) (txIndex : UInt32) :
    Except Fault (Block Hash) :=
  let count := block.transactionCount + 1
  if txIndex = count - 1 then
    match realloc block.transactions count.toNat with
    | none => .error .assertion
    | some array =>
      if txIndex.toNat < array.length then
        .ok { block with
          transactionCount := count, transactions := some (array.set txIndex.toNat (some tx)) }
      else .error .outOfBounds
  else .error .assertion

/-- `add_transactions_to_block`: for each `i` below `num_transactions`, read `transactions[i]`,
assert it non-null and add it at index `i + 1`, after the coinbase. -/
def addTransactionsToBlock (block : Block Hash) (transactions : List (Option (Transaction Hash)))
    (numTransactions : UInt32) : Except Fault (Block Hash) :=
  (List.range numTransactions.toNat).foldlM (fun block i => do
    let tx ← (slot transactions i).elim (.error .assertion) .ok
    addTransactionToBlock block tx (UInt32.ofNat i + 1)) block

/-- `free_block_transactions`: with transactions to free, assert each non-null, then leave the
block with none. -/
def freeBlockTransactions (block : Block Hash) : Except Fault (Block Hash) :=
  match block.transactions with
  | some _ =>
    if 0 < block.transactionCount.toNat then do
      let _ ← block.assertedTransactions
      pure { block with transactionCount := 0, transactions := none }
    else .ok block
  | none => .ok block

/-- `free_block`: `free_block_transactions`, then `free` of the record, which leaves nothing. -/
def freeBlock (block : Block Hash) : Except Fault Unit := do
  let _ ← freeBlockTransactions block
  pure ()

/-- The loop of `get_tx_by_hash_from_block`: the first transaction, in order, whose id is
`txHash`; each one asserted non-null. -/
def findTxByHash (block : Block Hash) (txHash : Hash) : List Nat → Except Fault (Option (Transaction Hash))
  | [] => .ok none
  | i :: rest => do
    let tx ← block.assertTx i
    if tx.id = txHash then pure (some tx) else findTxByHash block txHash rest

/-- `get_tx_by_hash_from_block`. -/
def getTxByHashFromBlock (block : Block Hash) (txHash : Hash) :
    Except Fault (Option (Transaction Hash)) :=
  findTxByHash block txHash (List.range block.transactionCount.toNat)

/-- The loop of `compare_block` over the transactions: both slots asserted non-null, in order; the
first pair that differs ends it with 0. -/
def compareTransactionsFrom (block other : Block Hash) : List Nat → Except Fault Bool
  | [] => .ok true
  | i :: rest => do
    let tx ← block.assertTx i
    let otherTx ← other.assertTx i
    if compareTransaction tx otherTx then compareTransactionsFrom block other rest else pure false

/-- `compare_block`: the header fields and the count, then the transactions below the count. -/
def compareBlock (block other : Block Hash) : Except Fault Bool :=
  if block.version == other.version && block.previousHash == other.previousHash &&
      block.hash == other.hash && block.timestamp == other.timestamp &&
      block.nonce == other.nonce && block.bits == other.bits &&
      block.cumulativeEmission == other.cumulativeEmission &&
      block.merkleRoot == other.merkleRoot && block.transactionCount == other.transactionCount then
    compareTransactionsFrom block other (List.range block.transactionCount.toNat)
  else .ok false

/-- `compare_with_genesis_block`. `get_genesis_block` is not in the sources: the genesis block is
a parameter, and `fresh` and `genesisFresh` are what the buffers of the two `compute_block_hash`
calls hold before the headers are written. `compute_block_hash` overwrites the `hash` field of
each block before `compare_block` compares them; both blocks as written, and the result. -/
def compareWithGenesisBlock (crypto : Crypto Hash) (genesisBlock : Block Hash)
    (fresh genesisFresh : Bytes) (block : Block Hash) :
    Except Fault (Block Hash × Block Hash × Bool) := do
  let block := { block with hash := computeBlockHash crypto fresh block }
  let genesisBlock := { genesisBlock with hash := computeBlockHash crypto genesisFresh genesisBlock }
  let same ← compareBlock block genesisBlock
  pure (block, genesisBlock, same)

/-! `copy_transaction` is not in the sources. Modelled from the spec and from its one call: it
gets the transaction and the pointer `other_tx` by value, and returns a status or faults. The
spec says the pointer it receives is never written; being passed by value, the caller's
`other_tx` cannot be. -/

variable (copyTransaction : Transaction Hash → Option (Transaction Hash) → Except Fault UInt32)

/-- The loop of `copy_block_transactions`: assert `transactions[i]` non-null and pass it to
`copy_transaction` with the local `other_tx = NULL`; a nonzero status returns 1; then assert
`other_tx` non-null, count up, grow the destination's array to the source's count, assert the
array non-null and store the copy at `i`. -/
def copyTransactionsFrom (block other : Block Hash) : List Nat → Except Fault (Block Hash × UInt32)
  | [] => .ok (other, 0)
  | i :: rest => do
    let tx ← block.assertTx i
    let otherTx : Option (Transaction Hash) := none
    let status ← copyTransaction tx otherTx
    if status ≠ 0 then pure (other, 1)
    else
      match otherTx with
      | none => .error .assertion
      | some otherTx =>
        match realloc other.transactions block.transactionCount.toNat with
        | none => .error .assertion
        | some array =>
          copyTransactionsFrom block
            { other with
              transactionCount := other.transactionCount + 1,
              transactions := some (array.set i (some otherTx)) } rest

/-- `copy_block_transactions`: free the destination's transactions, at the count it holds by
then, and copy the source's when it has a count and an array. -/
def copyBlockTransactions (block other : Block Hash) : Except Fault (Block Hash × UInt32) := do
  let other ← freeBlockTransactions other
  if 0 < block.transactionCount.toNat ∧ block.transactions.isSome then
    copyTransactionsFrom copyTransaction block other (List.range block.transactionCount.toNat)
  else pure (other, 0)

/-- The assignments and `memcpy`s that start `copy_block`: every header field of `block`, and its
`transaction_count`, into `other`. -/
def copyBlockHeader (block other : Block Hash) : Block Hash :=
  { other with
    version := block.version, previousHash := block.previousHash, hash := block.hash,
    timestamp := block.timestamp, nonce := block.nonce, bits := block.bits,
    cumulativeEmission := block.cumulativeEmission, merkleRoot := block.merkleRoot,
    transactionCount := block.transactionCount }

/-- `copy_block`: copy the header and the count, then the transactions; 1 when copying the
transactions returns 1 or the copy does not compare equal to `block`. -/
def copyBlock (block other : Block Hash) : Except Fault (Block Hash × UInt32) := do
  let (other, status) ← copyBlockTransactions copyTransaction block (copyBlockHeader block other)
  if status ≠ 0 then pure (other, 1)
  else do
    let same ← compareBlock block other
    pure (other, if same then 0 else 1)

end Model

end VulkanCore
