import VulkanCore.Core.Block

/-!
# Block encoding

`serialize_block` writes the nine header fields, each hash as a length-prefixed byte string, and
`deserialize_block` reads them back in the same order into a block from `make_block`. A refused
read jumps to `deserialize_fail` and the block is freed: the decoder returns 1. What
`buffer_read_bytes32` returns for a hash is copied into the block with `memcpy` of `HASH_SIZE`
bytes, whatever length its prefix declared; fewer bytes than that is a read past the end of the
allocation. The transactions travel after the header, one `serialize_transaction` each;
`transaction.c` is not among the sources, so its writer and reader are parameters here.
-/

namespace VulkanCore

section Codec

variable {Hash : Type} (params : Parameters) (crypto : Crypto Hash)

/-- `serialize_block`: the bytes it writes. -/
def serializeBlock (block : Block Hash) : Bytes :=
  bufferWriteUint32 block.version ++ bufferWriteBytes32 (crypto.hashBytes block.previousHash) ++
    bufferWriteBytes32 (crypto.hashBytes block.hash) ++ bufferWriteUint32 block.timestamp ++
    bufferWriteUint32 block.nonce ++ bufferWriteUint32 block.bits ++
    bufferWriteUint64 block.cumulativeEmission ++
    bufferWriteBytes32 (crypto.hashBytes block.merkleRoot) ++
    bufferWriteUint32 block.transactionCount

/-- `memcpy(field, data, HASH_SIZE)` out of the allocation `buffer_read_bytes32` returned. -/
def copyHash (data : Bytes) : Except Fault Hash :=
  if hashSize ≤ data.length then .ok (crypto.hashOfBytes (data.take hashSize)) else .error .overread

/-- One read of a decoder: a refused read makes the decoder return 1 (`none`). -/
def readOrFail {α β : Type} (read : Option (α × Bytes))
    (next : α → Bytes → Except Fault (Option β)) : Except Fault (Option β) :=
  match read with
  | none => .ok none
  | some (value, rest) => next value rest

/-- `deserialize_block`: the block read, and the input after it. -/
def deserializeBlock (bytes : Bytes) : Except Fault (Option (Block Hash × Bytes)) :=
  readOrFail (bufferReadUint32 bytes) fun version bytes =>
  readOrFail (bufferReadBytes32 bytes) fun previousHash bytes => do
  let previousHash ← copyHash crypto previousHash
  readOrFail (bufferReadBytes32 bytes) fun hash bytes => do
  let hash ← copyHash crypto hash
  readOrFail (bufferReadUint32 bytes) fun timestamp bytes =>
  readOrFail (bufferReadUint32 bytes) fun nonce bytes =>
  readOrFail (bufferReadUint32 bytes) fun bits bytes =>
  readOrFail (bufferReadUint64 bytes) fun cumulativeEmission bytes =>
  readOrFail (bufferReadBytes32 bytes) fun merkleRoot bytes => do
  let merkleRoot ← copyHash crypto merkleRoot
  readOrFail (bufferReadUint32 bytes) fun transactionCount bytes =>
  .ok (some ({ makeBlock params crypto with
    version := version, previousHash := previousHash, hash := hash, timestamp := timestamp,
    nonce := nonce, bits := bits, cumulativeEmission := cumulativeEmission,
    merkleRoot := merkleRoot, transactionCount := transactionCount }, bytes))

/-- `block_to_serialized`: what `serialize_block` writes; the transactions are not written. -/
def blockToSerialized (block : Block Hash) : Bytes := serializeBlock crypto block

/-- `block_from_serialized`: the block `deserialize_block` reads from the data, or NULL. -/
def blockFromSerialized (data : Bytes) : Except Fault (Option (Block Hash)) :=
  (deserializeBlock params crypto data).map (Option.map Prod.fst)

/-- `serialize_transactions_from_block`: the transactions below the count, each asserted
non-null, written in order. -/
def serializeTransactionsFromBlock (writeTransaction : Transaction Hash → Bytes)
    (block : Block Hash) : Except Fault Bytes := do
  let transactions ← block.assertedTransactions
  pure (transactions.flatMap writeTransaction)

/-- The loop of `deserialize_transactions_to_block`: read a transaction into slot `i`, for each
`i` in turn, until a read is refused. The slots, and the rest of the input unless a read was
refused. -/
def readTransactionsInto (readTransaction : Reader (Transaction Hash)) :
    List (Option (Transaction Hash)) → List Nat → Bytes →
      List (Option (Transaction Hash)) × Option Bytes
  | slots, [], bytes => (slots, some bytes)
  | slots, i :: rest, bytes =>
    match readTransaction bytes with
    | none => (slots, none)
    | some (tx, bytes) => readTransactionsInto readTransaction (slots.set i (some tx)) rest bytes

/-- `deserialize_transactions_to_block`: the block it leaves behind, and the rest of the input
when it returns 0 (`none` when it returns 1). With transactions declared, the array is a new
allocation of `transaction_count` slots, none of them written yet. -/
def deserializeTransactionsToBlock (readTransaction : Reader (Transaction Hash)) (bytes : Bytes)
    (block : Block Hash) : Block Hash × Option Bytes :=
  if 0 < block.transactionCount.toNat then
    let (slots, rest) := readTransactionsInto readTransaction
      (List.replicate block.transactionCount.toNat none) (List.range block.transactionCount.toNat)
      bytes
    ({ block with transactions := some slots }, rest)
  else (block, some bytes)

/-- A block decode as callers run it: `deserialize_block`, then `deserialize_transactions_to_block`
on the same iterator. `none` when `deserialize_block` fails; otherwise the block left behind and
the rest of the input, `none` when the transactions failed. -/
def decodeBlock (readTransaction : Reader (Transaction Hash)) (bytes : Bytes) :
    Except Fault (Option (Block Hash × Option Bytes)) := do
  match ← deserializeBlock params crypto bytes with
  | none => pure none
  | some (block, rest) => pure (some (deserializeTransactionsToBlock readTransaction rest block))

end Codec

end VulkanCore
