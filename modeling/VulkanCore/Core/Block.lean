import VulkanCore.Transaction
import VulkanCore.Core.Merkle

/-!
# Blocks and their validation

`block.c`: the block record, the header and the hash computed from it, the header size, the Merkle
root over the transaction ids, `valid_block`, and `validate_block_signatures`, which `valid_block`
does not call. The loops of `valid_block` only ever `return 0` or go on, so each is the
conjunction of its rounds in order, stopping at the first that fails (`List.allM` over the
indices, in `Except` because reading a slot can fault); the nesting is the C code's. Every loop
reads `transactions[i]` through `Block.readTx`, which faults on a `NULL` array; a loop that
asserts `transactions[i] != NULL` faults on a null slot. `compute_block_hash` copies
`BLOCK_HEADER_SIZE` bytes out of a buffer allocated with that size, whatever
`serialize_block_header` wrote into it: `fresh` is what the allocation held before.
`check_proof_of_work` (`pow.c`, not among the sources) is modelled from the spec.
-/

namespace VulkanCore

/-- `block_t`. `transactions` is the array of pointers: `none` is a null array, and a slot `none`
a null pointer or one never written. -/
structure Block (Hash : Type) where
  /-- `version`. -/
  version : UInt32
  /-- `previous_hash`. -/
  previousHash : Hash
  /-- `hash`. -/
  hash : Hash
  /-- `timestamp`, in seconds since the epoch. -/
  timestamp : UInt32
  /-- `nonce`. -/
  nonce : UInt32
  /-- `bits`, the compact proof-of-work target. -/
  bits : UInt32
  /-- `cumulative_emission`. -/
  cumulativeEmission : UInt64
  /-- `merkle_root`. -/
  merkleRoot : Hash
  /-- `transaction_count`. -/
  transactionCount : UInt32
  /-- `transactions`. -/
  transactions : Option (List (Option (Transaction Hash)))

namespace Block

variable {Hash : Type} (block : Block Hash)

/-- `block->transactions[i]`: the transaction the slot holds, `none` for a null array, a null
pointer or a slot past the array. The statements about what the loops read use it; the loops read
through `readTx`. -/
def tx (i : Nat) : Option (Transaction Hash) := block.transactions.bind fun array => slot array i

/-- `block->transactions[i]` as the loops read it: dereferencing a `NULL` array is a fault, and
an allocated one gives what `slot` reads. -/
def readTx (i : Nat) : Except Fault (Option (Transaction Hash)) :=
  match block.transactions with
  | none => .error .nullDereference
  | some array => .ok (slot array i)

/-- `transaction_t *tx = block->transactions[i]; assert(tx != NULL);`. -/
def assertTx (i : Nat) : Except Fault (Transaction Hash) := do
  let read ← block.readTx i
  read.elim (.error .assertion) .ok

/-- A read returns a transaction exactly when the slot holds it. -/
theorem readTx_eq_ok_some (i : Nat) (value : Transaction Hash) :
    block.readTx i = .ok (some value) ↔ block.tx i = some value := by
  unfold readTx tx
  cases block.transactions <;> simp

/-- The asserting read gives the transaction the slot holds. Otherwise it faults: dereferencing
`NULL` when there is no array, and on the assertion when the slot is null. -/
theorem assertTx_eq (i : Nat) :
    block.assertTx i = (block.tx i).elim
      (.error (if block.transactions.isSome then .assertion else .nullDereference)) .ok := by
  unfold assertTx readTx tx
  cases block.transactions with
  | none => rfl
  | some array => cases slot array i <;> rfl

/-- The asserting read passes exactly when the slot holds a transaction. -/
theorem assertTx_eq_ok (i : Nat) (value : Transaction Hash) :
    block.assertTx i = .ok value ↔ block.tx i = some value := by
  rw [assertTx_eq]
  cases block.tx i <;> simp

/-- An asserting read of a slot that holds no transaction faults. -/
theorem assertTx_of_tx_eq_none {i : Nat} (missing : block.tx i = none) :
    ∃ fault, block.assertTx i = .error fault :=
  ⟨_, by rw [assertTx_eq, missing]; rfl⟩

/-- Reading an allocated array does not fault, so there the asserting read faults only on its
assertion. -/
theorem assertTx_fault {array : List (Option (Transaction Hash))}
    (allocated : block.transactions = some array) {i : Nat} {fault : Fault}
    (faulted : block.assertTx i = .error fault) : fault = .assertion := by
  rw [assertTx_eq, allocated] at faulted
  cases found : block.tx i <;> simp [found] at faulted
  exact faulted.symm

/-- `transactions[0 .. transaction_count)`, each asserted non-null, as the loops of
`get_block_header_size`, `serialize_transactions_from_block` and `free_block_transactions`
read them. -/
def assertedTransactions : Except Fault (List (Transaction Hash)) :=
  (List.range block.transactionCount.toNat).mapM block.assertTx

end Block

section Model

variable {Hash : Type} [DecidableEq Hash] (params : Parameters) (crypto : Crypto Hash)

/-- `make_block`: the version, zero hashes and numbers, no transactions. -/
def makeBlock : Block Hash where
  version := params.blockVersion
  previousHash := crypto.zeroHash
  hash := crypto.zeroHash
  timestamp := 0
  nonce := 0
  bits := 0
  cumulativeEmission := 0
  merkleRoot := crypto.zeroHash
  transactionCount := 0
  transactions := none

/-- `valid_block_timestamp`, `now` being what `get_current_time` returns. -/
def validBlockTimestamp (now : Nat) (block : Block Hash) : Bool :=
  block.timestamp.toNat ≤ now + params.maxFutureBlockTime

/-- A byte string read as a big-endian number. -/
def bigEndian (bytes : Bytes) : Nat := bytes.foldl (fun value byte => 256 * value + byte.toNat) 0

/-- The target the compact `bits` encode. Modelled from the spec: `mantissa * 256 ^ (exponent - 3)`
with `exponent = bits >> 24` and `mantissa = bits & 0x007FFFFF`. -/
def compactTarget (bits : UInt32) : Nat :=
  let exponent := bits.toNat / 2 ^ 24
  let mantissa := bits.toNat % 2 ^ 23
  if 3 ≤ exponent then mantissa * 256 ^ (exponent - 3) else mantissa / 256 ^ (3 - exponent)

/-- `check_proof_of_work`. Modelled from the spec: the mantissa's sign bit is clear, and the hash
read as a big-endian number is at most the target, clamped to the network's limit. -/
def checkProofOfWork (hash : Hash) (bits : UInt32) : Bool :=
  bits.toNat / 2 ^ 23 % 2 == 0 &&
    decide (bigEndian (crypto.hashBytes hash) ≤ min (compactTarget bits) params.powLimit)

/-- `serialize_block_header`: the bytes it writes. -/
def serializeBlockHeader (block : Block Hash) : Bytes :=
  bufferWriteUint32 block.version ++ bufferWriteUint32 block.timestamp ++
    bufferWriteUint32 block.nonce ++ bufferWriteUint32 block.bits ++
    bufferWriteUint64 block.cumulativeEmission ++ crypto.hashBytes block.previousHash ++
    crypto.hashBytes block.merkleRoot

/-- `compute_block_hash`: `sha256d` of the first `BLOCK_HEADER_SIZE` bytes of a buffer of that
size into which the header was serialized; `fresh` is what the buffer held before. -/
def computeBlockHash (fresh : Bytes) (block : Block Hash) : Hash :=
  let written := serializeBlockHeader crypto block
  crypto.sha256d ((written ++ fresh.drop written.length).take blockHeaderSize)

/-- `valid_block_hash`: the stored hash is the computed one and meets its own target. -/
def validBlockHash (fresh : Bytes) (block : Block Hash) : Bool :=
  computeBlockHash crypto fresh block == block.hash &&
    checkProofOfWork params crypto block.hash block.bits

/-- `get_block_header_size`: `BLOCK_HEADER_SIZE` plus each transaction's header size, summed in
a `uint32_t`. -/
def getBlockHeaderSize (block : Block Hash) : Except Fault UInt32 := do
  let transactions ← block.assertedTransactions
  pure (transactions.foldl (fun size tx => size + getTxHeaderSize tx) (UInt32.ofNat blockHeaderSize))

/-- The leaf loop of `compute_merkle_root`: for each `i`, assert `transactions[i]` non-null and
write its id at `hashes + HASH_SIZE * i` (a `uint32_t` product) into a buffer of `capacity`
bytes; stop with 1 when `compute_tx_id` fails. -/
def computeLeaves (block : Block Hash) (capacity : Nat) : List Nat → Except Fault (Option (List Hash))
  | [] => .ok (some [])
  | i :: rest => do
    let tx ← block.assertTx i
    match computeTxId crypto tx with
    | none => pure none
    | some id =>
      if capacity < (hashSize * i) % 2 ^ 32 + hashSize then .error .outOfBounds
      else (computeLeaves block capacity rest).map (Option.map (id :: ·))

/-- `compute_merkle_root`: `some root` when it returns 0 having written `root`, `none` when it
returns 1. The leaf buffer gets `HASH_SIZE * transaction_count` bytes, a `uint32_t` product. -/
def computeMerkleRoot (block : Block Hash) : Except Fault (Option Hash) := do
  let count := block.transactionCount.toNat
  match ← computeLeaves crypto block ((hashSize * count) % 2 ^ 32) (List.range count) with
  | none => pure none
  | some hashes =>
    match ← constructMerkleTreeFromLeaves crypto.merkleNodeHash hashes with
    | none => .error .assertion
    | some tree => pure (some tree.root.hash)

/-- `valid_merkle_root`. -/
def validMerkleRoot (block : Block Hash) : Except Fault Bool := do
  match ← computeMerkleRoot crypto block with
  | none => pure false
  | some root => pure (root == block.merkleRoot)

/-- The two loops of `valid_block` over the inputs of `first` and of `second`: no two spend the
same output; a null input makes the check fail. -/
def inputsDisjoint (first second : Transaction Hash) : Bool :=
  (List.range first.txinCount.toNat).all fun k =>
    match slot first.txins k with
    | none => false
    | some txinFirst =>
      (List.range second.txinCount.toNat).all fun l =>
        match slot second.txins l with
        | none => false
        | some txinSecond =>
          !(txinFirst.transaction == txinSecond.transaction &&
            txinFirst.txoutIndex == txinSecond.txoutIndex)

/-- The loops of `valid_block` over ordered pairs of transactions, each returning 0 at its first
failed check: each transaction is present and valid, none but the first is a coinbase, and two
different indices hold different ids and inputs that spend different outputs. -/
def validBlockTransactions (block : Block Hash) : Except Fault Bool :=
  (List.range block.transactionCount.toNat).allM fun first => do
    match ← block.readTx first with
    | none => pure false
    | some firstTx =>
      if !(validTransaction crypto firstTx && !(first != 0 && isCoinbaseTx crypto firstTx)) then
        pure false
      else
        (List.range block.transactionCount.toNat).allM fun second => do
          match ← block.readTx second with
          | none => pure false
          | some secondTx =>
            pure (first == second || (firstTx.id != secondTx.id && inputsDisjoint firstTx secondTx))

/-- `valid_block`, `now` being what `get_current_time` returns and `fresh` what the buffer of
`compute_block_hash` holds before the header is written. -/
def validBlock (now : Nat) (fresh : Bytes) (block : Block Hash) : Except Fault Bool :=
  if !validBlockTimestamp params now block then .ok false
  else if block.transactionCount.toNat < 1 then .ok false
  else do
    match ← block.readTx 0 with
    | none => pure false
    | some coinbase =>
      if !isCoinbaseTx crypto coinbase then pure false
      else do
        let checked ← validBlockTransactions crypto block
        if !checked then pure false
        else do
          let size ← getBlockHeaderSize block
          if params.maxBlockSize < size.toNat then pure false
          else if !validBlockHash params crypto fresh block then pure false
          else validMerkleRoot crypto block

/-! `validate_tx_signatures` is in `transaction.c`, which is not among the sources: it is a
parameter, any function of the transaction returning a status or faulting. -/

variable (validateTxSignatures : Transaction Hash → Except Fault UInt32)

/-- The loop of `validate_block_signatures`: each transaction asserted non-null, in order; 1 at
the first one for which `validate_tx_signatures` does not return 0. -/
def validateSignaturesFrom (block : Block Hash) : List Nat → Except Fault UInt32
  | [] => .ok 0
  | i :: rest => do
    let tx ← block.assertTx i
    let status ← validateTxSignatures tx
    if status ≠ 0 then pure 1 else validateSignaturesFrom block rest

/-- `validate_block_signatures`. -/
def validateBlockSignatures (block : Block Hash) : Except Fault UInt32 :=
  validateSignaturesFrom validateTxSignatures block (List.range block.transactionCount.toNat)

end Model

end VulkanCore
