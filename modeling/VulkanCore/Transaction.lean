import VulkanCore.Common.Crypto
import VulkanCore.Common.Memory

/-!
# Transactions

`transaction.h` gives the layout: an input names the output it spends (`transaction`,
`txout_index`) and carries a signature and a public key; an output an amount and an address; a
transaction its id, the `uint8_t` counts of inputs and outputs, and two arrays of pointers.
`transaction.c` is not among the sources. The functions of it that the block code calls are
modelled from the spec's transaction model: the coinbase test, the signing preimage and the id
hashed from it, the six conditions of `valid_transaction`, and the header size. Each reads the
slots below its count and gives up on a null one.
-/

namespace VulkanCore

/-- `TXIN_HEADER_SIZE`: the previous transaction id and the output index. -/
def txinHeaderSize : Nat := 32 + 4

/-- `TXOUT_HEADER_SIZE`. -/
def txoutHeaderSize : Nat := 32 + 4

/-- `input_transaction_t`. -/
structure InputTransaction (Hash : Type) where
  /-- The id of the transaction whose output this input spends. -/
  transaction : Hash
  /-- The index of that output. -/
  txoutIndex : UInt32
  /-- `crypto_sign_BYTES` of signature. -/
  signature : Bytes
  /-- `crypto_sign_PUBLICKEYBYTES` of public key. -/
  publicKey : Bytes
deriving DecidableEq

/-- `output_transaction_t`. -/
structure OutputTransaction where
  /-- The amount, in the smallest unit. -/
  amount : UInt64
  /-- `ADDRESS_SIZE` bytes of address. -/
  address : Bytes
deriving DecidableEq

/-- `transaction_t`: a slot `none` of `txins` or `txouts` is a null pointer. -/
structure Transaction (Hash : Type) where
  /-- The stored id. -/
  id : Hash
  /-- `txin_count`. -/
  txinCount : UInt8
  /-- `txout_count`. -/
  txoutCount : UInt8
  /-- `txins`, an array of pointers. -/
  txins : List (Option (InputTransaction Hash))
  /-- `txouts`, an array of pointers. -/
  txouts : List (Option OutputTransaction)
deriving DecidableEq

namespace Transaction

variable {Hash : Type} [DecidableEq Hash] (crypto : Crypto Hash) (tx : Transaction Hash)

/-- The inputs `txins[0 .. txin_count)`; none when one of them is null. -/
def inputs : Option (List (InputTransaction Hash)) :=
  (List.range tx.txinCount.toNat).mapM (slot tx.txins)

/-- The outputs `txouts[0 .. txout_count)`; none when one of them is null. -/
def outputs : Option (List OutputTransaction) :=
  (List.range tx.txoutCount.toNat).mapM (slot tx.txouts)

end Transaction

section Model

variable {Hash : Type} [DecidableEq Hash] (crypto : Crypto Hash)

/-- Modelled from the spec: an input is a coinbase input when it spends output `0xFFFFFFFF` of
the zero hash. -/
def InputTransaction.isCoinbase (txin : InputTransaction Hash) : Bool :=
  txin.transaction == crypto.zeroHash && txin.txoutIndex == 0xFFFFFFFF

/-- `is_coinbase_tx`. Modelled from the spec: exactly one input, and a coinbase input. -/
def isCoinbaseTx (tx : Transaction Hash) : Bool :=
  tx.txinCount.toNat == 1 &&
    match slot tx.txins 0 with
    | some txin => txin.isCoinbase crypto
    | none => false

/-- `get_txin_header`. Modelled from the spec: the spent id's bytes and the output index. -/
def getTxinHeader (txin : InputTransaction Hash) : Bytes :=
  crypto.hashBytes txin.transaction ++ bufferWriteUint32 txin.txoutIndex

/-- `get_txout_header`. Modelled from the spec: the amount and the address. -/
def getTxoutHeader (txout : OutputTransaction) : Bytes :=
  bufferWriteUint64 txout.amount ++ txout.address

/-- `get_tx_sign_header`. Modelled from the spec: every input header, then every output header;
none when a slot below a count is null. -/
def getTxSignHeader (tx : Transaction Hash) : Option Bytes := do
  let inputs ← tx.inputs
  let outputs ← tx.outputs
  pure (inputs.flatMap (getTxinHeader crypto) ++ outputs.flatMap getTxoutHeader)

/-- `compute_tx_id`. Modelled from the spec: `sha256d` of the signing preimage, so neither the
signatures nor the public keys enter the id. -/
def computeTxId (tx : Transaction Hash) : Option Hash :=
  (getTxSignHeader crypto tx).map crypto.sha256d

/-- `valid_transaction`. Modelled from the spec: at least one input and one output, the stored
id is the computed one, every amount is positive, the amounts sum below `2 ^ 64`, and unless the
transaction is a coinbase every input's signature verifies over the preimage and no two inputs
spend the same output. -/
def validTransaction (tx : Transaction Hash) : Bool :=
  match tx.inputs, tx.outputs, getTxSignHeader crypto tx with
  | some inputs, some outputs, some preimage =>
    1 ≤ tx.txinCount.toNat && 1 ≤ tx.txoutCount.toNat && crypto.sha256d preimage == tx.id &&
      outputs.all (fun txout => 0 < txout.amount.toNat) &&
      decide ((outputs.map fun txout => txout.amount.toNat).sum < 2 ^ 64) &&
      (isCoinbaseTx crypto tx ||
        inputs.all (fun txin => crypto.signVerify txin.signature preimage txin.publicKey) &&
          decide (inputs.map fun txin => (txin.transaction, txin.txoutIndex)).Nodup)
  | _, _, _ => false

/-- `get_tx_header_size`. Modelled from the spec and the header sizes of `transaction.h`: one
`TXIN_HEADER_SIZE` per input and one `TXOUT_HEADER_SIZE` per output, as a `uint32_t`. -/
def getTxHeaderSize (tx : Transaction Hash) : UInt32 :=
  UInt32.ofNat (txinHeaderSize * tx.txinCount.toNat + txoutHeaderSize * tx.txoutCount.toNat)

/-- `compare_transaction`. Modelled from the spec, whose round trip compares transactions field
by field: the ids, the counts, and the inputs and outputs below the counts. -/
def compareTransaction (tx other : Transaction Hash) : Bool :=
  tx.id == other.id && tx.txinCount == other.txinCount && tx.txoutCount == other.txoutCount &&
    tx.inputs == other.inputs && tx.outputs == other.outputs

end Model

end VulkanCore
