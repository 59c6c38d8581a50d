import VulkanCore.Core.BlockCodec
import VulkanCore.Verif.WellFormed

/-!
# The block encoding

`serialize_block` writes nine fields and `deserialize_block` reads nine, in the same order and
widths, so a header reads back whatever follows it (`deserializeBlock_serializeBlock`), and with
the transactions after it a well-formed block comes back whole (`decodeBlock_serializeBlock`).
Two things the decoder does not check: the declared length of a hash field, of which `memcpy`
keeps the first `HASH_SIZE` bytes, so that longer fields decode to the same block and the
encoding is not canonical (`deserializeBlock_not_canonical`); and `transaction_count`, which is
taken as declared, whatever `MAX_BLOCK_SIZE` allows (`deserializeBlock_accepts_any_count`).
-/

namespace VulkanCore

section Model

variable {Hash : Type} (params : Parameters) (crypto : Crypto Hash)

/-- One read of `deserialize_block` on an encoding cut at `cut`: the decoder returns 1 when the
cut falls inside the field, and goes on with the value and the cut rest otherwise. -/
theorem readOrFail_take {α β : Type} {read : Reader α} {written : Bytes} {value : α}
    (reads : ∀ rest, read (written ++ rest) = some (value, rest))
    (refuses : ∀ cut < written.length, read (written.take cut) = none)
    (next : α → Bytes → Except Fault (Option β)) (rest : Bytes) (cut : Nat) :
    readOrFail (read ((written ++ rest).take cut)) next =
      if written.length ≤ cut then next value (rest.take (cut - written.length)) else .ok none := by
  rw [read_take reads refuses]
  split_ifs <;> rfl

section Hashes

variable (sized : ∀ hash, (crypto.hashBytes hash).length = hashSize)
  (readsBack : ∀ hash, crypto.hashOfBytes (crypto.hashBytes hash) = hash)
include sized

/-- A hash field goes out as `HASH_SIZE` bytes behind their length and reads back whole. -/
theorem bufferReadBytes32_hashBytes (hash : Hash) (rest : Bytes) :
    bufferReadBytes32 (bufferWriteBytes32 (crypto.hashBytes hash) ++ rest) =
      some (crypto.hashBytes hash, rest) :=
  bufferReadBytes32_write _ rest (by rw [sized]; decide)

include readsBack in
/-- `memcpy` of a hash's bytes into a field gives the hash back. -/
theorem copyHash_hashBytes (hash : Hash) : copyHash crypto (crypto.hashBytes hash) = .ok hash := by
  simp [copyHash, sized, readsBack, List.take_of_length_le (sized hash).le]

include readsBack in
/-- `deserialize_block` reads back what `serialize_block` wrote, whatever follows it: every field
of the block but its transactions, which stay null. -/
theorem deserializeBlock_serializeBlock (block : Block Hash) (rest : Bytes) :
    deserializeBlock params crypto (serializeBlock crypto block ++ rest) =
      .ok (some ({ block with transactions := none }, rest)) := by
  simp only [deserializeBlock, serializeBlock, List.append_assoc, readOrFail,
    bufferReadUint32_inverts _ _, bufferReadUint64_inverts _ _,
    bufferReadBytes32_hashBytes crypto sized, copyHash_hashBytes crypto sized readsBack,
    except_ok_bind]
  rfl

/-- The bytes of a hash, with more bytes after them, go into the field as the hash. -/
theorem copyHash_hashBytes_append (readsBack : ∀ hash, crypto.hashOfBytes (crypto.hashBytes hash) = hash)
    (hash : Hash) (pad : Bytes) : copyHash crypto (crypto.hashBytes hash ++ pad) = .ok hash := by
  simp [copyHash, sized, readsBack, List.take_append_of_le_length (sized hash).ge,
    List.take_of_length_le (sized hash).le]

/-- `memcpy` of a hash's bytes into a field never reads past them. -/
theorem copyHash_hashBytes_eq (hash : Hash) :
    copyHash crypto (crypto.hashBytes hash) = .ok (crypto.hashOfBytes (crypto.hashBytes hash)) := by
  simp [copyHash, sized, List.take_of_length_le (sized hash).le]

/-- `deserialize_block` refuses every strict prefix of a block's encoding: on a header cut short
it returns 1, without faulting and without reading a block. -/
theorem deserializeBlock_truncated (block : Block Hash) (cut : Nat)
    (short : cut < (serializeBlock crypto block).length) :
    deserializeBlock params crypto ((serializeBlock crypto block).take cut) = .ok none := by
  have hashField := fun hash =>
    bufferReadBytes32_take (crypto.hashBytes hash) (by rw [sized]; decide)
  simp only [serializeBlock, List.length_append, bufferWriteUint32_length, bufferWriteUint64_length,
    bufferWriteBytes32_length, sized, hashSize] at short
  rw [← List.append_nil (serializeBlock crypto block)]
  simp only [deserializeBlock, serializeBlock, List.append_assoc,
    readOrFail_take (bufferReadUint32_inverts _) (bufferReadUint32_take _),
    readOrFail_take (bufferReadUint64_inverts _) (bufferReadUint64_take _),
    readOrFail_take (bufferReadBytes32_hashBytes crypto sized _) (hashField _)]
  simp only [copyHash_hashBytes_eq crypto sized, except_ok_bind]
  simp only [bufferWriteUint32_length, bufferWriteUint64_length, bufferWriteBytes32_length, sized,
    hashSize]
  simp only [ite_eq_right_iff, Except.ok.injEq, reduceCtorEq, imp_false]
  omega

end Hashes

/-- The first 110 of the 136 bytes of a sample block's header, cut inside its Merkle root, are
refused. -/
theorem deserializeBlock_truncated_sampleBlock :
    110 < (serializeBlock Crypto.truncating (sampleBlock 3)).length ∧
      deserializeBlock ⟨1, 0, 0, 0⟩ Crypto.truncating
        ((serializeBlock Crypto.truncating (sampleBlock 3)).take 110) = .ok none :=
  have encoded : 110 < (serializeBlock Crypto.truncating (sampleBlock 3)).length := by
    simp [serializeBlock, Crypto.truncating_sized, hashSize]
  ⟨encoded, deserializeBlock_truncated ⟨1, 0, 0, 0⟩ Crypto.truncating Crypto.truncating_sized _ 110
    encoded⟩

/-- What `serialize_block` writes, with `pad` after the previous hash inside its length-prefixed
field. -/
def serializeBlockPadded (block : Block Hash) (pad : Bytes) : Bytes :=
  bufferWriteUint32 block.version ++
    bufferWriteBytes32 (crypto.hashBytes block.previousHash ++ pad) ++
    bufferWriteBytes32 (crypto.hashBytes block.hash) ++ bufferWriteUint32 block.timestamp ++
    bufferWriteUint32 block.nonce ++ bufferWriteUint32 block.bits ++
    bufferWriteUint64 block.cumulativeEmission ++
    bufferWriteBytes32 (crypto.hashBytes block.merkleRoot) ++
    bufferWriteUint32 block.transactionCount

/-- `deserialize_block` accepts a previous hash longer than `HASH_SIZE` and keeps its first
`HASH_SIZE` bytes. -/
theorem deserializeBlock_serializeBlockPadded
    (sized : ∀ hash, (crypto.hashBytes hash).length = hashSize)
    (readsBack : ∀ hash, crypto.hashOfBytes (crypto.hashBytes hash) = hash)
    (block : Block Hash) (pad : Bytes) (short : hashSize + pad.length < 2 ^ 32) (rest : Bytes) :
    deserializeBlock params crypto (serializeBlockPadded crypto block pad ++ rest) =
      .ok (some ({ block with transactions := none }, rest)) := by
  have field := bufferReadBytes32_write (crypto.hashBytes block.previousHash ++ pad)
  simp only [List.length_append, sized] at field
  simp only [deserializeBlock, serializeBlockPadded, List.append_assoc, readOrFail,
    bufferReadUint32_inverts _ _, bufferReadUint64_inverts _ _, field _ short,
    bufferReadBytes32_hashBytes crypto sized, copyHash_hashBytes crypto sized readsBack,
    copyHash_hashBytes_append crypto sized readsBack, except_ok_bind]
  rfl

/-- The block encoding is not canonical: a previous hash declared `HASH_SIZE` bytes longer than
it is, by any nonempty `pad`, decodes to the same block as the encoding `serialize_block`
writes, so that `serialize_block` of the block read does not write the bytes read. -/
theorem deserializeBlock_not_canonical
    (sized : ∀ hash, (crypto.hashBytes hash).length = hashSize)
    (readsBack : ∀ hash, crypto.hashOfBytes (crypto.hashBytes hash) = hash)
    (block : Block Hash) (pad : Bytes) (padded : pad ≠ []) (short : hashSize + pad.length < 2 ^ 32)
    (rest : Bytes) :
    deserializeBlock params crypto (serializeBlockPadded crypto block pad ++ rest) =
        .ok (some ({ block with transactions := none }, rest)) ∧
      deserializeBlock params crypto (serializeBlock crypto block ++ rest) =
        .ok (some ({ block with transactions := none }, rest)) ∧
      serializeBlock crypto { block with transactions := none } ≠
        serializeBlockPadded crypto block pad := by
  refine ⟨deserializeBlock_serializeBlockPadded params crypto sized readsBack block pad short rest,
    deserializeBlock_serializeBlock params crypto sized readsBack block rest, fun same => ?_⟩
  have lengths := congrArg List.length same
  simp [serializeBlock, serializeBlockPadded] at lengths
  exact padded lengths

section Transactions

variable (readTransaction : Reader (Transaction Hash)) (writeTransaction : Transaction Hash → Bytes)

/-- Writing `value` over the first unwritten slot after `written` extends the written slots. -/
theorem set_append_none {α : Type} (written : List α) (later i : Nat) (value : α)
    (next : written.length = i) :
    (written.map some ++ List.replicate (later + 1) none).set i (some value) =
      (written ++ [value]).map some ++ List.replicate later none := by
  subst next
  rw [List.set_append_right _ _ (by simp), List.length_map, Nat.sub_self, List.replicate_succ,
    List.set_cons_zero]
  simp

/-- The loop of `deserialize_transactions_to_block` over the encodings of transactions, each of
which reads back, fills the slots from `k` on with them, in order. -/
theorem readTransactionsInto_flatMap (txs : List (Transaction Hash))
    (inverts : ∀ tx ∈ txs, ∀ rest, readTransaction (writeTransaction tx ++ rest) = some (tx, rest))
    (rest : Bytes) (later : Nat) :
    ∀ k, k + later = txs.length →
      readTransactionsInto readTransaction ((txs.take k).map some ++ List.replicate later none)
        (List.range' k later) ((txs.drop k).flatMap writeTransaction ++ rest) =
        (txs.map some, some rest) := by
  induction later with
  | zero =>
    intro k counted
    obtain rfl : k = txs.length := by omega
    simp [readTransactionsInto]
  | succ later ih =>
    intro k counted
    have inside : k < txs.length := by omega
    rw [List.drop_eq_getElem_cons inside, List.flatMap_cons, List.append_assoc,
      List.range'_succ, readTransactionsInto, inverts _ (List.getElem_mem inside)]
    have shorter : (txs.take k).length = k := by simp only [List.length_take]; omega
    simp only
    have grown : txs.take k ++ [txs[k]] = txs.take (k + 1) := by
      rw [List.take_succ, List.getElem?_eq_getElem inside]
      rfl
    rw [set_append_none _ _ _ _ shorter, grown]
    exact ih (k + 1) (by omega)

/-- The loop of `deserialize_transactions_to_block` only writes slots; it never adds one. -/
theorem length_readTransactionsInto (slots : List (Option (Transaction Hash))) (indices : List Nat)
    (bytes : Bytes) : (readTransactionsInto readTransaction slots indices bytes).1.length =
      slots.length := by
  induction indices generalizing slots bytes with
  | nil => rfl
  | cons i rest ih =>
    rw [readTransactionsInto]
    cases readTransaction bytes with
    | none => rfl
    | some read => simp [ih]

/-- `deserialize_transactions_to_block` over the encodings of a well-formed block's transactions,
each of which reads back, puts each of them back at its index. -/
theorem deserializeTransactionsToBlock_listed (block : Block Hash) (wellFormed : block.WellFormed)
    (inverts : ∀ tx ∈ block.listed, ∀ rest,
      readTransaction (writeTransaction tx ++ rest) = some (tx, rest))
    (stored : Option (List (Option (Transaction Hash)))) (rest : Bytes) :
    ∃ decoded, deserializeTransactionsToBlock readTransaction
        (block.listed.flatMap writeTransaction ++ rest) { block with transactions := stored } =
        (decoded, some rest) ∧
      decoded = { block with transactions := decoded.transactions } ∧
      ∀ i < block.transactionCount.toNat, decoded.tx i = block.tx i := by
  have counted := block.length_listed wellFormed
  by_cases declared : 0 < block.transactionCount.toNat
  · have filled := readTransactionsInto_flatMap readTransaction writeTransaction block.listed
      inverts rest block.transactionCount.toNat 0 (by omega)
    simp only [List.take_zero, List.map_nil, List.nil_append, List.drop_zero,
      ← List.range_eq_range'] at filled
    refine ⟨{ block with transactions := some (block.listed.map some) }, ?_, rfl, fun i below => ?_⟩
    · simp only [deserializeTransactionsToBlock, if_pos declared, filled]
    · rw [block.tx_eq_listed wellFormed i below]
      simp only [Block.tx, slot, Option.some_bind, List.getElem?_map]
      cases block.listed[i]? <;> rfl
  · refine ⟨{ block with transactions := stored }, ?_, rfl, fun i below => absurd below (by omega)⟩
    have empty : block.listed = [] := List.eq_nil_of_length_eq_zero (by omega)
    simp [deserializeTransactionsToBlock, declared, empty]

end Transactions

/-- `compare_transaction` holds of a transaction and itself. -/
theorem compareTransaction_self [DecidableEq Hash] (tx : Transaction Hash) :
    compareTransaction tx tx = true := by
  simp [compareTransaction]

/-- The block encoding round trip: a well-formed block written by `serialize_block` and then
`serialize_transactions_from_block`, followed by any bytes, decodes by `deserialize_block` and
`deserialize_transactions_to_block` to a block with the same header fields and count, whose
transactions `compare_transaction` finds equal to the originals, with exactly the bytes after it
left over. The buffer readers invert their writers, a hash reads back from its bytes, and
`deserialize_transaction` inverts `serialize_transaction` on the block's transactions. -/
theorem decodeBlock_serializeBlock [DecidableEq Hash]
    (sized : ∀ hash, (crypto.hashBytes hash).length = hashSize)
    (readsBack : ∀ hash, crypto.hashOfBytes (crypto.hashBytes hash) = hash)
    (readTransaction : Reader (Transaction Hash)) (writeTransaction : Transaction Hash → Bytes)
    (block : Block Hash) (wellFormed : block.WellFormed)
    (inverts : ∀ i < block.transactionCount.toNat, ∀ tx, block.tx i = some tx → ∀ rest,
      readTransaction (writeTransaction tx ++ rest) = some (tx, rest))
    (rest : Bytes) :
    ∃ encoded decoded, serializeTransactionsFromBlock writeTransaction block = .ok encoded ∧
      decodeBlock params crypto readTransaction (serializeBlock crypto block ++ encoded ++ rest) =
        .ok (some (decoded, some rest)) ∧
      decoded = { block with transactions := decoded.transactions } ∧
      ∀ i < block.transactionCount.toNat, ∃ tx decodedTx, block.tx i = some tx ∧
        decoded.tx i = some decodedTx ∧ compareTransaction tx decodedTx = true := by
  have listedInverts : ∀ tx ∈ block.listed, ∀ rest,
      readTransaction (writeTransaction tx ++ rest) = some (tx, rest) := by
    intro tx mem
    obtain ⟨i, within, found⟩ := List.mem_filterMap.mp mem
    exact inverts i (List.mem_range.mp within) tx found
  obtain ⟨decoded, run, same, slots⟩ := deserializeTransactionsToBlock_listed readTransaction
    writeTransaction block wellFormed listedInverts none rest
  refine ⟨block.listed.flatMap writeTransaction, decoded, ?_, ?_, same, fun i below => ?_⟩
  · simp [serializeTransactionsFromBlock, block.assertedTransactions_of_wellFormed wellFormed]
  · rw [List.append_assoc, decodeBlock, deserializeBlock_serializeBlock params crypto sized
      readsBack]
    simp [run]
  · obtain ⟨tx, found⟩ := Option.isSome_iff_exists.mp (wellFormed i below)
    exact ⟨tx, tx, found, by rw [slots i below, found], compareTransaction_self tx⟩

/-- `deserialize_block` puts no bound on `transaction_count`: the encoding of every header,
whatever count it declares, decodes, also through `block_from_serialized`, and
`deserialize_transactions_to_block` then sets up an array of that many slots. -/
theorem deserializeBlock_accepts_any_count
    (sized : ∀ hash, (crypto.hashBytes hash).length = hashSize)
    (readsBack : ∀ hash, crypto.hashOfBytes (crypto.hashBytes hash) = hash)
    (readTransaction : Reader (Transaction Hash)) (block : Block Hash) (rest : Bytes) :
    blockFromSerialized params crypto (serializeBlock crypto block) =
        .ok (some { block with transactions := none }) ∧
      ∃ decoded, deserializeBlock params crypto (serializeBlock crypto block ++ rest) =
          .ok (some (decoded, rest)) ∧ decoded.transactionCount = block.transactionCount ∧
        (0 < block.transactionCount.toNat → ∃ slots,
          (deserializeTransactionsToBlock readTransaction rest decoded).1.transactions = some slots ∧
            slots.length = block.transactionCount.toNat) := by
  have decoded := deserializeBlock_serializeBlock params crypto sized readsBack block
  refine ⟨?_, _, decoded rest, rfl, fun declared => ⟨(readTransactionsInto readTransaction
    (List.replicate block.transactionCount.toNat none) (List.range block.transactionCount.toNat)
    rest).1, ?_, by simp [length_readTransactionsInto]⟩⟩
  · rw [blockFromSerialized, ← List.append_nil (serializeBlock crypto block), decoded]
    rfl
  · simp [deserializeTransactionsToBlock, declared]

end Model

/-- The sample block's header, declaring `2 ^ 32 - 1` transactions. -/
def maxCountBlock : Block Digest := { sampleBlock 0 with transactionCount := 4294967295 }

/-- The 136 bytes of a header declaring `2 ^ 32 - 1` transactions come back from
`block_from_serialized` as a block. -/
theorem deserializeBlock_accepts_max_count :
    (serializeBlock Crypto.truncating maxCountBlock).length = 136 ∧
      blockFromSerialized ⟨1, 0, 0, 0⟩ Crypto.truncating
          (serializeBlock Crypto.truncating maxCountBlock) =
        .ok (some { maxCountBlock with transactions := none }) :=
  ⟨by simp [serializeBlock, Crypto.truncating_sized, hashSize],
    (deserializeBlock_accepts_any_count ⟨1, 0, 0, 0⟩ Crypto.truncating Crypto.truncating_sized
      Crypto.truncating_readsBack (fun _ => none) maxCountBlock []).1⟩

/-- A previous hash declared one byte longer decodes to the header of the three-transaction
sample block, as the encoding `serialize_block` writes does. -/
theorem deserializeBlock_not_canonical_sampleBlock :
    deserializeBlock ⟨1, 0, 0, 0⟩ Crypto.truncating
        (serializeBlockPadded Crypto.truncating (sampleBlock 3) [0] ++ []) =
      deserializeBlock ⟨1, 0, 0, 0⟩ Crypto.truncating
        (serializeBlock Crypto.truncating (sampleBlock 3) ++ []) ∧
      serializeBlock Crypto.truncating { sampleBlock 3 with transactions := none } ≠
        serializeBlockPadded Crypto.truncating (sampleBlock 3) [0] := by
  obtain ⟨padded, plain, differ⟩ := deserializeBlock_not_canonical ⟨1, 0, 0, 0⟩ Crypto.truncating
    Crypto.truncating_sized Crypto.truncating_readsBack (sampleBlock 3) [0] (by simp) (by decide) []
  exact ⟨padded.trans plain.symm, differ⟩

/-- A transaction codec for the sample transactions: a transaction is written as the first byte
of its id, which for `sampleTx k` is `k + 1`. -/
def sampleWriter (tx : Transaction Digest) : Bytes := tx.id.val.take 1

/-- Reads back what `sampleWriter` writes of a sample transaction. -/
def sampleReader : Reader (Transaction Digest)
  | byte :: rest => some (sampleTx (byte.toNat - 1), rest)
  | [] => none

/-- A block of three transactions with inputs, under 32-byte hashes, round-trips under the
sample codec, header and count included. -/
theorem decodeBlock_serializeBlock_sampleBlock :
    ∃ encoded decoded,
      serializeTransactionsFromBlock sampleWriter (sampleBlock 3) = .ok encoded ∧
      decodeBlock ⟨1, 0, 0, 0⟩ Crypto.truncating sampleReader
        (serializeBlock Crypto.truncating (sampleBlock 3) ++ encoded ++ []) =
        .ok (some (decoded, some [])) ∧
      decoded = { sampleBlock 3 with transactions := decoded.transactions } := by
  obtain ⟨encoded, decoded, written, run, same, -⟩ := decodeBlock_serializeBlock ⟨1, 0, 0, 0⟩
    Crypto.truncating Crypto.truncating_sized Crypto.truncating_readsBack sampleReader sampleWriter
    (sampleBlock 3) (sampleBlock_wellFormed 3 (by decide))
    (fun i below tx found rest => by
      rw [sampleBlock_tx 3 (by decide) i below, Option.some.injEq] at found
      subst found
      match i, (below : i < 3) with
      | 0, _ | 1, _ | 2, _ => rfl) []
  exact ⟨encoded, decoded, written, run, same⟩

end VulkanCore
