import VulkanCore.Core.Block

/-!
# What `compute_block_hash` hashes

`compute_block_hash` allocates a buffer of `BLOCK_HEADER_SIZE` bytes, lets
`serialize_block_header` write into it, and hashes `BLOCK_HEADER_SIZE` bytes from its start. The
header is four `uint32_t` fields, one `uint64_t` and two hashes: 88 bytes, four short of the
92 the spec gives `BLOCK_HEADER_SIZE`. The last four bytes hashed are whatever the allocation
held, so the block hash is `sha256d` of the header followed by four bytes no field of the block
decides, and under an injective `sha256d` two buffers that differ there give one block two
hashes.
-/

namespace VulkanCore

section Model

variable {Hash : Type} (crypto : Crypto Hash)

/-- `serialize_block_header` writes 88 bytes when a hash is `HASH_SIZE` bytes. -/
theorem serializeBlockHeader_length (sized : ∀ hash, (crypto.hashBytes hash).length = hashSize)
    (block : Block Hash) : (serializeBlockHeader crypto block).length = 88 := by
  simp [serializeBlockHeader, sized, hashSize]

/-- `compute_block_hash` hashes the 88 bytes of the header followed by the last four bytes the
buffer held before. -/
theorem computeBlockHash_eq (sized : ∀ hash, (crypto.hashBytes hash).length = hashSize)
    (fresh : Bytes) (allocated : fresh.length = blockHeaderSize) (block : Block Hash) :
    computeBlockHash crypto fresh block =
      crypto.sha256d (serializeBlockHeader crypto block ++ fresh.drop 88) := by
  have written := serializeBlockHeader_length crypto sized block
  rw [computeBlockHash, written, List.take_of_length_le]
  simp [written, allocated, blockHeaderSize]

/-- The header `compute_block_hash` serializes is four bytes short of what it hashes: under an
injective `sha256d` the block hash is not `sha256d` of the header, and it depends on the four
bytes the buffer held before, which no field of the block decides. -/
theorem computeBlockHash_reads_unwritten (sized : ∀ hash, (crypto.hashBytes hash).length = hashSize)
    (injective : Function.Injective crypto.sha256d) (block : Block Hash) (fresh other : Bytes)
    (allocated : fresh.length = blockHeaderSize) (otherAllocated : other.length = blockHeaderSize) :
    (serializeBlockHeader crypto block).length + 4 = blockHeaderSize ∧
      computeBlockHash crypto fresh block ≠ crypto.sha256d (serializeBlockHeader crypto block) ∧
      (computeBlockHash crypto fresh block = computeBlockHash crypto other block ↔
        fresh.drop 88 = other.drop 88) := by
  have written := serializeBlockHeader_length crypto sized block
  rw [computeBlockHash_eq crypto sized fresh allocated, computeBlockHash_eq crypto sized other
    otherAllocated, injective.eq_iff, injective.ne_iff, List.append_cancel_left_eq]
  refine ⟨by rw [written]; rfl, fun same => ?_, Iff.rfl⟩
  have lengths := congrArg List.length same
  simp [written, allocated, blockHeaderSize] at lengths

end Model

/-- `check_proof_of_work` reads a hash of `n` bytes as a number below `256 ^ n`. -/
theorem bigEndian_lt (bytes : Bytes) : bigEndian bytes < 256 ^ bytes.length := by
  suffices reads : ∀ value, bytes.foldl (fun value byte => 256 * value + byte.toNat) value <
      (value + 1) * 256 ^ bytes.length by
    simpa using reads 0
  induction bytes with
  | nil => intro value; simp
  | cons byte rest ih =>
    intro value
    have digit : byte.toNat < 256 := byte.toNat_lt_size
    calc rest.foldl (fun value byte => 256 * value + byte.toNat) (256 * value + byte.toNat)
        < (256 * value + byte.toNat + 1) * 256 ^ rest.length := ih _
      _ ≤ (256 * value + 256) * 256 ^ rest.length := Nat.mul_le_mul_right _ (by omega)
      _ = (value + 1) * 256 ^ (byte :: rest).length := by rw [List.length_cons, pow_succ]; ring

/-- An injective stand-in for `crypto_hash_sha256d`, a hash written as its first `HASH_SIZE` bytes
padded with zeros: the input reversed, so that, as under `sha256d`, a change in the last bytes
hashed changes the bytes the hash is written as. -/
def reversingCrypto : Crypto Bytes :=
  ⟨List.reverse, fun hash => (hash ++ List.replicate hashSize 0).take hashSize, id, fun _ _ _ => true⟩

/-- Every hash of `reversingCrypto` is written as `HASH_SIZE` bytes. -/
theorem reversingCrypto_sized (hash : Bytes) :
    (reversingCrypto.hashBytes hash).length = hashSize := by
  simp [reversingCrypto]

/-- `make_block`'s block gets two different hashes from a buffer of zeros and a buffer of ones,
and the `HASH_SIZE` bytes `compare_hash` reads of them differ too. -/
theorem computeBlockHash_reads_unwritten_makeBlock :
    (serializeBlockHeader reversingCrypto (makeBlock ⟨1, 0, 0, 0⟩ reversingCrypto)).length + 4 =
        blockHeaderSize ∧
      computeBlockHash reversingCrypto (List.replicate 92 0) (makeBlock ⟨1, 0, 0, 0⟩ reversingCrypto) ≠
        computeBlockHash reversingCrypto (List.replicate 92 1)
          (makeBlock ⟨1, 0, 0, 0⟩ reversingCrypto) ∧
      reversingCrypto.hashBytes (computeBlockHash reversingCrypto (List.replicate 92 0)
          (makeBlock ⟨1, 0, 0, 0⟩ reversingCrypto)) ≠
        reversingCrypto.hashBytes (computeBlockHash reversingCrypto (List.replicate 92 1)
          (makeBlock ⟨1, 0, 0, 0⟩ reversingCrypto)) := by
  have stale := computeBlockHash_reads_unwritten reversingCrypto reversingCrypto_sized
    List.reverse_injective (makeBlock ⟨1, 0, 0, 0⟩ reversingCrypto) (List.replicate 92 0)
    (List.replicate 92 1) rfl rfl
  exact ⟨stale.1, fun same => absurd (stale.2.2.mp same) (by decide), by decide⟩

end VulkanCore
