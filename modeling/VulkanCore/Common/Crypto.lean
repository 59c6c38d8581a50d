import VulkanCore.Common.Buffer

/-!
# Hashes, signatures and network constants

The core compares 32-byte hashes with `compare_hash`, copies them with `memcpy`, writes them into
buffers and makes them with `crypto_hash_sha256d`, and checks signatures with libsodium. None of
`crypto/`, `common/util.c`, libsodium, `block.h` or `parameters.h` is among the sources. A hash
is a value of an abstract type with decidable equality, which is `compare_hash`; `Crypto`
collects the functions the core applies to hashes and signatures, and `Parameters` the constants
fixed per network. What a result needs of these functions (a hash reads back from its bytes, the
Merkle node hash is injective) is a hypothesis of that result, never assumed for all. The
examples run on concrete cryptos: `Crypto.unit`, and `Crypto.truncating` over `Digest`, the
`HASH_SIZE` bytes themselves.
-/

namespace VulkanCore

/-- `HASH_SIZE`. -/
def hashSize : Nat := 32

/-- `BLOCK_HEADER_SIZE`. Modelled from the spec: `block.h` is not among the sources, and the
spec gives 92 bytes. -/
def blockHeaderSize : Nat := 92

/-- The hash and signature functions the core calls. -/
structure Crypto (Hash : Type) where
  /-- `crypto_hash_sha256d`: double SHA-256 of a byte string. -/
  sha256d : Bytes → Hash
  /-- The `HASH_SIZE` bytes of a hash field, as `memcpy` and `buffer_write` take them. -/
  hashBytes : Hash → Bytes
  /-- The hash field `memcpy` fills from the first `HASH_SIZE` bytes of a buffer. -/
  hashOfBytes : Bytes → Hash
  /-- `crypto_sign_verify_detached`: a signature over a message under a public key. -/
  signVerify : (signature message publicKey : Bytes) → Bool

/-- The constants of `block.h` and `parameters.h` the core reads. -/
structure Parameters where
  /-- `BLOCK_VERSION`. -/
  blockVersion : UInt32
  /-- `MAX_BLOCK_SIZE`. -/
  maxBlockSize : Nat
  /-- `MAX_FUTURE_BLOCK_TIME`, in seconds. -/
  maxFutureBlockTime : Nat
  /-- The largest proof-of-work target the network allows. -/
  powLimit : Nat

namespace Crypto

variable {Hash : Type} (crypto : Crypto Hash)

/-- The hash whose bytes are all zero: `memset(hash, 0, HASH_SIZE)`, and `zero_tx_hash`. -/
def zeroHash : Hash := crypto.hashOfBytes (List.replicate hashSize 0)

/-- The hash `construct_merkle_node` gives a parent: `sha256d` of the left child's `HASH_SIZE`
bytes followed by the right child's. -/
def merkleNodeHash (left right : Hash) : Hash :=
  crypto.sha256d (crypto.hashBytes left ++ crypto.hashBytes right)

/-- The crypto of a network with a single hash value, written as `HASH_SIZE` zero bytes, under
which every signature verifies. -/
def unit : Crypto Unit :=
  ⟨fun _ => (), fun _ => List.replicate hashSize 0, fun _ => (), fun _ _ _ => true⟩

end Crypto

/-- A hash as the C code holds it, `uint8_t[HASH_SIZE]`: exactly `HASH_SIZE` bytes, equal when
`compare_hash` finds every byte equal. -/
def Digest : Type := { bytes : Bytes // bytes.length = hashSize }

/-- Digests are compared byte by byte, as `compare_hash` does. -/
instance : DecidableEq Digest := inferInstanceAs (DecidableEq { bytes : Bytes // bytes.length = hashSize })

/-- The `HASH_SIZE` bytes `memcpy(hash, buffer, HASH_SIZE)` copies from the start of a buffer,
zeros past its end. -/
def Digest.ofBytes (bytes : Bytes) : Digest :=
  ⟨(bytes ++ List.replicate hashSize 0).take hashSize, by
    rw [List.length_take, List.length_append, List.length_replicate]; omega⟩

/-- The first `HASH_SIZE` bytes of a buffer that starts with a hash are that hash. -/
theorem Digest.ofBytes_append (hash : Digest) (rest : Bytes) : Digest.ofBytes (hash.val ++ rest) = hash :=
  Subtype.ext (by
    show ((hash.val ++ rest) ++ List.replicate hashSize 0).take hashSize = hash.val
    rw [List.append_assoc, List.take_left' hash.property])

namespace Crypto

/-- The crypto of a network whose hashes are `Digest`s, under a stand-in for `sha256d` that keeps
the first `HASH_SIZE` bytes of what it hashes, and under which every signature verifies. -/
def truncating : Crypto Digest := ⟨Digest.ofBytes, Subtype.val, Digest.ofBytes, fun _ _ _ => true⟩

/-- A `Digest` is written as its `HASH_SIZE` bytes. -/
theorem truncating_sized (hash : Digest) : (truncating.hashBytes hash).length = hashSize :=
  hash.property

/-- A `Digest` reads back from its bytes. -/
theorem truncating_readsBack (hash : Digest) : truncating.hashOfBytes (truncating.hashBytes hash) = hash :=
  by simpa using Digest.ofBytes_append hash []

end Crypto

end VulkanCore
