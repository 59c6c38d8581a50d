import Mathlib.Data.List.Basic
import Mathlib.Tactic.Ring

/-!
# Byte buffers

`common/buffer.c` is not among the sources; the block codec writes and reads through it. Its
writers and readers are modelled from the specification's codec section: integers are
little-endian and fixed-width, a fixed byte array is written verbatim, and a variable byte
field carries a four-byte little-endian length in front of its bytes. A reader takes one value
from the front of what is left of the input and returns the bytes after it; it refuses an
input that is too short, and a length prefix that runs past the input.
-/

namespace VulkanCore

/-- Bytes in buffer order. -/
abbrev Bytes := List UInt8

/-- A reader of the buffer iterator: one value from the front, and the bytes after it. -/
abbrev Reader (α : Type) := Bytes → Option (α × Bytes)

namespace Reader

variable {α : Type}

/-- Reading what `write` wrote, followed by any bytes, returns the value and those bytes. -/
def Inverts (read : Reader α) (write : α → Bytes) : Prop :=
  ∀ value rest, read (write value ++ rest) = some (value, rest)

end Reader

/-- The `width` low-order base-256 digits of `value`, least significant first. -/
def leBytes : Nat → Nat → Bytes
  | 0, _ => []
  | width + 1, value => UInt8.ofNat value :: leBytes width (value / 256)

/-- Read `width` little-endian base-256 digits from the front; a short input is refused. -/
def readLeBytes : Nat → Reader Nat
  | 0, bytes => some (0, bytes)
  | _ + 1, [] => none
  | width + 1, digit :: rest =>
    (readLeBytes width rest).map fun (high, rest) => (digit.toNat + 256 * high, rest)

/-- A little-endian encoding has exactly its width in bytes. -/
@[simp] theorem leBytes_length (width value : Nat) : (leBytes width value).length = width := by
  induction width generalizing value <;> simp [leBytes, *]

/-- The byte `UInt8.ofNat` keeps is the lowest base-256 digit. -/
theorem byte_ofNat_toNat (value : Nat) : (UInt8.ofNat value).toNat = value % 256 := rfl

/-- Digits of a number below `256 ^ width` read back as that number. -/
theorem readLeBytes_leBytes (width value : Nat) (bound : value < 256 ^ width) (rest : Bytes) :
    readLeBytes width (leBytes width value ++ rest) = some (value, rest) := by
  induction width generalizing value with
  | zero => simp_all [readLeBytes, leBytes]
  | succ width ih =>
    have high : value / 256 < 256 ^ width := by
      rw [Nat.div_lt_iff_lt_mul (by decide)]
      simpa [Nat.pow_succ] using bound
    rw [leBytes, List.cons_append, readLeBytes, ih _ high]
    simp [byte_ofNat_toNat, Nat.mod_add_div]

/-- `buffer_write_uint32`. Modelled from the spec: four little-endian bytes. -/
def bufferWriteUint32 (value : UInt32) : Bytes := leBytes 4 value.toNat

/-- `buffer_read_uint32`. Modelled from the spec: four little-endian bytes. -/
def bufferReadUint32 (bytes : Bytes) : Option (UInt32 × Bytes) :=
  (readLeBytes 4 bytes).map fun (value, rest) => (UInt32.ofNat value, rest)

/-- `buffer_write_uint64`. Modelled from the spec: eight little-endian bytes. -/
def bufferWriteUint64 (value : UInt64) : Bytes := leBytes 8 value.toNat

/-- `buffer_read_uint64`. Modelled from the spec: eight little-endian bytes. -/
def bufferReadUint64 (bytes : Bytes) : Option (UInt64 × Bytes) :=
  (readLeBytes 8 bytes).map fun (value, rest) => (UInt64.ofNat value, rest)

/-- `buffer_write_bytes32`. Modelled from the spec: the length as a `uint32`, then the bytes. -/
def bufferWriteBytes32 (data : Bytes) : Bytes :=
  bufferWriteUint32 (UInt32.ofNat data.length) ++ data

/-- `buffer_read_bytes32`. Modelled from the spec: a length, then that many bytes; refused
when the length runs past the input. -/
def bufferReadBytes32 (bytes : Bytes) : Option (Bytes × Bytes) := do
  let (size, rest) ← bufferReadUint32 bytes
  if size.toNat ≤ rest.length then some (rest.take size.toNat, rest.drop size.toNat) else none

/-- A written `uint32_t` is four bytes. -/
@[simp] theorem bufferWriteUint32_length (value : UInt32) :
    (bufferWriteUint32 value).length = 4 := leBytes_length 4 _

/-- A written `uint64_t` is eight bytes. -/
@[simp] theorem bufferWriteUint64_length (value : UInt64) :
    (bufferWriteUint64 value).length = 8 := leBytes_length 8 _

/-- A byte field is its four-byte size and then its bytes. -/
@[simp] theorem bufferWriteBytes32_length (data : Bytes) :
    (bufferWriteBytes32 data).length = 4 + data.length := by
  simp [bufferWriteBytes32]

/-- A written `uint32_t` reads back. -/
theorem bufferReadUint32_inverts : Reader.Inverts bufferReadUint32 bufferWriteUint32 := by
  intro value rest
  simp [bufferReadUint32, bufferWriteUint32, readLeBytes_leBytes 4 _ value.toNat_lt_size,
    UInt32.toNat.inj (UInt32.toNat_ofNat_of_lt value.toNat_lt_size)]

/-- Two byte strings that start with a written `uint32_t` start with the same one only when
the values are equal. -/
theorem bufferWriteUint32_append_inj {value other : UInt32} {rest otherRest : Bytes}
    (same : bufferWriteUint32 value ++ rest = bufferWriteUint32 other ++ otherRest) :
    value = other := by
  have read := bufferReadUint32_inverts value rest
  rw [same, bufferReadUint32_inverts other otherRest] at read
  exact (Prod.mk.inj (Option.some.inj read)).1.symm

/-- `a + b` in `uint32_t`. -/
theorem uint32_toNat_add (a b : UInt32) : (a + b).toNat = (a.toNat + b.toNat) % 2 ^ 32 :=
  BitVec.toNat_add _ _

/-- Two numbers below `2 ^ 32` that convert to the same `uint32_t` are equal. -/
theorem uint32_ofNat_inj {a b : Nat} (small : a < 2 ^ 32) (otherSmall : b < 2 ^ 32)
    (same : UInt32.ofNat a = UInt32.ofNat b) : a = b := by
  have values := congrArg UInt32.toNat same
  rwa [UInt32.toNat_ofNat_of_lt small, UInt32.toNat_ofNat_of_lt otherSmall] at values

/-- A written `uint64_t` reads back. -/
theorem bufferReadUint64_inverts : Reader.Inverts bufferReadUint64 bufferWriteUint64 := by
  intro value rest
  simp [bufferReadUint64, bufferWriteUint64, readLeBytes_leBytes 8 _ value.toNat_lt_size,
    UInt64.toNat.inj (UInt64.toNat_ofNat_of_lt value.toNat_lt_size)]

/-- A byte field shorter than `2 ^ 32` reads back whole. -/
theorem bufferReadBytes32_write (data rest : Bytes) (short : data.length < 2 ^ 32) :
    bufferReadBytes32 (bufferWriteBytes32 data ++ rest) = some (data, rest) := by
  have size : (UInt32.ofNat data.length).toNat = data.length := UInt32.toNat_ofNat_of_lt short
  simp [bufferReadBytes32, bufferWriteBytes32, List.append_assoc, bufferReadUint32_inverts _ _,
    size, bind, Option.bind]

/-- A read of fewer bytes than the width is refused. -/
theorem readLeBytes_of_lt (width : Nat) :
    ∀ bytes : Bytes, bytes.length < width → readLeBytes width bytes = none := by
  induction width with
  | zero => simp
  | succ width ih =>
    rintro (_ | ⟨digit, bytes⟩) short
    · rfl
    · simp [readLeBytes, ih bytes (by simpa using short)]

/-- A read of an encoding cut at `cut`: refused when the cut falls inside the encoding, and
otherwise the value, with the rest cut to what is left. -/
theorem read_take {α : Type} {read : Reader α} {written : Bytes} {value : α}
    (reads : ∀ rest, read (written ++ rest) = some (value, rest))
    (refuses : ∀ cut < written.length, read (written.take cut) = none)
    (rest : Bytes) (cut : Nat) :
    read ((written ++ rest).take cut) =
      if written.length ≤ cut then some (value, rest.take (cut - written.length)) else none := by
  rw [List.take_append_eq_append_take]
  split_ifs with within
  · rw [List.take_of_length_le within, reads]
  · rw [Nat.sub_eq_zero_of_le (not_le.mp within).le, List.take_zero, List.append_nil,
      refuses cut (not_le.mp within)]

/-- A `uint32_t` cut short is refused. -/
theorem bufferReadUint32_take (value : UInt32) :
    ∀ cut < (bufferWriteUint32 value).length,
      bufferReadUint32 ((bufferWriteUint32 value).take cut) = none := fun cut short => by
  rw [bufferWriteUint32_length] at short
  simp [bufferReadUint32,
    readLeBytes_of_lt 4 ((bufferWriteUint32 value).take cut) (by simp [short])]

/-- A `uint64_t` cut short is refused. -/
theorem bufferReadUint64_take (value : UInt64) :
    ∀ cut < (bufferWriteUint64 value).length,
      bufferReadUint64 ((bufferWriteUint64 value).take cut) = none := fun cut short => by
  rw [bufferWriteUint64_length] at short
  simp [bufferReadUint64,
    readLeBytes_of_lt 8 ((bufferWriteUint64 value).take cut) (by simp [short])]

/-- A byte field cut short, in its length or in its bytes, is refused. -/
theorem bufferReadBytes32_take (data : Bytes) (small : data.length < 2 ^ 32) :
    ∀ cut < (bufferWriteBytes32 data).length,
      bufferReadBytes32 ((bufferWriteBytes32 data).take cut) = none := by
  intro cut short
  have size : (UInt32.ofNat data.length).toNat = data.length := UInt32.toNat_ofNat_of_lt small
  rw [bufferWriteBytes32_length] at short
  rw [bufferWriteBytes32, bufferReadBytes32,
    read_take (bufferReadUint32_inverts _) (bufferReadUint32_take _)]
  split_ifs with within
  · simp only [bufferWriteUint32_length] at within
    simp [size, show cut - 4 < data.length by omega]
  · rfl

end VulkanCore
