import VulkanCore.Core.Block

/-!
# Well-formed blocks

Every loop of `block.c` that walks the transactions asserts or dereferences `transactions[i]`
for each `i` below `transaction_count`. A block is well-formed when each of those slots holds a
transaction; then the array is null only when the count is 0. This module says what such an
asserting loop does: on a well-formed block it sees the transactions below the count in order,
and on any other block it stops, at its assertion or at the dereference of a `NULL` array.

It ends with the sample blocks the other modules evaluate: `emptyTxBlock`, copies of a
transaction with nothing in it, and `sampleBlock`, transactions with an input each and ids
`compute_tx_id` gives them under `Crypto.truncating`, whose hashes are `HASH_SIZE` bytes.
-/

namespace VulkanCore

variable {Hash : Type} {β : Type}

namespace Block

/-- Every index below `transaction_count` holds a transaction. -/
def WellFormed (block : Block Hash) : Prop := ∀ i < block.transactionCount.toNat, (block.tx i).isSome

/-- Well-formedness is checked slot by slot below the count. -/
instance (block : Block Hash) : Decidable block.WellFormed :=
  inferInstanceAs (Decidable (∀ i < block.transactionCount.toNat, (block.tx i).isSome))

/-- The transactions below the count, in order, null slots left out. -/
def listed (block : Block Hash) : List (Transaction Hash) :=
  (List.range block.transactionCount.toNat).filterMap block.tx

end Block

/-- A loop reading `f i` for each index, where `f i` returns a value exactly when `g i` is that
value, collects the values when all are present. -/
theorem mapM_eq_ok_iff (f : Nat → Except Fault β) (g : Nat → Option β)
    (reads : ∀ i value, f i = .ok value ↔ g i = some value) (indices : List Nat)
    (found : List β) :
    indices.mapM f = .ok found ↔ (∀ i ∈ indices, (g i).isSome) ∧ found = indices.filterMap g := by
  induction indices generalizing found with
  | nil => simp only [List.mapM_nil, except_pure, Except.ok.injEq, List.not_mem_nil, false_implies,
      implies_true, List.filterMap_nil, true_and, eq_comm]
  | cons i rest ih =>
    rw [List.mapM_cons]
    cases present : g i with
    | none =>
      cases read : f i with
      | error fault => simp [present]
      | ok value => simp [(reads i value).mp read] at present
    | some value =>
      simp only [(reads i value).mpr present, except_ok_bind, except_bind_eq_ok, except_pure,
        Except.ok.injEq, ih, List.mem_cons, forall_eq_or_imp, present, Option.isSome_some, true_and,
        List.filterMap_cons]
      constructor
      · rintro ⟨rest', ⟨all, rfl⟩, rfl⟩
        exact ⟨all, rfl⟩
      · rintro ⟨all, rfl⟩
        exact ⟨_, ⟨all, rfl⟩, rfl⟩

/-- Values that are all present are their own `filterMap`, each wrapped again. -/
theorem map_some_filterMap (g : Nat → Option β) (indices : List Nat)
    (present : ∀ i ∈ indices, (g i).isSome) : (indices.filterMap g).map some = indices.map g := by
  induction indices with
  | nil => rfl
  | cons i rest ih =>
    obtain ⟨value, found⟩ := Option.isSome_iff_exists.mp (present i (List.mem_cons_self _ _))
    simp [found, ih fun j mem => present j (List.mem_cons_of_mem _ mem)]

/-- A read of every slot through the `Option` monad succeeds only when every slot is present. -/
theorem isSome_of_mapM_eq_some (g : Nat → Option β) (indices : List Nat) (found : List β)
    (read : indices.mapM g = some found) : ∀ i ∈ indices, (g i).isSome := by
  induction indices generalizing found with
  | nil => simp
  | cons i rest ih =>
    rw [List.mapM_cons] at read
    cases present : g i with
    | none => simp [present] at read
    | some value =>
      cases later : rest.mapM g with
      | none =>
        simp only [present, later, Option.bind_eq_bind, Option.some_bind, Option.none_bind,
          reduceCtorEq] at read
      | some values =>
        intro j mem
        rcases List.mem_cons.mp mem with rfl | mem
        · simp [present]
        · exact ih values later j mem

/-- A read of every slot through the `Option` monad succeeds when every slot is present. -/
theorem mapM_eq_some_of_isSome (g : Nat → Option β) (indices : List Nat)
    (present : ∀ i ∈ indices, (g i).isSome) : ∃ found, indices.mapM g = some found := by
  induction indices with
  | nil => exact ⟨[], rfl⟩
  | cons i rest ih =>
    obtain ⟨value, read⟩ := Option.isSome_iff_exists.mp (present i (List.mem_cons_self _ _))
    obtain ⟨values, later⟩ := ih fun j mem => present j (List.mem_cons_of_mem _ mem)
    exact ⟨value :: values, by simp only [List.mapM_cons, read, later, Option.bind_eq_bind,
      Option.some_bind, Option.pure_def]⟩

/-- A read of every slot through the `Option` monad, where slot `i` holds `g i`, returns the
values `g i` in order. -/
theorem mapM_eq_some_map (f : Nat → Option β) (g : Nat → β) (indices : List Nat)
    (holds : ∀ i ∈ indices, f i = some (g i)) : indices.mapM f = some (indices.map g) := by
  induction indices with
  | nil => rfl
  | cons i rest ih =>
    rw [List.mapM_cons, holds i (List.mem_cons_self _ _),
      ih fun j mem => holds j (List.mem_cons_of_mem _ mem)]
    rfl

/-- Each value a read of every slot returns was read from one of the slots. -/
theorem exists_of_mem_mapM (g : Nat → Option β) (indices : List Nat) (found : List β)
    (read : indices.mapM g = some found) (value : β) (mem : value ∈ found) :
    ∃ i ∈ indices, g i = some value := by
  induction indices generalizing found with
  | nil =>
    simp only [List.mapM_nil, Option.pure_def, Option.some.injEq] at read
    simp [← read] at mem
  | cons i rest ih =>
    rw [List.mapM_cons] at read
    cases present : g i with
    | none => simp [present] at read
    | some first =>
      cases later : rest.mapM g with
      | none =>
        simp only [present, later, Option.bind_eq_bind, Option.some_bind, Option.none_bind,
          reduceCtorEq] at read
      | some values =>
        simp only [present, later, Option.bind_eq_bind, Option.some_bind, Option.pure_def,
          Option.some.injEq] at read
        subst read
        rcases List.mem_cons.mp mem with rfl | mem
        · exact ⟨i, List.mem_cons_self _ _, present⟩
        · obtain ⟨j, within, read⟩ := ih values later mem
          exact ⟨j, List.mem_cons_of_mem _ within, read⟩

/-- Distinct slots that never read the same value give values without repeats. -/
theorem nodup_of_mapM_eq_some (g : Nat → Option β) (indices : List Nat) (found : List β)
    (distinct : indices.Nodup)
    (apart : ∀ i ∈ indices, ∀ j ∈ indices, ∀ value, g i = some value → g j = some value → i = j)
    (read : indices.mapM g = some found) : found.Nodup := by
  induction indices generalizing found with
  | nil =>
    simp only [List.mapM_nil, Option.pure_def, Option.some.injEq] at read
    simp [← read]
  | cons i rest ih =>
    rw [List.mapM_cons] at read
    cases present : g i with
    | none => simp [present] at read
    | some first =>
      cases later : rest.mapM g with
      | none =>
        simp only [present, later, Option.bind_eq_bind, Option.some_bind, Option.none_bind,
          reduceCtorEq] at read
      | some values =>
        simp only [present, later, Option.bind_eq_bind, Option.some_bind, Option.pure_def,
          Option.some.injEq] at read
        subst read
        have fresh := (List.nodup_cons.mp distinct).1
        refine List.nodup_cons.mpr ⟨fun mem => ?_, ih values (List.nodup_cons.mp distinct).2
          (fun j within k within' => apart j (List.mem_cons_of_mem _ within) k
            (List.mem_cons_of_mem _ within')) later⟩
        obtain ⟨j, within, read⟩ := exists_of_mem_mapM g rest values later first mem
        obtain rfl := apart i (List.mem_cons_self _ _) j (List.mem_cons_of_mem _ within) first
          present read
        exact fresh within

namespace Block

variable (block : Block Hash)

/-- The asserting loop over the transactions succeeds exactly on a well-formed block, with the
transactions below the count. -/
theorem assertedTransactions_eq_ok (found : List (Transaction Hash)) :
    block.assertedTransactions = .ok found ↔ block.WellFormed ∧ found = block.listed := by
  rw [assertedTransactions, mapM_eq_ok_iff _ _ block.assertTx_eq_ok]
  simp [WellFormed, listed]

/-- The asserts on a well-formed block's transactions pass and give its listed transactions. -/
theorem assertedTransactions_of_wellFormed (wellFormed : block.WellFormed) :
    block.assertedTransactions = .ok block.listed :=
  (block.assertedTransactions_eq_ok _).mpr ⟨wellFormed, rfl⟩

/-- `get_block_header_size` of a well-formed block: the sum over its transactions, in
`uint32_t`. -/
theorem getBlockHeaderSize_of_wellFormed (wellFormed : block.WellFormed) :
    getBlockHeaderSize block = .ok (block.listed.foldl (fun size tx => size + getTxHeaderSize tx)
      (UInt32.ofNat blockHeaderSize)) := by
  simp [getBlockHeaderSize, block.assertedTransactions_of_wellFormed wellFormed]

/-- On a well-formed block the slots below the count are the listed transactions, in order. -/
theorem map_tx_range (wellFormed : block.WellFormed) :
    (List.range block.transactionCount.toNat).map block.tx = block.listed.map some :=
  (map_some_filterMap _ _ fun i mem => wellFormed i (List.mem_range.mp mem)).symm

/-- A well-formed block lists as many transactions as it declares. -/
theorem length_listed (wellFormed : block.WellFormed) :
    block.listed.length = block.transactionCount.toNat := by
  simpa using (congrArg List.length (block.map_tx_range wellFormed)).symm

/-- A declared slot of a well-formed block holds the listed transaction at its index. -/
theorem tx_eq_listed (wellFormed : block.WellFormed) (i : Nat)
    (below : i < block.transactionCount.toNat) : block.tx i = block.listed[i]? := by
  have slots := congrArg (·[i]?) (block.map_tx_range wellFormed)
  simp only [List.getElem?_map, List.getElem?_range below, Option.map_some'] at slots
  cases listed : block.listed[i]? <;> simp_all

end Block

/-- A transaction with no inputs and no outputs. -/
def emptyTx : Transaction Unit := ⟨(), 0, 0, [], []⟩

/-- A block holding `count` copies of `emptyTx`, under `Crypto.unit`. -/
def emptyTxBlock (count : Nat) : Block Unit :=
  { makeBlock ⟨1, 0, 0, 0⟩ Crypto.unit with
    transactionCount := UInt32.ofNat count,
    transactions := some (List.replicate count (some emptyTx)) }

/-- The id of the transaction the `k`-th sample transaction spends from: `k + 1` in its first
byte. -/
def sampleFunding (k : Nat) : Digest := Digest.ofBytes [UInt8.ofNat (k + 1)]

/-- The `k`-th sample transaction, under `Crypto.truncating`: one input spending output 0 of
`sampleFunding k`, one output of one unit, and the id `compute_tx_id` gives it. -/
def sampleTx (k : Nat) : Transaction Digest :=
  let tx : Transaction Digest :=
    ⟨Digest.ofBytes [], 1, 1, [some ⟨sampleFunding k, 0, [], []⟩], [some ⟨1, []⟩]⟩
  { tx with id := (computeTxId Crypto.truncating tx).getD tx.id }

/-- A block of the sample transactions `0, …, n - 1` under `Crypto.truncating`, its header
hashes three different `Digest`s. -/
def sampleBlock (count : Nat) : Block Digest :=
  { makeBlock ⟨1, 0, 0, 0⟩ Crypto.truncating with
    previousHash := Digest.ofBytes [1], hash := Digest.ofBytes [2], timestamp := 1231006505,
    nonce := 2083236893, bits := 0x1d00ffff, cumulativeEmission := 50,
    merkleRoot := Digest.ofBytes [3], transactionCount := UInt32.ofNat count,
    transactions := some ((List.range count).map fun k => some (sampleTx k)) }

/-- Every declared slot of a sample block holds its sample transaction. -/
theorem sampleBlock_tx (count : Nat) (small : count < UInt32.size) :
    ∀ i < (sampleBlock count).transactionCount.toNat, (sampleBlock count).tx i = some (sampleTx i) := by
  intro i below
  have within : i < count := by simpa [sampleBlock, UInt32.toNat_ofNat_of_lt small] using below
  simp only [Block.tx, sampleBlock, Option.some_bind, slot_map_range _ _ _ within]

/-- Sample blocks are well-formed. -/
theorem sampleBlock_wellFormed (count : Nat) (small : count < UInt32.size) :
    (sampleBlock count).WellFormed := fun i below => by
  simp [sampleBlock_tx count small i below]

end VulkanCore
