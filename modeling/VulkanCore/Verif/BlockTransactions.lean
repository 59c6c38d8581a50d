import VulkanCore.Core.BlockTransactions
import VulkanCore.Verif.WellFormed

/-!
# Appending and copying transactions

`add_transactions_to_block` appends an array of transactions after a block's coinbase. Its loop
passes `i + 1` as the index, which is the index `add_transaction_to_block` asserts because the
count runs one ahead of `i` when the block starts with exactly one transaction. The run lemma
states, after each number of rounds, the count, the coinbase slot and every slot written.

`copy_block` never copies a transaction. `copy_transaction` gets `other_tx` by value, so the
assertion on `other_tx` after the call fails whenever `copy_transaction` reports success; the
results below hold for every behaviour of `copy_transaction`, which is not in the sources.
-/

namespace VulkanCore

section Model

variable {Hash : Type}

/-! ## Appending -/

/-- Counting up and then down again, in `uint32_t`, gives the count back. -/
theorem uint32_add_one_sub_one (count : UInt32) : count + 1 - 1 = count :=
  UInt32.eq_of_toBitVec_eq (BitVec.add_sub_cancel _ _)

/-- Adding a transaction at the current count, while the new count stays below `2 ^ 32`,
succeeds: the count goes up by one, the new slot holds the transaction and the slots below keep
theirs. -/
theorem addTransactionToBlock_at_count {block : Block Hash} (tx : Transaction Hash)
    (fits : block.transactionCount.toNat + 1 < 2 ^ 32) :
    ∃ next, addTransactionToBlock block tx block.transactionCount = .ok next ∧
      next.transactionCount.toNat = block.transactionCount.toNat + 1 ∧
      next.tx block.transactionCount.toNat = some tx ∧
      ∀ j < block.transactionCount.toNat, next.tx j = block.tx j := by
  have counted : (block.transactionCount + 1).toNat = block.transactionCount.toNat + 1 := by
    rw [uint32_toNat_add]
    exact Nat.mod_eq_of_lt fits
  have inside : block.transactionCount.toNat <
      (resized block.transactions (block.transactionCount + 1).toNat).length := by
    rw [length_resized, counted]
    omega
  refine ⟨{ block with
      transactionCount := block.transactionCount + 1,
      transactions := some ((resized block.transactions (block.transactionCount + 1).toNat).set
        block.transactionCount.toNat (some tx)) }, ?_, counted, ?_, fun j below => ?_⟩
  · simp only [addTransactionToBlock, uint32_add_one_sub_one, if_true,
      realloc_of_pos _ (show 0 < (block.transactionCount + 1).toNat by omega), inside]
  · simp only [Block.tx, Option.some_bind, slot_set_self _ _ _ inside]
  · simp only [Block.tx, Option.some_bind, slot_set_ne _ _ _ _ (Nat.ne_of_gt below),
      slot_resized _ _ j (show j < (block.transactionCount + 1).toNat by omega)]

/-- At `transaction_count = 2 ^ 32 - 1` the count wraps to 0 before the array is grown: `realloc`
of an allocated array to no slot returns `NULL` and the assertion on it fails, and without an
array `realloc(NULL, 0)` gives a pointer to no slot, so the write at the index is out of bounds. -/
theorem addTransactionToBlock_of_wraps {block : Block Hash} (tx : Transaction Hash)
    (full : block.transactionCount.toNat + 1 = 2 ^ 32) :
    addTransactionToBlock block tx block.transactionCount =
      .error (if block.transactions.isSome then .assertion else .outOfBounds) := by
  have one : (1 : UInt32).toNat = 1 := rfl
  have empty : (block.transactionCount + 1).toNat = 0 := by
    rw [uint32_toNat_add, one, full, Nat.mod_self]
  cases allocated : block.transactions <;>
    simp [addTransactionToBlock, uint32_add_one_sub_one, empty, allocated, realloc]

/-- The loop of `add_transactions_to_block` for `k + 1` rounds is the loop for `k` rounds, then
the addition of a non-null `transactions[k]` at index `k + 1`. -/
theorem addTransactionsToBlock_succ {block : Block Hash}
    {transactions : List (Option (Transaction Hash))} {k : Nat} {tx : Transaction Hash}
    (small : k + 1 < 2 ^ 32) (found : slot transactions k = some tx) :
    addTransactionsToBlock block transactions (UInt32.ofNat (k + 1)) =
      addTransactionsToBlock block transactions (UInt32.ofNat k) >>= fun next =>
        addTransactionToBlock next tx (UInt32.ofNat k + 1) := by
  simp only [addTransactionsToBlock, UInt32.toNat_ofNat_of_lt (show k + 1 < UInt32.size from small),
    UInt32.toNat_ofNat_of_lt (show k < UInt32.size by unfold UInt32.size; omega), List.range_succ,
    List.foldlM_append, List.foldlM_cons, List.foldlM_nil, found, Option.elim_some, except_ok_bind,
    bind_pure]

/-- After `k` rounds from a block of one transaction, with `transactions[0 .. k)` non-null and the
count below `2 ^ 32`, the loop of `add_transactions_to_block` has not failed: the count is
`k + 1`, slot 0 holds what it held, and slot `i + 1` holds `transactions[i]`. -/
theorem addTransactionsToBlock_run {block : Block Hash}
    {transactions : List (Option (Transaction Hash))} (single : block.transactionCount = 1) :
    ∀ k, k + 1 < 2 ^ 32 → (∀ i < k, (slot transactions i).isSome) →
      ∃ next, addTransactionsToBlock block transactions (UInt32.ofNat k) = .ok next ∧
        next.transactionCount.toNat = k + 1 ∧ next.tx 0 = block.tx 0 ∧
        ∀ i < k, next.tx (i + 1) = slot transactions i
  | 0, _, _ => ⟨block, rfl, by rw [single]; rfl, rfl, fun _ below => absurd below (Nat.not_lt_zero _)⟩
  | k + 1, small, present => by
    obtain ⟨next, run, counted, first, written⟩ :=
      addTransactionsToBlock_run single k (by omega) fun i below => present i (by omega)
    obtain ⟨tx, found⟩ := Option.isSome_iff_exists.mp (present k (by omega))
    have index : UInt32.ofNat k + 1 = next.transactionCount := UInt32.toNat.inj <| by
      rw [uint32_toNat_add, UInt32.toNat_ofNat_of_lt (show k < UInt32.size by unfold UInt32.size; omega),
        counted, show (1 : UInt32).toNat = 1 from rfl]
      exact Nat.mod_eq_of_lt (by omega)
    obtain ⟨appended, added, grown, last, kept⟩ :=
      addTransactionToBlock_at_count tx (show next.transactionCount.toNat + 1 < 2 ^ 32 by omega)
    refine ⟨appended, ?_, by rw [grown, counted], by rw [kept 0 (by omega), first], fun i below => ?_⟩
    · rw [addTransactionsToBlock_succ (show k + 1 < 2 ^ 32 by omega) found, run, index]
      exact added
    · rcases Nat.lt_succ_iff_lt_or_eq.mp below with earlier | rfl
      · rw [kept (i + 1) (by omega), written i earlier]
      · rw [← counted, last, found]

/-- From a block of exactly one transaction, with `num_transactions + 1` below `2 ^ 32` and
`transactions[0 .. num_transactions)` non-null, `add_transactions_to_block` returns 0 without
failing an assertion; the count is then `num_transactions + 1`, slot 0 is unchanged and slot
`i + 1` holds `transactions[i]`. -/
theorem addTransactionsToBlock_appends (block : Block Hash)
    (transactions : List (Option (Transaction Hash))) (numTransactions : UInt32)
    (single : block.transactionCount = 1)
    (present : ∀ i < numTransactions.toNat, (slot transactions i).isSome)
    (fits : numTransactions.toNat + 1 < 2 ^ 32) :
    ∃ next, addTransactionsToBlock block transactions numTransactions = .ok next ∧
      next.transactionCount.toNat = numTransactions.toNat + 1 ∧ next.tx 0 = block.tx 0 ∧
      ∀ i < numTransactions.toNat, next.tx (i + 1) = slot transactions i := by
  have same : UInt32.ofNat numTransactions.toNat = numTransactions :=
    UInt32.toNat.inj (UInt32.toNat_ofNat_of_lt numTransactions.toNat_lt_size)
  obtain ⟨next, run, appended⟩ := addTransactionsToBlock_run single _ fits present
  rw [same] at run
  exact ⟨next, run, appended⟩

end Model

/-- Appending two copies of `emptyTx` to a block of one gives a block of three. -/
theorem addTransactionsToBlock_appends_two :
    (emptyTxBlock 1).transactionCount = 1 ∧
      (∀ i < (2 : UInt32).toNat, (slot [some emptyTx, some emptyTx] i).isSome) ∧
      (2 : UInt32).toNat + 1 < 2 ^ 32 ∧
      ∃ next, addTransactionsToBlock (emptyTxBlock 1) [some emptyTx, some emptyTx] 2 = .ok next ∧
        next.transactionCount.toNat = 3 := by
  obtain ⟨next, added, counted, -⟩ :=
    addTransactionsToBlock_appends (emptyTxBlock 1) [some emptyTx, some emptyTx] 2 rfl
      (by decide) (by decide)
  exact ⟨rfl, by decide, by decide, next, added, counted⟩

section Copying

/-! ## Copying -/

variable {Hash : Type}

/-- `free_block_transactions` fails only on an assertion: it reads the array only when there is
one. -/
theorem freeBlockTransactions_fault {block : Block Hash} {fault : Fault}
    (faulted : freeBlockTransactions block = .error fault) : fault = .assertion := by
  unfold freeBlockTransactions at faulted
  split at faulted
  · rename_i array allocated
    split at faulted
    · cases asserted : block.assertedTransactions with
      | error early =>
        rw [asserted, except_error_bind, Except.error.injEq] at faulted
        obtain ⟨i, -, read⟩ := mapM_eq_error_mem (faulted ▸ asserted)
        exact block.assertTx_fault allocated read
      | ok _ => rw [asserted] at faulted; cases faulted
    · cases faulted
  · cases faulted

variable (copyTransaction : Transaction Hash → Option (Transaction Hash) → Except Fault UInt32)

/-- The loop of `copy_block_transactions` never reaches a second round: `other_tx` stays `NULL`,
so a copy that reports success fails the assertion after it. -/
theorem copyTransactionsFrom_cons (block other : Block Hash) (i : Nat) (rest : List Nat) :
    copyTransactionsFrom copyTransaction block other (i :: rest) =
      (block.assertTx i >>= fun tx => copyTransaction tx none >>= fun status =>
        if status ≠ 0 then .ok (other, 1) else .error .assertion) :=
  rfl

/-- On a source with a count, `copy_block_transactions` returns 0 only when the source has no
array, so that the loop does not run. -/
theorem copyBlockTransactions_zero {block other next : Block Hash}
    (declared : 0 < block.transactionCount.toNat)
    (copied : copyBlockTransactions copyTransaction block other = .ok (next, 0)) :
    block.transactions = none := by
  obtain ⟨freed, -, copying⟩ := except_bind_eq_ok.mp copied
  split at copying
  · obtain ⟨count, counted⟩ := Nat.exists_eq_add_of_lt declared
    rw [counted, List.range_succ_eq_map, copyTransactionsFrom_cons] at copying
    obtain ⟨_, -, copying⟩ := except_bind_eq_ok.mp copying
    obtain ⟨_, -, ended⟩ := except_bind_eq_ok.mp copying
    split at ended <;> cases ended
  · rename_i skipped
    simpa [declared] using skipped

/-- The first round of the loop when `copy_transaction` reports success: `copy_block_transactions`
fails an assertion, in `free_block_transactions` or on `other_tx`. -/
theorem copyBlockTransactions_asserts {block other : Block Hash} {tx : Transaction Hash}
    (declared : 0 < block.transactionCount.toNat) (first : block.tx 0 = some tx)
    (copied : copyTransaction tx none = .ok 0) :
    copyBlockTransactions copyTransaction block other = .error .assertion := by
  have stored : block.transactions.isSome := by
    cases held : block.transactions with
    | none => simp [Block.tx, held] at first
    | some _ => rfl
  unfold copyBlockTransactions
  cases freed : freeBlockTransactions other with
  | error fault => rw [freeBlockTransactions_fault freed]; rfl
  | ok emptied =>
    obtain ⟨count, counted⟩ := Nat.exists_eq_add_of_lt declared
    rw [except_ok_bind, if_pos ⟨declared, stored⟩, counted, List.range_succ_eq_map,
      copyTransactionsFrom_cons, (block.assertTx_eq_ok 0 tx).mpr first]
    simp only [copied, except_ok_bind, ne_eq, not_true_eq_false, if_false]

/-- `free_block_transactions` does nothing on a block whose count is 0, whatever array it holds. -/
theorem freeBlockTransactions_of_zero {block : Block Hash} (empty : block.transactionCount = 0) :
    freeBlockTransactions block = .ok block := by
  unfold freeBlockTransactions
  split <;> simp [empty]

variable [DecidableEq Hash]

/-- `compare_block` never finds a block with a count and a null first slot equal to another: it
returns 0 or fails its assertion. -/
theorem compareBlock_of_missing {block : Block Hash} (other : Block Hash)
    (declared : 0 < block.transactionCount.toNat) (missing : block.tx 0 = none) :
    compareBlock block other ≠ .ok true := by
  obtain ⟨count, counted⟩ := Nat.exists_eq_add_of_lt declared
  obtain ⟨fault, faulted⟩ := block.assertTx_of_tx_eq_none missing
  unfold compareBlock
  split
  · rw [counted, List.range_succ_eq_map, compareTransactionsFrom, faulted, except_error_bind]
    exact nofun
  · simp

/-- A block without transactions compares equal to the header `copy_block` copies from it. -/
theorem compareBlock_copyBlockHeader {block : Block Hash} (other : Block Hash)
    (empty : block.transactionCount = 0) : compareBlock block (copyBlockHeader block other) = .ok true := by
  simp [compareBlock, copyBlockHeader, empty, compareTransactionsFrom]

/-- On a source without transactions, `copy_block` frees nothing, copies nothing, and returns 0
with the header copied. -/
theorem copyBlock_of_empty {block : Block Hash} (other : Block Hash)
    (empty : block.transactionCount = 0) :
    copyBlock copyTransaction block other = .ok (copyBlockHeader block other, 0) := by
  simp [copyBlock, copyBlockTransactions, freeBlockTransactions_of_zero (show
    (copyBlockHeader block other).transactionCount = 0 from empty), empty,
    compareBlock_copyBlockHeader other empty]

/-- On a source with a count, `copy_block` never returns 0, whatever `copy_transaction` does. -/
theorem copyBlock_ne_zero {block : Block Hash} (other : Block Hash)
    (declared : 0 < block.transactionCount.toNat) (next : Block Hash) :
    copyBlock copyTransaction block other ≠ .ok (next, 0) := by
  intro copied
  obtain ⟨⟨moved, status⟩, transferred, ended⟩ := except_bind_eq_ok.mp copied
  dsimp only at ended
  split at ended
  · cases ended
  · rename_i zero
    rw [not_not.mp zero] at transferred
    have missing : block.tx 0 = none := by
      simp [Block.tx, copyBlockTransactions_zero copyTransaction declared transferred]
    obtain ⟨same, compared, result⟩ := except_bind_eq_ok.mp ended
    cases same
    · cases result
    · exact compareBlock_of_missing moved declared missing compared

/-- `copy_block` returns 0 exactly on a source without transactions, whatever `copy_transaction`
does; the destination then holds the source's header and a count of 0, and compares equal to the
source. -/
theorem copyBlock_eq_ok_zero_iff (block other next : Block Hash) :
    copyBlock copyTransaction block other = .ok (next, 0) ↔
      block.transactionCount = 0 ∧ next = copyBlockHeader block other ∧
        compareBlock block next = .ok true := by
  constructor
  · intro copied
    by_cases empty : block.transactionCount = 0
    · rw [copyBlock_of_empty copyTransaction other empty, Except.ok.injEq, Prod.mk.injEq] at copied
      rw [← copied.1]
      exact ⟨empty, rfl, compareBlock_copyBlockHeader other empty⟩
    · have declared : 0 < block.transactionCount.toNat :=
        Nat.pos_of_ne_zero fun zero => empty (UInt32.toNat.inj zero)
      exact absurd copied (copyBlock_ne_zero copyTransaction other declared next)
  · rintro ⟨empty, rfl, -⟩
    exact copyBlock_of_empty copyTransaction other empty

/-- On a source with a transaction, `copy_block` never returns 0, whatever `copy_transaction`
does: it returns 1 or faults. When `copy_transaction` reports success on the first transaction,
`copy_block` fails an assertion, the one on `other_tx` if no earlier one. -/
theorem copyBlock_fails_with_transactions (block other : Block Hash)
    (declared : 0 < block.transactionCount.toNat) :
    (∀ next, copyBlock copyTransaction block other ≠ .ok (next, 0)) ∧
      ∀ tx, block.tx 0 = some tx → copyTransaction tx none = .ok 0 →
        copyBlock copyTransaction block other = .error .assertion := by
  refine ⟨copyBlock_ne_zero copyTransaction other declared, fun tx first copied => ?_⟩
  unfold copyBlock
  rw [copyBlockTransactions_asserts copyTransaction declared first copied]
  rfl

end Copying

/-- The three-transaction sample block copied into `make_block`'s block, with a
`copy_transaction` that reports success: `copy_block` fails its assertion on `other_tx`. -/
theorem copyBlock_fails_with_transactions_sampleBlock :
    0 < (sampleBlock 3).transactionCount.toNat ∧
      copyBlock (fun _ _ => .ok 0) (sampleBlock 3) (makeBlock ⟨1, 0, 0, 0⟩ Crypto.truncating) =
        .error .assertion :=
  ⟨by decide, (copyBlock_fails_with_transactions _ _ _ (by decide)).2 (sampleTx 0)
    (sampleBlock_tx 3 (by decide) 0 (by decide)) rfl⟩

end VulkanCore
