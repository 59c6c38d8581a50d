import Mathlib.Logic.Relation
import VulkanCore.Core.BlockTransactions
import VulkanCore.Verif.BlockCodec

/-!
# Well-formedness along a block's life

A block starts as `make_block`'s, with no transactions, and changes by `add_transaction_to_block`,
`add_transactions_to_block` and `free_block_transactions`, or is replaced by a decode:
`deserialize_block`, then `deserialize_transactions_to_block` on the same iterator. Each of these
that returns 0 keeps a block well-formed, so every block reached through them is. A decode whose
transaction stream fails returns 1 and leaves its block behind with `transaction_count` slots
allocated and only those before the failure written: `free_block`, which the caller runs next,
then asserts on a slot that was never written, and so do `get_block_header_size`,
`compute_merkle_root` and `compare_block`.
-/

namespace VulkanCore

/-- A loop through `Except` that keeps `P` at each round keeps it over every run that returns. -/
theorem foldlM_except_invariant {α β : Type} (P : β → Prop) (f : β → α → Except Fault β)
    (kept : ∀ state x next, P state → f state x = .ok next → P next) :
    ∀ (xs : List α) (state last : β), P state → xs.foldlM f state = .ok last → P last
  | [], _, _, held, run => by
    cases run
    exact held
  | x :: xs, state, last, held, run => by
    rw [List.foldlM_cons] at run
    obtain ⟨next, step, rest⟩ := except_bind_eq_ok.mp run
    exact foldlM_except_invariant P f kept xs next last (kept state x next held step) rest

section Model

variable {Hash : Type} (params : Parameters) (crypto : Crypto Hash)
  (readTransaction : Reader (Transaction Hash))

section Steps

variable {block next : Block Hash}

/-- What a successful `add_transaction_to_block` did: `tx_index` was the old count, the count went
up by one without wrapping, and `tx` went into the last slot of the array grown to the new
count. -/
theorem addTransactionToBlock_eq_ok {tx : Transaction Hash} {txIndex : UInt32}
    (added : addTransactionToBlock block tx txIndex = .ok next) :
    txIndex = block.transactionCount ∧
      (block.transactionCount + 1).toNat = block.transactionCount.toNat + 1 ∧
      next = { block with
        transactionCount := block.transactionCount + 1,
        transactions := some ((resized block.transactions (block.transactionCount.toNat + 1)).set
          block.transactionCount.toNat (some tx)) } := by
  dsimp only [addTransactionToBlock] at added
  split at added
  · rename_i index
    obtain rfl : txIndex = block.transactionCount :=
      index.trans (UInt32.eq_of_toBitVec_eq (BitVec.add_sub_cancel _ _))
    split at added
    · cases added
    · rename_i array reallocated
      split at added
      · rename_i inside
        cases added
        have one : (1 : UInt32).toNat = 1 := rfl
        rw [eq_resized_of_realloc reallocated, length_resized, uint32_toNat_add] at inside
        have grown : (block.transactionCount + 1).toNat = block.transactionCount.toNat + 1 := by
          rw [uint32_toNat_add]
          omega
        exact ⟨rfl, grown, by rw [eq_resized_of_realloc reallocated, grown]⟩
      · cases added
  · cases added

/-- Adding one transaction keeps a block well formed. -/
theorem addTransactionToBlock_wellFormed {tx : Transaction Hash} {txIndex : UInt32}
    (wellFormed : block.WellFormed) (added : addTransactionToBlock block tx txIndex = .ok next) :
    next.WellFormed := by
  obtain ⟨-, counted, rfl⟩ := addTransactionToBlock_eq_ok added
  intro i below
  rw [counted] at below
  simp only [Block.tx, Option.some_bind]
  by_cases last : block.transactionCount.toNat = i
  · subst last
    rw [slot_set_self _ _ _ (by simp)]
    rfl
  · rw [slot_set_ne _ _ _ _ last, slot_resized _ _ _ below]
    exact wellFormed i (by omega)

/-- Adding a list of transactions keeps a block well formed. -/
theorem addTransactionsToBlock_wellFormed {transactions : List (Option (Transaction Hash))}
    {numTransactions : UInt32} (wellFormed : block.WellFormed)
    (added : addTransactionsToBlock block transactions numTransactions = .ok next) :
    next.WellFormed := by
  refine foldlM_except_invariant Block.WellFormed _ (fun block i next held step => ?_) _ _ _
    wellFormed added
  obtain ⟨_, -, step⟩ := except_bind_eq_ok.mp step
  exact addTransactionToBlock_wellFormed held step

/-- What a successful `free_block_transactions` did: nothing, or it emptied a well-formed
block. -/
theorem freeBlockTransactions_eq_ok (freed : freeBlockTransactions block = .ok next) :
    next = block ∨ block.WellFormed ∧ next = { block with transactionCount := 0, transactions := none } := by
  unfold freeBlockTransactions at freed
  split at freed
  · split at freed
    · obtain ⟨_, asserted, emptied⟩ := except_bind_eq_ok.mp freed
      cases emptied
      exact .inr ⟨((block.assertedTransactions_eq_ok _).mp asserted).1, rfl⟩
    · cases freed
      exact .inl rfl
  · cases freed
    exact .inl rfl

/-- Freeing the transactions leaves a well-formed block. -/
theorem freeBlockTransactions_wellFormed (wellFormed : block.WellFormed)
    (freed : freeBlockTransactions block = .ok next) : next.WellFormed := by
  rcases freeBlockTransactions_eq_ok freed with rfl | ⟨-, rfl⟩
  · exact wellFormed
  · intro i below
    simp at below

/-- The loop of `deserialize_transactions_to_block`, when no read is refused, writes every index
it walks and keeps every slot already written. -/
theorem readTransactionsInto_fills (slots : List (Option (Transaction Hash))) (indices : List Nat)
    (bytes : Bytes) (finished : (readTransactionsInto readTransaction slots indices bytes).2.isSome)
    (i : Nat) (inside : i < slots.length) (written : i ∈ indices ∨ (slot slots i).isSome) :
    (slot (readTransactionsInto readTransaction slots indices bytes).1 i).isSome := by
  induction indices generalizing slots bytes with
  | nil => simpa [readTransactionsInto] using written
  | cons j rest ih =>
    rw [readTransactionsInto] at finished ⊢
    cases read : readTransaction bytes with
    | none => simp [read] at finished
    | some found =>
      simp only [read] at finished ⊢
      refine ih _ _ finished (by simpa using inside) ?_
      by_cases same : j = i
      · subst same
        simp [slot_set_self _ _ _ inside]
      · rcases written with mem | present
        · exact .inl ((List.mem_cons.mp mem).resolve_left (Ne.symm same))
        · exact .inr (by rwa [slot_set_ne _ _ _ _ same])

/-- The loop of `deserialize_transactions_to_block` stops at once when the first read is
refused. -/
theorem readTransactionsInto_refused (slots : List (Option (Transaction Hash))) (i : Nat)
    (indices : List Nat) (bytes : Bytes) (refused : readTransaction bytes = none) :
    readTransactionsInto readTransaction slots (i :: indices) bytes = (slots, none) := by
  simp [readTransactionsInto, refused]

/-- `deserialize_transactions_to_block` leaves a well-formed block whenever it returns 0. -/
theorem deserializeTransactionsToBlock_wellFormed (bytes : Bytes) (block : Block Hash)
    (finished : (deserializeTransactionsToBlock readTransaction bytes block).2.isSome) :
    (deserializeTransactionsToBlock readTransaction bytes block).1.WellFormed := by
  unfold deserializeTransactionsToBlock at finished ⊢
  split
  · rename_i declared
    rw [if_pos declared] at finished
    intro i below
    exact readTransactionsInto_fills readTransaction _ _ _ finished i (by simpa using below)
      (.inl (List.mem_range.mpr below))
  · rename_i empty
    exact fun i below => absurd (show i < block.transactionCount.toNat from below) (by omega)

/-- The blocks a decode returns: those `deserialize_transactions_to_block` leaves on what
`deserialize_block` read. -/
theorem decodeBlock_eq_ok_some {bytes : Bytes} {result : Block Hash × Option Bytes}
    (decoded : decodeBlock params crypto readTransaction bytes = .ok (some result)) :
    ∃ block rest, deserializeBlock params crypto bytes = .ok (some (block, rest)) ∧
      deserializeTransactionsToBlock readTransaction rest block = result := by
  unfold decodeBlock at decoded
  rcases header : deserializeBlock params crypto bytes with _ | _ | ⟨block, rest⟩ <;>
    simp only [header, except_error_bind, except_ok_bind, except_pure, reduceCtorEq,
      Except.ok.injEq, Option.some.injEq] at decoded
  exact ⟨block, rest, rfl, decoded⟩

/-- A block decoded with all its transactions is well formed. -/
theorem decodeBlock_wellFormed {bytes rest : Bytes}
    (decoded : decodeBlock params crypto readTransaction bytes = .ok (some (next, some rest))) :
    next.WellFormed := by
  obtain ⟨block, read, -, transactions⟩ := decodeBlock_eq_ok_some params crypto readTransaction decoded
  have wellFormed := deserializeTransactionsToBlock_wellFormed readTransaction read block
  rw [transactions] at wellFormed
  exact wellFormed rfl

end Steps

/-- The operations on a block that return 0, from the block each is given to the block it
returns: a decode builds its block afresh, whatever block the caller had before. -/
inductive Returns : Block Hash → Block Hash → Prop
  /-- `add_transaction_to_block`. -/
  | addTransaction {block next : Block Hash} (tx : Transaction Hash) (txIndex : UInt32) :
    addTransactionToBlock block tx txIndex = .ok next → Returns block next
  /-- `add_transactions_to_block`. -/
  | addTransactions {block next : Block Hash} (transactions : List (Option (Transaction Hash)))
    (numTransactions : UInt32) :
    addTransactionsToBlock block transactions numTransactions = .ok next → Returns block next
  /-- `free_block_transactions`. -/
  | freeTransactions {block next : Block Hash} :
    freeBlockTransactions block = .ok next → Returns block next
  /-- A decode whose transactions were all read. -/
  | decode {block next : Block Hash} (bytes rest : Bytes) :
    decodeBlock params crypto readTransaction bytes = .ok (some (next, some rest)) →
      Returns block next

/-- Every operation of `Returns`, and a decode whose transaction stream fails: it returns 1 and
leaves its block behind. -/
inductive Leaves : Block Hash → Block Hash → Prop
  /-- An operation that returns 0. -/
  | returns {block next : Block Hash} : Returns params crypto readTransaction block next →
    Leaves block next
  /-- A decode whose `deserialize_transactions_to_block` returned 1. -/
  | decodeFails {block next : Block Hash} (bytes : Bytes) :
    decodeBlock params crypto readTransaction bytes = .ok (some (next, none)) → Leaves block next

/-- Each operation that returns 0 keeps a block well-formed. -/
theorem Returns.wellFormed {block next : Block Hash}
    (step : Returns params crypto readTransaction block next) (wellFormed : block.WellFormed) :
    next.WellFormed := by
  cases step with
  | addTransaction tx txIndex added => exact addTransactionToBlock_wellFormed wellFormed added
  | addTransactions transactions numTransactions added =>
    exact addTransactionsToBlock_wellFormed wellFormed added
  | freeTransactions freed => exact freeBlockTransactions_wellFormed wellFormed freed
  | decode bytes rest decoded => exact decodeBlock_wellFormed params crypto readTransaction decoded

/-- A fresh block from `make_block` declares no transaction, so it is well formed. -/
theorem makeBlock_wellFormed : (makeBlock params crypto).WellFormed := fun i below => by
  simp [makeBlock] at below

/-- Every block reached from `make_block` through operations that return 0 is well-formed. -/
theorem makeBlock_returns_wellFormed {block : Block Hash}
    (run : Relation.ReflTransGen (Returns params crypto readTransaction) (makeBlock params crypto)
      block) : block.WellFormed := by
  induction run with
  | refl => exact makeBlock_wellFormed params crypto
  | tail _ step held => exact step.wellFormed params crypto readTransaction held

/-- The reader of a network whose only transaction is `emptyTx`, written as the byte 7. -/
def emptyTxReader : Reader (Transaction Unit)
  | 7 :: rest => some (emptyTx, rest)
  | _ => none

/-- Adding `emptyTx` at index 0 takes `make_block`'s block to a block of one transaction, and that
block is well-formed. -/
theorem makeBlock_returns_wellFormed_single :
    Relation.ReflTransGen (Returns ⟨1, 0, 0, 0⟩ Crypto.unit emptyTxReader)
        (makeBlock ⟨1, 0, 0, 0⟩ Crypto.unit) (emptyTxBlock 1) ∧
      (emptyTxBlock 1).WellFormed := by
  have run : Relation.ReflTransGen (Returns ⟨1, 0, 0, 0⟩ Crypto.unit emptyTxReader)
      (makeBlock ⟨1, 0, 0, 0⟩ Crypto.unit) (emptyTxBlock 1) :=
    .single (.addTransaction emptyTx 0 rfl)
  exact ⟨run, makeBlock_returns_wellFormed _ _ _ run⟩

/-- A decode whose transaction stream is refused at its first transaction returns 1 and leaves
its block with `transaction_count` slots, none of them written: the block is reached from
`make_block` and is not well-formed, and `free_block_transactions` (which `free_block` runs),
`get_block_header_size`, `compute_merkle_root` and `compare_block` all stop at their assertion
on it. -/
theorem decodeBlock_leaves_unwritten [DecidableEq Hash]
    (sized : ∀ hash, (crypto.hashBytes hash).length = hashSize)
    (readsBack : ∀ hash, crypto.hashOfBytes (crypto.hashBytes hash) = hash)
    (block : Block Hash) (declared : 0 < block.transactionCount.toNat) (rest : Bytes)
    (refused : readTransaction rest = none) :
    ∃ left, Relation.ReflTransGen (Leaves params crypto readTransaction) (makeBlock params crypto)
        left ∧
      decodeBlock params crypto readTransaction (serializeBlock crypto block ++ rest) =
        .ok (some (left, none)) ∧
      left.transactionCount = block.transactionCount ∧
      (∀ i < block.transactionCount.toNat, left.tx i = none) ∧ ¬left.WellFormed ∧
      freeBlockTransactions left = .error .assertion ∧
      getBlockHeaderSize left = .error .assertion ∧
      computeMerkleRoot crypto left = .error .assertion ∧
      compareBlock left left = .error .assertion := by
  obtain ⟨later, counted⟩ := Nat.exists_eq_add_of_lt declared
  have indices : List.range block.transactionCount.toNat = 0 :: (List.range later).map Nat.succ := by
    rw [counted, zero_add, List.range_succ_eq_map]
  let left : Block Hash :=
    { block with transactions := some (List.replicate block.transactionCount.toNat none) }
  have decoded : decodeBlock params crypto readTransaction (serializeBlock crypto block ++ rest) =
      .ok (some (left, none)) := by
    rw [decodeBlock, deserializeBlock_serializeBlock params crypto sized readsBack]
    simp [deserializeTransactionsToBlock, declared, indices,
      readTransactionsInto_refused readTransaction _ _ _ _ refused, left]
  have unwritten : ∀ i < block.transactionCount.toNat, left.tx i = none := fun i _ => by
    simp only [left, Block.tx, slot, Option.some_bind, List.getElem?_replicate]
    split <;> rfl
  have broken : ¬left.WellFormed := fun wellFormed => by
    simpa [unwritten 0 declared] using wellFormed 0 declared
  have asserts : left.assertTx 0 = .error .assertion := by
    simp [Block.assertTx, Block.readTx, left, slot, List.getElem?_replicate, declared]
  have allAsserted : left.assertedTransactions = .error .assertion := by
    rw [Block.assertedTransactions, show left.transactionCount = block.transactionCount from rfl,
      indices, List.mapM_cons, asserts]
    rfl
  refine ⟨left, .single (.decodeFails _ decoded), decoded, rfl, unwritten, broken, ?_, ?_, ?_, ?_⟩
  · simp [freeBlockTransactions, left, declared, allAsserted]
  · simp [getBlockHeaderSize, allAsserted]
  · simp [computeMerkleRoot, indices, computeLeaves, asserts]
  · simp [compareBlock, indices, compareTransactionsFrom, asserts]

end Model

/-- The reader of a stream that holds no transaction. -/
def refusingReader : Reader (Transaction Digest) := fun _ => none

/-- The header of the three-transaction sample block, with nothing after it, decodes to a block
whose three slots were never written, and `free_block` of it asserts. -/
theorem decodeBlock_leaves_unwritten_sampleBlock :
    0 < (sampleBlock 3).transactionCount.toNat ∧ refusingReader [] = none ∧
      ∃ left, decodeBlock ⟨1, 0, 0, 0⟩ Crypto.truncating refusingReader
          (serializeBlock Crypto.truncating (sampleBlock 3) ++ []) = .ok (some (left, none)) ∧
        freeBlockTransactions left = .error .assertion := by
  obtain ⟨left, -, decoded, -, -, -, freed, -⟩ := decodeBlock_leaves_unwritten ⟨1, 0, 0, 0⟩
    Crypto.truncating refusingReader Crypto.truncating_sized Crypto.truncating_readsBack
    (sampleBlock 3) (by decide) [] rfl
  exact ⟨by decide, rfl, left, decoded, freed⟩

end VulkanCore
