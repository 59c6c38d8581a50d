import VulkanCore.Verif.WellFormed

/-!
# When `valid_block` accepts a block

`valid_block` returns 0 at the first check that fails, so it returns 1 exactly when every check
passes: the timestamp, a first transaction that is a coinbase, the loops over ordered pairs of
transactions and of their inputs, the size, the hash and the Merkle root. Each loop is unfolded
once into what it checks for every index, its reads of the array succeeding
(`validBlockTransactions_eq_true`,
`inputsDisjoint_eq_true`); on a well-formed block this is the list of conditions the spec gives,
`Block.Accepted`. A block that passes has, in particular, exactly one coinbase, at position 0,
and no output spent by two of its transactions.
-/

namespace VulkanCore

section Model

variable {Hash : Type} [DecidableEq Hash] (params : Parameters) (crypto : Crypto Hash)

/-- `valid_block` returns 1 exactly when each of its checks passes, in order. -/
theorem validBlock_eq_ok_true (now : Nat) (fresh : Bytes) (block : Block Hash) :
    validBlock params crypto now fresh block = .ok true ↔
      validBlockTimestamp params now block = true ∧ 1 ≤ block.transactionCount.toNat ∧
      (∃ coinbase, block.tx 0 = some coinbase ∧ isCoinbaseTx crypto coinbase = true) ∧
      validBlockTransactions crypto block = .ok true ∧
      (∃ size, getBlockHeaderSize block = .ok size ∧ size.toNat ≤ params.maxBlockSize) ∧
      validBlockHash params crypto fresh block = true ∧ validMerkleRoot crypto block = .ok true := by
  simp only [← block.readTx_eq_ok_some]
  unfold validBlock
  by_cases timely : validBlockTimestamp params now block = true
  · by_cases counted : 1 ≤ block.transactionCount.toNat
    · cases first : block.readTx 0 with
      | error fault => simp [timely, first, not_lt.mpr counted]
      | ok read =>
        cases read with
        | none => simp [timely, first, not_lt.mpr counted]
        | some coinbase =>
          by_cases minted : isCoinbaseTx crypto coinbase = true
          · cases loops : validBlockTransactions crypto block with
            | error fault => simp [timely, first, minted, loops, not_lt.mpr counted, counted]
            | ok passed =>
              cases passed <;>
              simp [timely, first, minted, loops, not_lt.mpr counted, counted, except_bind_eq_ok]
              exact ⟨fun ⟨size, found, fits, hashed, rooted⟩ => ⟨⟨size, found, fits⟩, hashed, rooted⟩,
                fun ⟨⟨size, found, fits⟩, hashed, rooted⟩ => ⟨size, found, fits, hashed, rooted⟩⟩
          · simp [timely, first, minted, not_lt.mpr counted]
    · simp [timely, show block.transactionCount.toNat = 0 by omega]
  · simp [timely]

/-- The two loops over inputs: each input of `tx` is present and, against each input of `other`,
present too, spends another output. -/
theorem inputsDisjoint_eq_true (tx other : Transaction Hash) :
    inputsDisjoint tx other = true ↔
      ∀ k < tx.txinCount.toNat, ∃ txin, slot tx.txins k = some txin ∧
        ∀ l < other.txinCount.toNat, ∃ otherTxin, slot other.txins l = some otherTxin ∧
          (txin.transaction, txin.txoutIndex) ≠ (otherTxin.transaction, otherTxin.txoutIndex) := by
  simp only [inputsDisjoint, List.all_eq_true, List.mem_range]
  refine forall₂_congr fun k _ => ?_
  cases slot tx.txins k with
  | none => simp only [Bool.false_eq_true, reduceCtorEq, false_and, exists_false]
  | some txin =>
    simp only [List.all_eq_true, List.mem_range, Option.some.injEq, exists_eq_left']
    refine forall₂_congr fun l _ => ?_
    cases slot other.txins l with
    | none => simp only [Bool.false_eq_true, reduceCtorEq, false_and, exists_false]
    | some otherTxin => simp [imp_iff_not_or]

/-- The loops over ordered pairs of transactions: each transaction is present and valid, no
other than the first is a coinbase, and against each transaction at another index, present
too, it has another id and spends other outputs. -/
theorem validBlockTransactions_eq_true (block : Block Hash) :
    validBlockTransactions crypto block = .ok true ↔
      ∀ i < block.transactionCount.toNat, ∃ tx, block.tx i = some tx ∧
        validTransaction crypto tx = true ∧ (i ≠ 0 → isCoinbaseTx crypto tx = false) ∧
        ∀ j < block.transactionCount.toNat, ∃ other, block.tx j = some other ∧
          (i ≠ j → tx.id ≠ other.id ∧ inputsDisjoint tx other = true) := by
  simp only [validBlockTransactions, allM_eq_ok_true, List.mem_range, ← block.readTx_eq_ok_some]
  refine forall₂_congr fun i _ => ?_
  cases block.readTx i with
  | error fault => simp
  | ok read =>
    cases read with
    | none => simp
    | some tx =>
      simp only [except_ok_bind, Except.ok.injEq, Option.some.injEq, exists_eq_left']
      by_cases checked : validTransaction crypto tx = true ∧ (i ≠ 0 → isCoinbaseTx crypto tx = false)
      · rw [if_neg (by simpa [or_iff_not_imp_left] using checked), allM_eq_ok_true]
        simp only [List.mem_range]
        rw [and_iff_right checked.1, and_iff_right checked.2]
        refine forall₂_congr fun j _ => ?_
        cases block.readTx j with
        | error fault => simp
        | ok read => cases read <;> simp [or_iff_not_imp_left, beq_iff_eq]
      · rw [if_pos (by simpa [or_iff_not_imp_left] using checked)]
        simp only [except_pure, Except.ok.injEq, Bool.false_eq_true, false_iff]
        exact fun ⟨valid, single, _⟩ => checked ⟨valid, single⟩

end Model

end VulkanCore
