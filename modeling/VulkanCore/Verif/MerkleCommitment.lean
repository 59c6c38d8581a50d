import VulkanCore.Verif.ValidBlock
import VulkanCore.Verif.BlockMerkle
import VulkanCore.Verif.MerkleBinding

/-!
# What the Merkle root of a valid block commits to

The block header does not carry the transaction count, and odd-leaf duplication gives `[a, b, c]`
and `[a, b, c, c]` one root. What rules the second list out is `valid_block`: it checks that the
stored ids are pairwise different and, through `valid_transaction`, that each is the id
`compute_tx_id` recomputes, so the leaves `compute_merkle_root` builds over have no repeats. With
an injective node hash and no leaf a node hash, the binding of the Merkle root
(`eq_of_built_root_hash_eq`) then applies to every block `valid_block` accepts, which has fewer
than `2 ^ 27` transactions. The hash model is abstract: `sha256d` is injective, so the hash type
is unbounded, and a hash's bytes stand for a field of `HASH_SIZE` bytes only in that two of them
in a row split one way. That no sign preimage is 64 bytes long becomes that none is the bytes of
two hashes in a row.

The module ends with two blocks of a coinbase and a transaction spending it, under
`delimitedCrypto`, whose `sha256d` keeps its whole input and which writes a hash in a delimited
encoding: `valid_block` accepts both, they differ in a signature, and they share their root and
their ids.
-/

namespace VulkanCore

section Model

variable {Hash : Type} [DecidableEq Hash] (params : Parameters) (crypto : Crypto Hash)

/-- A block `valid_block` accepts has the root it stores computed from its transaction ids. -/
theorem computeMerkleRoot_of_validBlock {now : Nat} {fresh : Bytes} {block : Block Hash}
    (valid : validBlock params crypto now fresh block = .ok true) :
    computeMerkleRoot crypto block = .ok (some block.merkleRoot) := by
  have rooted := ((validBlock_eq_ok_true params crypto now fresh block).mp valid).2.2.2.2.2.2
  unfold validMerkleRoot at rooted
  cases computed : computeMerkleRoot crypto block with
  | error fault => simp [computed] at rooted
  | ok root =>
    cases root with
    | none => simp [computed] at rooted
    | some root => simp_all

/-- In a block `valid_block` accepts, the transaction at each index is present and valid, and
transactions at different indices have different ids. -/
theorem transactions_of_validBlock {now : Nat} {fresh : Bytes} {block : Block Hash}
    (valid : validBlock params crypto now fresh block = .ok true) :
    ∀ i < block.transactionCount.toNat, ∃ tx, block.tx i = some tx ∧
      validTransaction crypto tx = true ∧ ∀ j < block.transactionCount.toNat, ∀ other,
        block.tx j = some other → i ≠ j → tx.id ≠ other.id := by
  have loops := (validBlockTransactions_eq_true crypto block).mp
    ((validBlock_eq_ok_true params crypto now fresh block).mp valid).2.2.2.1
  intro i below
  obtain ⟨tx, found, validTx, -, pairs⟩ := loops i below
  refine ⟨tx, found, validTx, fun j jBelow other otherFound differ => ?_⟩
  obtain ⟨other', otherFound', apart⟩ := pairs j jBelow
  obtain rfl : other = other' := by simpa [otherFound] using otherFound'
  exact (apart differ).1

/-- The id `compute_tx_id` gives a transaction `valid_transaction` accepts is its stored id. -/
theorem computeTxId_of_validTransaction {tx : Transaction Hash}
    (valid : validTransaction crypto tx = true) : computeTxId crypto tx = some tx.id := by
  unfold validTransaction at valid
  split at valid
  · rename_i signed
    simp only [Bool.and_eq_true, beq_iff_eq] at valid
    rw [computeTxId, signed, Option.map_some', valid.1.1.1.2]
  · cases valid

/-- A block `valid_block` accepts stores the root of the tree built over its transaction ids,
which have no repeats; each id is `sha256d` of the preimage of a transaction of the block. -/
theorem merkleLeaves_of_validBlock {now : Nat} {fresh : Bytes} {block : Block Hash}
    (valid : validBlock params crypto now fresh block = .ok true) :
    ∃ ids tree, block.txIds crypto = some ids ∧ ids.length < 2 ^ 27 ∧ ids.Nodup ∧
      constructMerkleTreeFromLeaves crypto.merkleNodeHash ids = .ok (some tree) ∧
      tree.root.hash = block.merkleRoot ∧
      ∀ hash ∈ ids, ∃ i < block.transactionCount.toNat, ∃ tx preimage, block.tx i = some tx ∧
        getTxSignHeader crypto tx = some preimage ∧ crypto.sha256d preimage = hash := by
  have rooted := computeMerkleRoot_of_validBlock params crypto valid
  obtain ⟨ids, tree, listed, built, isRoot⟩ := computeMerkleRoot_eq_ok_some crypto block _ rooted
  have counted : ids.length < 2 ^ 27 := by
    rw [length_of_mapM_eq_some _ _ _ listed, List.length_range]
    exact transactionCount_lt_of_computeMerkleRoot crypto block rooted
  have transactions := transactions_of_validBlock params crypto valid
  have leaf : ∀ i ∈ List.range block.transactionCount.toNat, ∀ hash,
      (block.tx i).bind (computeTxId crypto) = some hash →
        ∃ tx, block.tx i = some tx ∧ hash = tx.id ∧ ∀ j < block.transactionCount.toNat,
          ∀ other, block.tx j = some other → i ≠ j → tx.id ≠ other.id := by
    intro i mem hash read
    obtain ⟨tx, found, validTx, apart⟩ := transactions i (List.mem_range.mp mem)
    rw [found, Option.some_bind, computeTxId_of_validTransaction crypto validTx] at read
    exact ⟨tx, found, (Option.some.inj read).symm, apart⟩
  refine ⟨ids, tree, listed, counted, nodup_of_mapM_eq_some _ _ _ (List.nodup_range _) ?_ listed,
    built, isRoot.symm, fun hash mem => ?_⟩
  · intro i within j within' hash read read'
    obtain ⟨tx, found, rfl, apart⟩ := leaf i within hash read
    obtain ⟨other, otherFound, same, -⟩ := leaf j within' _ read'
    by_contra differ
    exact apart j (List.mem_range.mp within') other otherFound differ same
  · obtain ⟨i, within, read⟩ := exists_of_mem_mapM _ _ _ listed hash mem
    obtain ⟨tx, found, computed⟩ := Option.bind_eq_some.mp read
    obtain ⟨preimage, signed, hashed⟩ := Option.map_eq_some'.mp computed
    exact ⟨i, List.mem_range.mp within, tx, preimage, found, signed, hashed⟩

/-- Under an injective `sha256d` over an abstract hash type, where the bytes of two hashes in a
row tell both apart, two blocks `valid_block` accepts with the same Merkle root commit to the
same transaction ids, in the same order, provided no transaction of theirs is signed over the
bytes of two hashes in a row (so that no id is the hash of a Merkle node). Of the header fields
`compute_block_hash` hashes, only the Merkle root is needed. -/
theorem validBlock_commits_transactions (injective : Function.Injective crypto.sha256d)
    (decodable : ∀ a b c d, crypto.hashBytes a ++ crypto.hashBytes b =
      crypto.hashBytes c ++ crypto.hashBytes d → a = c ∧ b = d)
    (first second : Block Hash) (firstNow secondNow : Nat) (firstFresh secondFresh : Bytes)
    (firstValid : validBlock params crypto firstNow firstFresh first = .ok true)
    (secondValid : validBlock params crypto secondNow secondFresh second = .ok true)
    (notNodePreimage : ∀ block ∈ [first, second], ∀ i < block.transactionCount.toNat, ∀ tx,
      block.tx i = some tx → ∀ preimage, getTxSignHeader crypto tx = some preimage →
        ∀ a b, preimage ≠ crypto.hashBytes a ++ crypto.hashBytes b)
    (sameRoot : first.merkleRoot = second.merkleRoot) :
    first.txIds crypto = second.txIds crypto := by
  obtain ⟨firstIds, firstTree, firstListed, firstCounted, firstDistinct, firstBuilt, firstRoot,
    firstLeaf⟩ := merkleLeaves_of_validBlock params crypto firstValid
  obtain ⟨secondIds, secondTree, secondListed, secondCounted, secondDistinct, secondBuilt,
    secondRoot, secondLeaf⟩ := merkleLeaves_of_validBlock params crypto secondValid
  have nodeInjective : ∀ a b c d, crypto.merkleNodeHash a b = crypto.merkleNodeHash c d →
      a = c ∧ b = d := fun a b c d same => decodable a b c d (injective same)
  have fresh : ∀ hash ∈ firstIds ++ secondIds, ∀ a b, crypto.merkleNodeHash a b ≠ hash := by
    intro hash mem a b node
    obtain ⟨block, listed, leafOf⟩ : ∃ block ∈ [first, second], ∃ i < block.transactionCount.toNat,
        ∃ tx preimage, block.tx i = some tx ∧ getTxSignHeader crypto tx = some preimage ∧
          crypto.sha256d preimage = hash := by
      rcases List.mem_append.mp mem with mem | mem
      · exact ⟨first, by simp, firstLeaf hash mem⟩
      · exact ⟨second, by simp, secondLeaf hash mem⟩
    obtain ⟨i, below, tx, preimage, found, signed, hashed⟩ := leafOf
    exact notNodePreimage block listed i below tx found preimage signed a b
      (injective (hashed.trans node.symm))
  rw [firstListed, secondListed, eq_of_built_root_hash_eq crypto.merkleNodeHash nodeInjective
    firstIds secondIds firstCounted.le secondCounted.le firstDistinct secondDistinct fresh firstTree
    secondTree firstBuilt secondBuilt (by rw [firstRoot, secondRoot, sameRoot])]

end Model

/-- Each byte `b` as `[1, b]`, then `0`: the bytes of two such strings in a row split one way. -/
def delimited : Bytes → Bytes
  | [] => [0]
  | byte :: rest => 1 :: byte :: delimited rest

/-- Delimited strings read back uniquely: equal concatenations have equal fronts and rests. -/
theorem delimited_append_inj : ∀ (a c r s : Bytes), delimited a ++ r = delimited c ++ s →
    a = c ∧ r = s
  | [], [], r, s, same => by simpa [delimited] using same
  | [], _ :: _, _, _, same => by simp [delimited] at same
  | _ :: _, [], _, _, same => by simp [delimited] at same
  | x :: a, y :: c, r, s, same => by
    simp only [delimited, List.cons_append, List.cons.injEq, true_and] at same
    obtain ⟨rfl, same⟩ := same
    obtain ⟨rfl, rfl⟩ := delimited_append_inj a c r s same
    exact ⟨rfl, rfl⟩

/-- A string that starts with neither the byte 1 nor is `[0]` is no delimited string. -/
theorem ne_delimited {bytes : Bytes} (unmarked : bytes.head? ≠ some 1) (long : bytes ≠ [0]) :
    ∀ data, bytes ≠ delimited data
  | [] => long
  | _ :: _ => fun same => unmarked (by rw [same]; rfl)

/-- A hash function that keeps its whole input, a hash written in the delimited encoding. -/
def delimitedCrypto : Crypto Bytes := ⟨id, delimited, id, fun _ _ _ => true⟩

/-- A coinbase with one output of 50 and the id `compute_tx_id` gives it. -/
def coinbaseTx : Transaction Bytes :=
  let tx : Transaction Bytes :=
    ⟨[], 1, 1, [some ⟨delimitedCrypto.zeroHash, 0xFFFFFFFF, [], []⟩], [some ⟨50, []⟩]⟩
  { tx with id := (computeTxId delimitedCrypto tx).getD [] }

/-- A transaction spending the coinbase's output with a given signature, paying 50 to the
address `[1]`, with the id `compute_tx_id` gives it, which the signature does not enter. -/
def spendTx (signature : Bytes) : Transaction Bytes :=
  let tx : Transaction Bytes :=
    ⟨[], 1, 1, [some ⟨coinbaseTx.id, 0, signature, [8]⟩], [some ⟨50, [1]⟩]⟩
  { tx with id := (computeTxId delimitedCrypto tx).getD [] }

/-- Blocks of at most 1000 bytes, two hours of drift, and a proof-of-work limit no hash of a
block under `delimitedCrypto` exceeds. -/
def delimitedParams : Parameters := ⟨1, 1000, 7200, 256 ^ 252⟩

/-- A block of `coinbaseTx` and `spendTx signature`, with their Merkle root, its hash and the
easiest target. -/
def twoTxBlock (signature : Bytes) : Block Bytes :=
  let base : Block Bytes := { makeBlock delimitedParams delimitedCrypto with
    bits := 0xFF000001,
    merkleRoot := delimitedCrypto.merkleNodeHash coinbaseTx.id (spendTx signature).id,
    transactionCount := 2, transactions := some [some coinbaseTx, some (spendTx signature)] }
  { base with hash := computeBlockHash delimitedCrypto (List.replicate 92 0) base }

/-- The block declares its two transactions. -/
theorem twoTxBlock_transactionCount (signature : Bytes) :
    (twoTxBlock signature).transactionCount.toNat = 2 :=
  rfl

/-- The block passes `valid_merkle_root`: its root is the one pairing round over its two ids. -/
theorem twoTxBlock_rooted (signature : Bytes) :
    validMerkleRoot delimitedCrypto (twoTxBlock signature) = .ok true := by
  have wellFormed : (twoTxBlock signature).WellFormed := fun i below => by
    match i, below with
    | 0, _ | 1, _ => rfl
  have read : (twoTxBlock signature).txIds delimitedCrypto =
      some [coinbaseTx.id, (spendTx signature).id] := rfl
  obtain ⟨tree, -, isRef, computed⟩ := computeMerkleRoot_of_txIds delimitedCrypto
    (twoTxBlock signature) (by rw [twoTxBlock_transactionCount]; decide)
    (by rw [twoTxBlock_transactionCount]; decide) wellFormed read
  have root : tree.root.hash = (twoTxBlock signature).merkleRoot := by
    simp only [merkleRef, pairUp, Option.some.injEq] at isRef
    exact isRef.symm
  rw [validMerkleRoot, computed]
  simp [root]

/-- `valid_block` accepts the block whenever its transaction loops and its hash check pass, which
`decide` settles for each signature. -/
theorem twoTxBlock_valid (signature : Bytes)
    (checked : validBlockTransactions delimitedCrypto (twoTxBlock signature) = .ok true)
    (hashed : validBlockHash delimitedParams delimitedCrypto (List.replicate 92 0)
      (twoTxBlock signature) = true) :
    validBlock delimitedParams delimitedCrypto 0 (List.replicate 92 0) (twoTxBlock signature) =
      .ok true :=
  (validBlock_eq_ok_true _ _ _ _ _).mpr ⟨rfl, by rw [twoTxBlock_transactionCount]; decide,
    ⟨coinbaseTx, rfl, by decide⟩, checked, ⟨236, rfl, by decide⟩, hashed,
    twoTxBlock_rooted signature⟩

set_option maxRecDepth 20000 in
/-- `valid_block` accepts the block whose spending input is signed `[7]`. -/
theorem twoTxBlock_seven_valid :
    validBlock delimitedParams delimitedCrypto 0 (List.replicate 92 0) (twoTxBlock [7]) = .ok true :=
  twoTxBlock_valid [7] (by decide) (by decide)

set_option maxRecDepth 20000 in
/-- `valid_block` accepts the block whose spending input is signed `[9]`. -/
theorem twoTxBlock_nine_valid :
    validBlock delimitedParams delimitedCrypto 0 (List.replicate 92 0) (twoTxBlock [9]) = .ok true :=
  twoTxBlock_valid [9] (by decide) (by decide)

set_option maxRecDepth 20000 in
/-- Two blocks `valid_block` accepts under `delimitedCrypto`, each of a coinbase and a transaction
spending it, whose spending inputs carry different signatures: they differ, share their Merkle
root, and commit to the same ids. -/
theorem validBlock_commits_transactions_twoTxBlock :
    validBlock delimitedParams delimitedCrypto 0 (List.replicate 92 0) (twoTxBlock [7]) = .ok true ∧
      validBlock delimitedParams delimitedCrypto 0 (List.replicate 92 0) (twoTxBlock [9]) =
        .ok true ∧
      (twoTxBlock [7]).tx 1 ≠ (twoTxBlock [9]).tx 1 ∧
      (twoTxBlock [7]).merkleRoot = (twoTxBlock [9]).merkleRoot ∧
      (twoTxBlock [7]).txIds delimitedCrypto = (twoTxBlock [9]).txIds delimitedCrypto := by
  have notNode : ∀ signature, getTxSignHeader delimitedCrypto (spendTx signature) =
        some (delimited coinbaseTx.id ++ [0, 0, 0, 0, 50, 0, 0, 0, 0, 0, 0, 0, 1]) →
      ∀ i < 2, ∀ tx, (twoTxBlock signature).tx i = some tx →
        ∀ preimage, getTxSignHeader delimitedCrypto tx = some preimage →
          ∀ a b, preimage ≠ delimited a ++ delimited b := by
    intro signature spendSigned i below tx found preimage signed a b same
    match i, below with
    | 0, _ =>
      obtain rfl : tx = coinbaseTx := (Option.some.inj found).symm
      obtain rfl : preimage = delimited (List.replicate 32 0) ++
          [255, 255, 255, 255, 50, 0, 0, 0, 0, 0, 0, 0] := (Option.some.inj signed).symm.trans rfl
      exact ne_delimited (by decide) (by decide) b
        (delimited_append_inj _ a _ (delimited b) same).2
    | 1, _ =>
      obtain rfl : tx = spendTx signature := (Option.some.inj found).symm
      rw [spendSigned, Option.some.injEq] at signed
      subst signed
      exact ne_delimited (by decide) (by decide) b
        (delimited_append_inj _ a _ (delimited b) same).2
  refine ⟨twoTxBlock_seven_valid, twoTxBlock_nine_valid, by decide, rfl,
    validBlock_commits_transactions delimitedParams delimitedCrypto Function.injective_id
      (fun a b c d same => ?_) (twoTxBlock [7]) (twoTxBlock [9]) 0 0 _ _ twoTxBlock_seven_valid
      twoTxBlock_nine_valid ?_ rfl⟩
  · obtain ⟨rfl, rest⟩ := delimited_append_inj a c _ _ same
    exact ⟨rfl, (delimited_append_inj b d [] [] (by simpa using rest)).1⟩
  · simp only [List.mem_cons, List.mem_singleton, List.not_mem_nil, or_false]
    rintro _ (rfl | rfl)
    · exact notNode [7] (by decide)
    · exact notNode [9] (by decide)

end VulkanCore
