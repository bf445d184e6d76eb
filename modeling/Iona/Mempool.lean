import Iona.Lib.Machine
import Iona.Lib.MapDiff
import Iona.Lib.Shuffle
import Iona.Types

/-!
# The MEV-resistant mempool: draining the revealed queue

`MevMempool::drain_fair` of `mempool/mev_resistant.rs`.
-/

namespace Iona.Mempool

open List

open Std (ExtTreeMap LawfulEqOrd)

structure TxCommit where
  commitHash : Hash32
  sender : String
  nonce : UInt64
  receivedOrder : UInt64
  commitHeight : UInt64
  encryptedTx : Option (List UInt8) := none
  deriving DecidableEq

structure MevConfig where
  enableFairOrdering : Bool := true
  orderingJitterMs : UInt64 := 50
  commitTtlBlocks : UInt64 := 20
  maxPendingCommits : ℕ := 100000
  backrunDelayBlocks : UInt64 := 1
  maxRevealedQueue : ℕ := 100000
  minSaltLength : ℕ := 16
  verifyCommitHash : Bool := true
  deriving DecidableEq

structure MevMempool where
  config : MevConfig := {}
  fairOrderShuffles : UInt64 := 0
  revealedTxs : List Tx := []
  orderCounter : UInt64 := 0
  currentHeight : UInt64 := 0
  lastBlockHash : Hash32 := .ofNat 0
  pendingCommits : BTreeMap Hash32 TxCommit := ∅
  seenCommitHashes : List Hash32 := []
  recentProposers : List (UInt64 × String) := []

variable (C : Crypto)

def Ascending (txs : List Tx) : Prop :=
  txs.Pairwise fun t u => t.from = u.from → t.nonce < u.nonce

lemma Ascending.nodup {txs : List Tx} (h : Ascending txs) : txs.Nodup := by
  refine List.Pairwise.imp (fun hlt heq => ?_) h
  subst heq
  exact UInt64.lt_irrefl _ (hlt rfl)

/-! ### Fair ordering -/

def firstWord (h : Hash32) : ℕ := (h.toList.take 8).foldr (fun b acc => b.toNat + 256 * acc) 0

def deterministicShuffle {α : Type} (items : List α) (seed : Hash32) (extraNonce : UInt64) :
    List α :=
  Shuffle.shuffle (fun state => hashBytes C state.toList) firstWord (items.length - 1)
    (hashBytes C (seed.toList ++ Bytes.ofU64 extraNonce)) items

def shuffleBuckets (jitterMs : UInt64) (seed : Hash32) (start : UInt64)
    (bucket : List (UInt64 × TxCommit)) : List (UInt64 × TxCommit) → List (UInt64 × TxCommit)
  | [] => deterministicShuffle C bucket seed start
  | c :: cs =>
    if c.1 < Machine.satAdd start jitterMs then
      shuffleBuckets jitterMs seed start (bucket ++ [c]) cs
    else
      deterministicShuffle C bucket seed start ++ shuffleBuckets jitterMs seed c.1 [c] cs

def fairOrderShuffle (commits : List (UInt64 × TxCommit)) (jitterMs : UInt64)
    (blockHashSeed : Hash32) : List (UInt64 × TxCommit) :=
  if commits.length ≤ 1 ∨ jitterMs = 0 then commits
  else
    match commits.insertionSort (fun a b => a.1 ≤ b.1) with
    | [] => []
    | c :: cs => shuffleBuckets C jitterMs blockHashSeed c.1 [c] cs

lemma shuffleBuckets_perm (jitterMs : UInt64) (seed : Hash32) (start : UInt64)
    (bucket cs : List (UInt64 × TxCommit)) :
    (shuffleBuckets C jitterMs seed start bucket cs).Perm (bucket ++ cs) := by
  induction cs generalizing start bucket with
  | nil =>
    rw [append_nil]
    exact Shuffle.shuffle_perm _ _ _ _ _
  | cons c cs ih =>
    unfold shuffleBuckets
    split
    · have hfill := ih start (bucket ++ [c])
      rwa [append_assoc] at hfill
    · exact (Shuffle.shuffle_perm _ _ _ _ _).append (ih c.1 [c])

lemma fairOrderShuffle_perm (commits : List (UInt64 × TxCommit)) (jitterMs : UInt64)
    (blockHashSeed : Hash32) :
    (fairOrderShuffle C commits jitterMs blockHashSeed).Perm commits := by
  have hsort := perm_insertionSort (fun a b : UInt64 × TxCommit => a.1 ≤ b.1) commits
  unfold fairOrderShuffle
  split
  · exact .refl commits
  · split
    · rename_i hnil
      rwa [hnil] at hsort
    · rename_i c cs hcons
      rw [hcons] at hsort
      exact (shuffleBuckets_perm C _ _ _ [c] cs).trans hsort

/-! ### The table of transactions -/

def txMap (txs : List Tx) : BTreeMap Hash32 Tx :=
  txs.foldl (fun m tx => m.insert (txHash C tx) tx) ∅

lemma getElem?_txMap (txs : List Tx) (h : Hash32) :
    (txMap C txs)[h]? = txs.reverse.find? fun tx => txHash C tx = h := by
  rw [txMap, MapDiff.getElem?_insertAll]
  simp

/-! ### Draining -/

def isizeMax : ℕ := 2 ^ 63 - 1

def txSize : ℕ := 4 * 24 + 5 * 8

def commits (pool : MevMempool) : List (UInt64 × TxCommit) :=
  pool.revealedTxs.zipIdx.map fun e =>
    let order := pool.orderCounter + .ofNat e.2
    (order,
      { commitHash := txHash C e.1
        sender := e.1.from
        nonce := e.1.nonce
        receivedOrder := order
        commitHeight := pool.currentHeight })

def fairOrder (pool : MevMempool) : List Tx :=
  (fairOrderShuffle C (commits C pool) pool.config.orderingJitterMs pool.lastBlockHash).filterMap
    fun c => (txMap C pool.revealedTxs)[c.2.commitHash]?

/-- `drain_fair`.  It panics when the vector for the answer is too large to ask for, and when the
counter of shuffles overflows. -/
def drainFair (pool : MevMempool) (n : ℕ) : Option (List Tx × MevMempool) :=
  let drained := { pool with revealedTxs := [] }
  if isizeMax < n * txSize then none
  else if pool.revealedTxs.isEmpty then some ([], drained)
  else if pool.config.enableFairOrdering ∧ 1 < pool.revealedTxs.length then
    match Machine.checked (pool.fairOrderShuffles.toNat + 1) with
    | none => none
    | some shuffles => some ((fairOrder C pool).take n,
      { drained with
        orderCounter := pool.orderCounter + .ofNat pool.revealedTxs.length
        fairOrderShuffles := shuffles })
  else some (pool.revealedTxs.take n, drained)

def standIn (txs : List Tx) (tx : Tx) : Tx := ((txMap C txs)[txHash C tx]?).getD tx

lemma getElem?_txMap_mem {txs : List Tx} {tx : Tx} (h : tx ∈ txs) :
    (txMap C txs)[txHash C tx]? = some (standIn C txs tx) ∧ standIn C txs tx ∈ txs ∧
      txHash C (standIn C txs tx) = txHash C tx := by
  have hfound : ((txs.reverse.find? fun t => txHash C t = txHash C tx)).isSome := by
    rw [find?_isSome]
    exact ⟨tx, mem_reverse.mpr h, by simp⟩
  obtain ⟨found, hsome⟩ := Option.isSome_iff_exists.mp hfound
  have hstand : standIn C txs tx = found := by
    rw [standIn, getElem?_txMap, hsome]
    rfl
  rw [getElem?_txMap, hstand]
  refine ⟨hsome, mem_reverse.mp (mem_of_find?_eq_some hsome), ?_⟩
  simpa using find?_some hsome

lemma fairOrder_perm (pool : MevMempool) :
    (fairOrder C pool).Perm (pool.revealedTxs.map (standIn C pool.revealedTxs)) := by
  refine ((fairOrderShuffle_perm C _ _ _).filterMap _).trans (.of_eq ?_)
  rw [commits, filterMap_map]
  -- every lookup succeeds, in the order of the queue
  have hlook : ∀ e ∈ pool.revealedTxs.zipIdx,
      (txMap C pool.revealedTxs)[txHash C e.1]? = some (standIn C pool.revealedTxs e.1) := by
    intro e he
    exact (getElem?_txMap_mem C (fst_mem_of_mem_zipIdx he)).1
  calc pool.revealedTxs.zipIdx.filterMap (fun e => (txMap C pool.revealedTxs)[txHash C e.1]?)
      = pool.revealedTxs.zipIdx.filterMap
          (fun e => some (standIn C pool.revealedTxs e.1)) := filterMap_congr hlook
    _ = (pool.revealedTxs.zipIdx.map Prod.fst).map (standIn C pool.revealedTxs) := by
        rw [filterMap_eq_map', List.map_map]
        rfl
    _ = pool.revealedTxs.map (standIn C pool.revealedTxs) := by rw [zipIdx_map_fst]

lemma map_standIn_perm_iff (txs : List Tx) :
    (txs.map (standIn C txs)).Perm txs ↔
      ∀ tx ∈ txs, ∀ tx' ∈ txs, txHash C tx = txHash C tx' → tx = tx' := by
  constructor
  · intro hperm
    -- whatever is left stands in for itself, so everything does
    have hself : ∀ tx ∈ txs, standIn C txs tx = tx := by
      intro tx htx
      obtain ⟨t, ht, rfl⟩ := List.mem_map.mp (hperm.mem_iff.mpr htx)
      have hhash := (getElem?_txMap_mem C ht).2.2
      rw [standIn, hhash, (getElem?_txMap_mem C ht).1]
      rfl
    intro tx htx tx' htx' hhash
    rw [← hself tx htx, ← hself tx' htx']
    have hfound := (getElem?_txMap_mem C htx).1
    rw [hhash, (getElem?_txMap_mem C htx').1] at hfound
    exact (Option.some.inj hfound).symm
  · intro hinj
    have hself : txs.map (standIn C txs) = txs.map id := by
      refine map_congr_left fun tx htx => ?_
      obtain ⟨-, hmem, hhash⟩ := getElem?_txMap_mem C htx
      exact hinj _ hmem tx htx hhash
    rw [hself, List.map_id]

def Drainable (pool : MevMempool) (n : ℕ) : Prop :=
  n * txSize ≤ isizeMax ∧ pool.revealedTxs.length ≤ n ∧
    (pool.config.enableFairOrdering = true → 1 < pool.revealedTxs.length →
      pool.fairOrderShuffles.toNat < Machine.u64Max ∧
        ∀ tx ∈ pool.revealedTxs, ∀ tx' ∈ pool.revealedTxs, txHash C tx = txHash C tx' → tx = tx')

lemma take_perm_iff {txs order : List Tx} {n : ℕ} (hlen : order.length = txs.length) :
    (order.take n).length = min n txs.length ∧ (order.take n ++ []).Perm txs ↔
      txs.length ≤ n ∧ order.Perm txs := by
  rw [append_nil, length_take, hlen]
  constructor
  · rintro ⟨-, hperm⟩
    have hle := hperm.length_eq
    rw [length_take, hlen] at hle
    have hfit : txs.length ≤ n := by omega
    exact ⟨hfit, by rwa [take_of_length_le (by omega)] at hperm⟩
  · rintro ⟨hfit, hperm⟩
    exact ⟨rfl, by rwa [take_of_length_le (by omega)]⟩

lemma exists_eq_some_iff {α β : Type} {P : α → β → Prop} (a : α) (b : β) :
    (∃ x y, some (a, b) = some (x, y) ∧ P x y) ↔ P a b := by
  constructor
  · rintro ⟨x, y, heq, h⟩
    cases heq
    exact h
  · intro h
    exact ⟨a, b, rfl, h⟩

/-- **Draining loses nothing** exactly when the queue can be drained: the call returns, with as many
transactions as were asked for and are there, and these together with what stays queued are the
transactions that were queued. -/
theorem drainFair_lossless_iff (pool : MevMempool) (n : ℕ) :
    (∃ returned pool', drainFair C pool n = some (returned, pool') ∧
      returned.length = min n pool.revealedTxs.length ∧
      (returned ++ pool'.revealedTxs).Perm pool.revealedTxs) ↔ Drainable C pool n := by
  have hfair := fairOrder_perm C pool
  have hlen : (fairOrder C pool).length = pool.revealedTxs.length := by
    rw [hfair.length_eq, List.length_map]
  have hpermiff : (fairOrder C pool).Perm pool.revealedTxs ↔
      ∀ tx ∈ pool.revealedTxs, ∀ tx' ∈ pool.revealedTxs, txHash C tx = txHash C tx' → tx = tx' := by
    rw [← map_standIn_perm_iff]
    exact ⟨fun h => hfair.symm.trans h, fun h => hfair.trans h⟩
  unfold drainFair Drainable
  split
  · rename_i hbig
    refine iff_of_false (fun ⟨_, _, h, _⟩ => by cases h) fun h => absurd h.1 (Nat.not_le.mpr hbig)
  rename_i hsmall
  split
  · rename_i hempty
    have hnil := List.isEmpty_iff.mp hempty
    refine iff_of_true ⟨[], _, rfl, ?_, ?_⟩ ⟨Nat.not_lt.mp hsmall, ?_, fun _ h => ?_⟩
    · simp [hnil]
    · simp [hnil]
    · simp [hnil]
    · simp [hnil] at h
  split
  · rename_i hcond
    cases hcount : Machine.checked (pool.fairOrderShuffles.toNat + 1) with
    | none =>
      have hover := Machine.checked_eq_none_iff.mp hcount
      refine iff_of_false (fun ⟨_, _, h, _⟩ => by cases h) fun h => ?_
      have hlt := (h.2.2 hcond.1 hcond.2).1
      omega
    | some shuffles =>
      have hroom : pool.fairOrderShuffles.toNat < Machine.u64Max := by
        have := Machine.checked_eq_some_iff.mp hcount
        have := Machine.toNat_le shuffles
        omega
      rw [exists_eq_some_iff, take_perm_iff hlen, hpermiff]
      refine ⟨fun h => ⟨Nat.not_lt.mp hsmall, h.1, fun _ _ => ⟨hroom, h.2⟩⟩, fun h => ⟨h.2.1, ?_⟩⟩
      exact (h.2.2 hcond.1 hcond.2).2
  · rename_i hcond
    rw [exists_eq_some_iff, take_perm_iff rfl]
    refine ⟨fun h => ⟨Nat.not_lt.mp hsmall, h.1, fun hon hlong => ?_⟩, fun h => ⟨h.2.1, .refl _⟩⟩
    exact absurd ⟨hon, hlong⟩ hcond

def twoTxs : List Tx :=
  [⟨[1], "alice", 0, 1, 1, 21000, "set a 1", [], 7⟩, ⟨[1], "alice", 1, 1, 1, 21000, "set b 2", [], 7⟩]

/-- **A drain of fewer than are queued loses the rest.** -/
theorem drain_of_one_loses_one : ∃ returned pool',
    drainFair .demo { revealedTxs := twoTxs } 1 = some (returned, pool') ∧ returned.length = 1 ∧
      pool'.revealedTxs = [] ∧ twoTxs.length = 2 := by
  refine ⟨_, _, rfl, ?_⟩
  decide +kernel

end Iona.Mempool
