import Iona.Execution.Block

/-! # Errors and batches of the executor -/

namespace Iona.Executor

variable (C : Crypto) (H : Handlers)

/-! ### Errors of one transaction -/

def overrun (ex : Executor) (txh : Hash32) (receipt : Receipt) : Executor :=
  { ex with
    executedHashes := ex.executedHashes.insert txh
    gasUsed := Machine.satAdd ex.gasUsed receipt.gasUsed }

variable {res : Except ExecutionError Unit} {e : ExecutionError} {txs : List Tx}

lemma executeTx_error_cases {ex ex' : Executor} {tx : Tx}
    (h : ex.executeTx C H tx = some (.error e, ex')) :
    (txHash C tx ∈ ex.executedHashes ∧ ex' = ex ∧
        e = .duplicateTx (Bytes.hexEncode (txHash C tx).toList)) ∨
      (txHash C tx ∉ ex.executedHashes ∧ e = .gasOverflow ex.maxGasPerBlock ∧
        ∃ r st, applyTx C H ex.state tx ex.baseFee ex.proposer = some (r, st) ∧
          ex.maxGasPerBlock < Machine.satAdd ex.gasUsed r.gasUsed ∧
          ex' = ex.overrun (txHash C tx) r) := by
  unfold executeTx at h
  by_cases hdup : txHash C tx ∈ ex.executedHashes
  · simp only [if_pos hdup] at h
    cases h
    exact .inl ⟨hdup, rfl, rfl⟩
  · simp only [if_neg hdup] at h
    obtain ⟨⟨r, st⟩, happ, h⟩ := Option.bind_eq_some_iff.mp h
    simp only at h
    split at h
    · rename_i hover
      cases h
      exact .inr ⟨hdup, rfl, r, st, happ, hover, rfl⟩
    · cases h

lemma mem_insert_self (hashes : Std.ExtTreeSet Hash32 compare) (txh : Hash32) :
    txh ∈ hashes.insert txh :=
  Std.ExtTreeSet.mem_insert.mpr (.inl Std.ReflCmp.compare_self)

/-- **When a failure is atomic**: exactly if it is that of a duplicate; every other one leaves the
hash recorded and the gas counted. -/
theorem executeTx_error_atomic_iff {ex ex' : Executor} {tx : Tx} {e : ExecutionError}
    (h : ex.executeTx C H tx = some (.error e, ex')) :
    ex'.state = ex.state ∧ ex'.receipts = ex.receipts ∧
      (ex' = ex ↔ txHash C tx ∈ ex.executedHashes) ∧
      (ex' ≠ ex → txHash C tx ∈ ex'.executedHashes ∧ ex'.maxGasPerBlock < ex'.gasUsed) := by
  obtain ⟨hdup, rfl, -⟩ | ⟨hnew, -, r, st, -, hover, rfl⟩ := executeTx_error_cases C H h
  · exact ⟨rfl, rfl, iff_of_true rfl hdup, fun hne => absurd rfl hne⟩
  · have hmem : txHash C tx ∈ (ex.overrun (txHash C tx) r).executedHashes :=
      mem_insert_self ex.executedHashes (txHash C tx)
    refine ⟨rfl, rfl, ?_, fun _ => ⟨hmem, hover⟩⟩
    refine iff_of_false ?_ hnew
    intro heq
    rw [heq] at hmem
    exact hnew hmem

def demoTight : Executor := new demoState (demoAddress 9) 2 21075 {}

/-- The first transaction needs 21110 gas: it fails, and is left recorded. -/
theorem executeTx_error_atomic_iff_overrun : ∃ e ex',
    demoTight.executeTx .demo .reject (demoTx 1 0 "set k value") = some (.error e, ex') ∧
      ex' ≠ demoTight ∧ ex'.state = demoTight.state := by
  have hrun : ((demoTight.executeTx .demo .reject (demoTx 1 0 "set k value")).map
      fun res => res.1) = some (.error (.gasOverflow 21075)) := by decide +kernel
  have hnew : txHash .demo (demoTx 1 0 "set k value") ∉ demoTight.executedHashes := by
    decide +kernel
  obtain ⟨⟨res, ex'⟩, h, rfl⟩ := Option.map_eq_some_iff.mp hrun
  obtain ⟨hstate, -, hiff, -⟩ := executeTx_error_atomic_iff .demo .reject h
  exact ⟨_, ex', h, fun heq => hnew (hiff.mp heq), hstate⟩

def outcomes (ex : Executor) : List Tx → Option (List (Except ExecutionError Unit))
  | [] => some []
  | tx :: txs => do
    let (res, ex) ← ex.executeTx C H tx
    let results ← ex.outcomes txs
    return res :: results

/-- After that failure a second try is a duplicate, and a transaction that fitted does not fit any
more. -/
theorem executeTx_error_remembered :
    demoTight.outcomes .demo .reject [demoTx 1 0 "set k value", demoTx 1 0 "set k value"] =
      some [.error (.gasOverflow 21075), .error (.duplicateTx
        (Bytes.hexEncode (txHash .demo (demoTx 1 0 "set k value")).toList))] ∧
    demoTight.outcomes .demo .reject [demoTx 2 0 "set k v"] = some [.ok ()] ∧
    demoTight.outcomes .demo .reject [demoTx 1 0 "set k value", demoTx 2 0 "set k v"] =
      some [.error (.gasOverflow 21075), .error (.gasOverflow 21075)] := by
  decide +kernel

/-! ### Batches -/

lemma executeTx_hash {ex ex' : Executor} {tx : Tx} (h : ex.executeTx C H tx = some (res, ex')) :
    txHash C tx ∈ ex'.executedHashes ∧ ∀ txh ∈ ex.executedHashes, txh ∈ ex'.executedHashes := by
  have hkeep : ∀ txh ∈ ex.executedHashes, txh ∈ ex.executedHashes.insert (txHash C tx) :=
    fun txh hmem => Std.ExtTreeSet.mem_insert.mpr (.inr hmem)
  cases res with
  | error e =>
    obtain ⟨hdup, rfl, -⟩ | ⟨-, -, r, st, -, -, rfl⟩ := executeTx_error_cases C H h
    · exact ⟨hdup, fun txh hmem => hmem⟩
    · exact ⟨mem_insert_self ex.executedHashes (txHash C tx), hkeep⟩
  | ok =>
    obtain ⟨-, r, st, -, -, rfl⟩ := (executeTx_ok_iff C H).mp h
    exact ⟨mem_insert_self ex.executedHashes (txHash C tx), hkeep⟩

lemma executeBatch_hashes {ex ex' : Executor} (h : ex.executeBatch C H txs = some (res, ex')) :
    ∀ txh ∈ ex.executedHashes, txh ∈ ex'.executedHashes := by
  induction txs generalizing ex with
  | nil =>
    cases h
    exact fun txh hmem => hmem
  | cons tx txs ih =>
    obtain ⟨⟨res₁, ex₁⟩, htx, h⟩ := Option.bind_eq_some_iff.mp h
    have hstep := (executeTx_hash C H htx).2
    cases res₁ with
    | error e =>
      cases h
      exact hstep
    | ok =>
      intro txh hmem
      exact ih h txh (hstep txh hmem)

lemma executeBatch_hash {ex ex' : Executor} {tx : Tx}
    (h : ex.executeBatch C H (tx :: txs) = some (res, ex')) :
    (∃ hash, res = .error (.duplicateTx hash)) ∨
      txHash C tx ∉ ex.executedHashes ∧ txHash C tx ∈ ex'.executedHashes := by
  by_cases hdup : txHash C tx ∈ ex.executedHashes
  · simp only [executeBatch, executeTx, if_pos hdup] at h
    cases h
    exact .inl ⟨_, rfl⟩
  · obtain ⟨⟨res₁, ex₁⟩, htx, h⟩ := Option.bind_eq_some_iff.mp h
    have hmem := (executeTx_hash C H htx).1
    cases res₁ with
    | error e =>
      -- the hash is recorded before the receipt is looked at
      cases h
      exact .inr ⟨hdup, hmem⟩
    | ok => exact .inr ⟨hdup, executeBatch_hashes C H h _ hmem⟩

lemma merge_error {st other : KvState} (h : st.merge other = .error e) :
    e = .entanglementBroken := by
  unfold KvState.merge at h
  split at h
  · cases h
    rfl
  · cases h

lemma mergeResults_error {final : KvState} {receipts : List Receipt} {gas : UInt64}
    {results : List (Receipt × KvState)} (h : mergeResults final receipts gas results = .error e)
    (hash : String) : e ≠ .duplicateTx hash := by
  induction results generalizing final receipts gas with
  | nil => cases h
  | cons res results ih =>
    obtain ⟨receipt, part⟩ := res
    rw [mergeResults] at h
    cases hsuccess : receipt.success with
    | false =>
      simp only [hsuccess, Bool.false_eq_true, if_false] at h
      cases h
      exact fun heq => by cases heq
    | true =>
      simp only [hsuccess, if_true] at h
      cases hmerge : final.merge part with
      | error e' =>
        simp only [hmerge, bind, Except.bind] at h
        cases h
        rw [merge_error hmerge]
        exact fun heq => by cases heq
      | ok merged =>
        simp only [hmerge, bind, Except.bind] at h
        exact ih h

lemma executeBatchParallel_hashes {ex ex' : Executor}
    (hlen : quantumParallelThreshold < txs.length) (hverify : ex.config.verifySignatures = true)
    (h : ex.executeBatchParallel C H txs = some (res, ex')) :
    ex'.executedHashes = ex.executedHashes ∧ ∀ hash, res ≠ .error (.duplicateTx hash) := by
  have hpath : (decide (txs.length ≤ quantumParallelThreshold) || !ex.config.verifySignatures)
      = false := by simp [hverify, hlen]
  unfold executeBatchParallel at h
  rw [hpath] at h
  simp only [Bool.false_eq_true, if_false] at h
  split at h
  · cases h
    exact ⟨rfl, fun hash heq => by cases heq⟩
  · obtain ⟨results, -, h⟩ := Option.bind_eq_some_iff.mp h
    cases hmerge : mergeResults ex.state [] 0 results with
    | error e =>
      simp only [hmerge] at h
      cases h
      refine ⟨rfl, fun hash heq => mergeResults_error hmerge hash ?_⟩
      exact Except.error.inj heq
    | ok out =>
      simp only [hmerge] at h
      split at h
      · cases h
        exact ⟨rfl, fun hash heq => by cases heq⟩
      · cases h
        exact ⟨rfl, fun hash heq => by cases heq⟩

/-- **The two batch functions agree** if and only if the parallel one hands the batch on, because
it is within the threshold or signatures are not verified, or both abort. -/
theorem executeBatchParallel_eq_iff (ex : Executor) (txs : List Tx) :
    ex.executeBatchParallel C H txs = ex.executeBatch C H txs ↔
      txs.length ≤ quantumParallelThreshold ∨ ex.config.verifySignatures = false ∨
        ex.executeBatchParallel C H txs = none ∧ ex.executeBatch C H txs = none := by
  by_cases hpath : txs.length ≤ quantumParallelThreshold ∨ ex.config.verifySignatures = false
  · have hhanded : ex.executeBatchParallel C H txs = ex.executeBatch C H txs := by
      unfold executeBatchParallel
      rw [if_pos (by simpa using hpath)]
    simp only [hhanded, true_iff]
    exact hpath.imp_right .inl
  · obtain ⟨hlen, hverify⟩ := not_or.mp hpath
    have hlen := Nat.not_le.mp hlen
    have hverify := Bool.not_eq_false _ ▸ hverify
    constructor
    · intro heq
      -- the recorded hashes tell the two apart, unless neither returns
      refine .inr (.inr ?_)
      cases hseq : ex.executeBatch C H txs with
      | none => exact ⟨heq.trans hseq, rfl⟩
      | some out =>
        obtain ⟨res, ex'⟩ := out
        obtain ⟨hhashes, hdup⟩ := executeBatchParallel_hashes C H hlen hverify (heq.trans hseq)
        cases txs with
        | nil => cases hlen
        | cons tx txs =>
          obtain ⟨hash, hres⟩ | ⟨hnew, hmem⟩ := executeBatch_hash C H hseq
          · exact absurd hres (hdup hash)
          · exact absurd (hhashes ▸ hmem) hnew
    · rintro (hle | hoff | ⟨hpar, hseq⟩)
      · exact absurd hle (Nat.not_le.mpr hlen)
      · rw [hverify] at hoff
        cases hoff
      · exact hpar.trans hseq.symm

def demoRepeated : List Tx := List.replicate 17 (demoTx 1 0 "set k v")

/-- In order, it is executed once and then reported as a duplicate; from one base state, its result
clashes with that state and nothing is executed. -/
theorem executeBatchParallel_repeated :
    ((new demoState (demoAddress 9) 1 0 {}).executeBatch .demo .reject demoRepeated).map
        (fun res => (res.1, res.2.receipts.length)) =
      some (.error (.duplicateTx
        (Bytes.hexEncode (txHash .demo (demoTx 1 0 "set k v")).toList)), 1) ∧
    ((new demoState (demoAddress 9) 1 0 {}).executeBatchParallel .demo .reject demoRepeated).map
        (fun res => (res.1, res.2.receipts.length)) = some (.error .entanglementBroken, 0) := by
  decide +kernel

end Iona.Executor
