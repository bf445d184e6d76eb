import Iona.Execution.Apply

/-! # Building and verifying a block -/

namespace Iona

open List

structure ExecutionConfig where
  defaultMaxGasPerBlock : UInt64 := 30000000
  quantumParallelThreshold : ℕ := 16
  verifySignatures : Bool := true

def quantumParallelThreshold : ℕ := 16

structure Executor where
  state : KvState
  proposer : String
  maxGasPerBlock : UInt64
  baseFee : UInt64
  executedHashes : Std.ExtTreeSet Hash32 compare := ∅
  gasUsed : UInt64 := 0
  receipts : List Receipt := []
  config : ExecutionConfig

variable (C : Crypto) (H : Handlers)

def extend {κ ν : Type} [Ord κ] [Std.TransOrd κ] (m other : BTreeMap κ ν) : BTreeMap κ ν :=
  other.foldl (fun m k v => m.insert k v) m

def clashes {κ ν : Type} [Ord κ] [Std.TransOrd κ] [DecidableEq ν] (m other : BTreeMap κ ν) : Bool :=
  other.toList.any fun (k, v) => m[k]?.any (· ≠ v)

def KvState.merge (st other : KvState) : Except ExecutionError KvState :=
  if clashes st.kv other.kv || clashes st.balances other.balances ||
      clashes st.nonces other.nonces || clashes st.vm.storage other.vm.storage ||
      clashes st.vm.code other.vm.code then .error .entanglementBroken
  else .ok
    { st with
      kv := extend st.kv other.kv
      balances := extend st.balances other.balances
      nonces := extend st.nonces other.nonces
      burned := max st.burned other.burned
      vm := { st.vm with
        storage := extend st.vm.storage other.vm.storage
        code := extend st.vm.code other.vm.code } }

namespace Executor

def new (state : KvState) (proposer : String) (baseFee maxGas : UInt64) (config : ExecutionConfig) :
    Executor where
  state := state
  proposer := proposer
  maxGasPerBlock := if maxGas = 0 then config.defaultMaxGasPerBlock else maxGas
  baseFee := baseFee
  config := config

def executeTx (ex : Executor) (tx : Tx) : Option (Except ExecutionError Unit × Executor) :=
  let txh := txHash C tx
  if txh ∈ ex.executedHashes then
    some (.error (.duplicateTx (Bytes.hexEncode txh.toList)), ex)
  else do
    let ex := { ex with executedHashes := ex.executedHashes.insert txh }
    let (receipt, newState) ← applyTx C H ex.state tx ex.baseFee ex.proposer
    let ex := { ex with gasUsed := Machine.satAdd ex.gasUsed receipt.gasUsed }
    if ex.gasUsed > ex.maxGasPerBlock then
      return (.error (.gasOverflow ex.maxGasPerBlock), ex)
    return (.ok (), { ex with state := newState, receipts := ex.receipts ++ [receipt] })

def executeBatch (ex : Executor) : List Tx → Option (Except ExecutionError Unit × Executor)
  | [] => some (.ok (), ex)
  | tx :: txs => do
    match ← ex.executeTx C H tx with
    | (.error e, ex) => return (.error e, ex)
    | (.ok (), ex) => ex.executeBatch txs

def mergeResults : KvState → List Receipt → UInt64 → List (Receipt × KvState) →
    Except ExecutionError (KvState × List Receipt × UInt64)
  | final, receipts, gas, [] => .ok (final, receipts, gas)
  | final, receipts, gas, (receipt, part) :: results =>
    if receipt.success then do
      let final ← final.merge part
      mergeResults final (receipts ++ [receipt]) (Machine.satAdd gas receipt.gasUsed) results
    else .error (.invalidTx (receipt.error.getD "unknown"))

def executeBatchParallel (ex : Executor) (txs : List Tx) :
    Option (Except ExecutionError Unit × Executor) :=
  if txs.length ≤ quantumParallelThreshold || !ex.config.verifySignatures then
    ex.executeBatch C H txs
  else
    let failed := txs.filter fun tx => (verifyTxSignature C tx).toOption.isNone
    if !failed.isEmpty then
      some (.error (.invalidTx
        (toString failed.length ++ " transactions have invalid signatures")), ex)
    else do
      let results ← txs.mapM fun tx => applyTx C H ex.state tx ex.baseFee ex.proposer
      match mergeResults ex.state [] 0 results with
      | .error e => return (.error e, ex)
      | .ok (final, receipts, gas) =>
        if gas > ex.maxGasPerBlock then return (.error (.gasOverflow ex.maxGasPerBlock), ex)
        return (.ok (), { ex with
          state := final, gasUsed := gas, receipts := ex.receipts ++ receipts })

def executeAll (ex : Executor) (txs : List Tx) : Option (Except ExecutionError Unit × Executor) :=
  if txs.length > ex.config.quantumParallelThreshold then ex.executeBatchParallel C H txs
  else ex.executeBatch C H txs

end Executor

def defaultChainId : UInt64 := 6126151

structure Stamp where
  timestamp : UInt64
  protocolVersion : UInt32

def buildBlock (stamp : Stamp) (height : Height) (round : Round) (prev : Hash32)
    (proposerPk : PublicKeyBytes) (proposerAddr : String) (prevState : KvState)
    (baseFee : UInt64) (txs : List Tx) (maxGas : UInt64) (config : ExecutionConfig)
    (cache : Merkle.RootCache) : Option ((Block × KvState × List Receipt) × Merkle.RootCache) := do
  let (_, ex) ← (Executor.new prevState proposerAddr baseFee maxGas config).executeAll C H txs
  let (stateRoot, cache) := ex.state.root C cache
  let header : BlockHeader :=
    { height := height, round := round, prev := prev, proposerPk := proposerPk
      txRoot := txRoot C txs, receiptsRoot := receiptsRoot C ex.receipts, stateRoot := stateRoot
      baseFeePerGas := baseFee, gasUsed := ex.gasUsed, intrinsicGasUsed := 0
      execGasUsed := ex.gasUsed, vmGasUsed := 0, evmGasUsed := 0, chainId := defaultChainId
      timestamp := stamp.timestamp, protocolVersion := stamp.protocolVersion }
  return (({ header := header, txs := txs }, ex.state, ex.receipts), cache)

def verifyBlock (prevState : KvState) (block : Block) (proposerAddr : String) (maxGas : UInt64)
    (config : ExecutionConfig) (cache : Merkle.RootCache) :
    Option (Option (KvState × List Receipt) × Merkle.RootCache) :=
  if block.header.proposerPk.length ≠ 32 then some (none, cache)
  else if txRoot C block.txs ≠ block.header.txRoot then some (none, cache)
  else do
    let ex := Executor.new prevState proposerAddr block.header.baseFeePerGas maxGas config
    match ← ex.executeAll C H block.txs with
    | (.error _, _) => return (none, cache)
    | (.ok (), ex) =>
      if ex.gasUsed ≠ block.header.gasUsed then return (none, cache)
      if receiptsRoot C ex.receipts ≠ block.header.receiptsRoot then return (none, cache)
      let (stateRoot, cache) := ex.state.root C cache
      if stateRoot ≠ block.header.stateRoot then return (none, cache)
      return (some (ex.state, ex.receipts), cache)

def verifyBlockWithVset (prevState : KvState) (block : Block) (proposerAddr : String)
    (expectedPk : PublicKeyBytes) (maxGas : UInt64) (config : ExecutionConfig)
    (cache : Merkle.RootCache) :
    Option (Option (KvState × List Receipt) × Merkle.RootCache) :=
  if block.header.proposerPk ≠ expectedPk then some (none, cache)
  else verifyBlock C H prevState block proposerAddr maxGas config cache

/-! ### When a list of transactions runs through -/

def applyAll (baseFee : UInt64) (proposer : String) :
    KvState → List Tx → Option (List Receipt × KvState)
  | st, [] => some ([], st)
  | st, tx :: txs => do
    let (r, st) ← applyTx C H st tx baseFee proposer
    let (rs, st) ← applyAll baseFee proposer st txs
    return (r :: rs, st)

variable {txs : List Tx} {proposerPk : PublicKeyBytes} {config : ExecutionConfig}
  {receipts : List Receipt} {proposerAddr : String}

lemma applyAll_cons_eq_some_iff {baseFee : UInt64} {proposer : String} {st st' : KvState}
    {tx : Tx} {rs : List Receipt} :
    applyAll C H baseFee proposer st (tx :: txs) = some (rs, st') ↔
      ∃ r st₁ rs₁, applyTx C H st tx baseFee proposer = some (r, st₁) ∧
        applyAll C H baseFee proposer st₁ txs = some (rs₁, st') ∧ rs = r :: rs₁ := by
  rw [applyAll]
  constructor
  · intro h
    obtain ⟨⟨r, st₁⟩, htx, h⟩ := Option.bind_eq_some_iff.mp h
    obtain ⟨⟨rs₁, st₂⟩, htxs, h⟩ := Option.bind_eq_some_iff.mp h
    cases h
    exact ⟨r, st₁, rs₁, htx, htxs, rfl⟩
  · rintro ⟨r, st₁, rs₁, htx, htxs, rfl⟩
    simp [htx, htxs]

def gasFrom (gas : UInt64) (receipts : List Receipt) : UInt64 :=
  receipts.foldl (fun gas r => Machine.satAdd gas r.gasUsed) gas

lemma le_gasFrom (gas : UInt64) (receipts : List Receipt) : gas ≤ gasFrom gas receipts := by
  induction receipts generalizing gas with
  | nil => exact UInt64.le_refl _
  | cons r rs ih =>
    refine UInt64.le_trans ?_ (ih _)
    rw [UInt64.le_iff_toNat_le, Machine.toNat_satAdd]
    exact le_min (Nat.le_add_right _ _) (Machine.toNat_le _)

def RunsInOrder (state : KvState) (proposer : String) (baseFee limit : UInt64) (txs : List Tx) :
    Prop :=
  (txs.map (txHash C)).Nodup ∧
    ∃ rs st, applyAll C H baseFee proposer state txs = some (rs, st) ∧ gasFrom 0 rs ≤ limit

def RunsFromBase (state : KvState) (proposer : String) (baseFee limit : UInt64) (txs : List Tx) :
    Prop :=
  (∀ tx ∈ txs, ∃ addr, verifyTxSignature C tx = .ok addr) ∧
    ∃ results, (txs.mapM fun tx => applyTx C H state tx baseFee proposer) = some results ∧
      (∀ res ∈ results, res.1.success = true) ∧
      (∃ final, (results.map Prod.snd).foldlM KvState.merge state = .ok final) ∧
      gasFrom 0 (results.map Prod.fst) ≤ limit

def RunsParallel (config : ExecutionConfig) (txs : List Tx) : Prop :=
  config.quantumParallelThreshold < txs.length ∧ quantumParallelThreshold < txs.length ∧
    config.verifySignatures = true

instance (config : ExecutionConfig) (txs : List Tx) : Decidable (RunsParallel config txs) :=
  inferInstanceAs (Decidable (_ ∧ _ ∧ _))

def Executes (state : KvState) (proposer : String) (baseFee maxGas : UInt64)
    (config : ExecutionConfig) (txs : List Tx) : Prop :=
  let limit := if maxGas = 0 then config.defaultMaxGasPerBlock else maxGas
  if RunsParallel config txs then RunsFromBase C H state proposer baseFee limit txs
  else RunsInOrder C H state proposer baseFee limit txs

namespace Executor

def advance (ex : Executor) (txh : Hash32) (receipt : Receipt) (state : KvState) : Executor :=
  { ex with
    executedHashes := ex.executedHashes.insert txh
    gasUsed := Machine.satAdd ex.gasUsed receipt.gasUsed
    state := state
    receipts := ex.receipts ++ [receipt] }

variable {ex ex' : Executor}

lemma executeTx_ok_iff {tx : Tx} :
    ex.executeTx C H tx = some (.ok (), ex') ↔
      txHash C tx ∉ ex.executedHashes ∧
        ∃ r st, applyTx C H ex.state tx ex.baseFee ex.proposer = some (r, st) ∧
          Machine.satAdd ex.gasUsed r.gasUsed ≤ ex.maxGasPerBlock ∧
          ex' = ex.advance (txHash C tx) r st := by
  unfold executeTx
  by_cases hdup : txHash C tx ∈ ex.executedHashes
  · simp [hdup]
  · cases happ : applyTx C H ex.state tx ex.baseFee ex.proposer with
    | none => simp [hdup, happ]
    | some res =>
      obtain ⟨r, st⟩ := res
      by_cases hgas : Machine.satAdd ex.gasUsed r.gasUsed ≤ ex.maxGasPerBlock
      · simp [hdup, happ, UInt64.not_lt.mpr hgas, hgas, advance, eq_comm]
      · simp [hdup, happ, UInt64.not_le.mp hgas, hgas]

lemma executeBatch_cons_ok_iff {tx : Tx} :
    ex.executeBatch C H (tx :: txs) = some (.ok (), ex') ↔
      ∃ ex₁, ex.executeTx C H tx = some (.ok (), ex₁) ∧
        ex₁.executeBatch C H txs = some (.ok (), ex') := by
  rw [executeBatch]
  cases ex.executeTx C H tx with
  | none => simp
  | some res =>
    obtain ⟨_ | _, ex₁⟩ := res
    · simp
    · simp

lemma executeBatch_ok_iff (hgas : ex.gasUsed ≤ ex.maxGasPerBlock) :
    (∃ ex', ex.executeBatch C H txs = some (.ok (), ex')) ↔
      (∀ tx ∈ txs, txHash C tx ∉ ex.executedHashes) ∧ (txs.map (txHash C)).Nodup ∧
        ∃ rs st, applyAll C H ex.baseFee ex.proposer ex.state txs = some (rs, st) ∧
          gasFrom ex.gasUsed rs ≤ ex.maxGasPerBlock := by
  induction txs generalizing ex with
  | nil => simpa [executeBatch, applyAll, gasFrom] using hgas
  | cons tx txs ih =>
    constructor
    · rintro ⟨ex', h⟩
      obtain ⟨ex₁, htx, htxs⟩ := (executeBatch_cons_ok_iff C H).mp h
      obtain ⟨hnew, r, st, happ, hfit, rfl⟩ := (executeTx_ok_iff C H).mp htx
      obtain ⟨hfresh, hnd, rs, st', hall, hrest⟩ := (ih hfit).mp ⟨ex', htxs⟩
      have hne : ∀ t ∈ txs, txHash C tx ≠ txHash C t ∧ txHash C t ∉ ex.executedHashes := by
        intro t ht
        have := hfresh t ht
        simpa [advance] using this
      refine ⟨?_, ?_, r :: rs, st', ?_, hrest⟩
      · rintro t (_ | ⟨_, ht⟩)
        · exact hnew
        · exact (hne t ht).2
      · refine nodup_cons.mpr ⟨fun hmem => ?_, hnd⟩
        obtain ⟨t, ht, heq⟩ := mem_map.mp hmem
        exact (hne t ht).1 heq.symm
      · exact (applyAll_cons_eq_some_iff C H).mpr ⟨r, st, rs, happ, hall, rfl⟩
    · rintro ⟨hfresh, hnd, rs, st', hall, hrest⟩
      obtain ⟨r, st, rs, happ, htail, rfl⟩ := (applyAll_cons_eq_some_iff C H).mp hall
      obtain ⟨hnotin, hnd⟩ := nodup_cons.mp hnd
      have hfit : (ex.advance (txHash C tx) r st).gasUsed ≤ ex.maxGasPerBlock :=
        UInt64.le_trans (le_gasFrom _ rs) hrest
      have htx := (executeTx_ok_iff C H).mpr
        ⟨hfresh tx mem_cons_self, r, st, happ, hfit, rfl⟩
      have hfresh' : ∀ t ∈ txs, txHash C t ∉ (ex.advance (txHash C tx) r st).executedHashes := by
        intro t ht hmem
        rcases Std.ExtTreeSet.mem_insert.mp hmem with heq | hmem
        · refine hnotin (mem_map.mpr ⟨t, ht, ?_⟩)
          exact (Std.LawfulEqOrd.eq_of_compare heq).symm
        · exact hfresh t (mem_cons_of_mem _ ht) hmem
      obtain ⟨ex', htxs⟩ := (@ih (ex.advance (txHash C tx) r st) hfit).mpr
        ⟨hfresh', hnd, rs, st', htail, hrest⟩
      exact ⟨ex', (executeBatch_cons_ok_iff C H).mpr ⟨_, htx, htxs⟩⟩

lemma mergeResults_ok_iff {final f : KvState} {receipts rs : List Receipt} {gas g : UInt64}
    {results : List (Receipt × KvState)} :
    mergeResults final receipts gas results = .ok (f, rs, g) ↔
      (∀ res ∈ results, res.1.success = true) ∧
        (results.map Prod.snd).foldlM KvState.merge final = .ok f ∧
        rs = receipts ++ results.map Prod.fst ∧ g = gasFrom gas (results.map Prod.fst) := by
  induction results generalizing final receipts gas with
  | nil =>
    simp only [mergeResults, gasFrom, map_nil, foldlM_nil, foldl_nil,
      append_nil, not_mem_nil, false_implies, implies_true, true_and, pure, Except.pure,
      Except.ok.injEq, Prod.mk.injEq]
    exact and_congr_right' (and_congr eq_comm eq_comm)
  | cons res results ih =>
    obtain ⟨r, part⟩ := res
    rw [mergeResults]
    cases hr : r.success with
    | false => simp [hr]
    | true =>
      cases hm : final.merge part with
      | error e => simp [hm, bind, Except.bind]
      | ok merged =>
        simp only [if_true, bind, Except.bind, ih, map_cons, foldlM_cons, hm]
        simp [hr, gasFrom]

lemma failed_eq_nil_iff :
    (txs.filter fun tx => (verifyTxSignature C tx).toOption.isNone) = [] ↔
      ∀ tx ∈ txs, ∃ addr, verifyTxSignature C tx = .ok addr := by
  rw [filter_eq_nil_iff]
  refine forall₂_congr fun tx _ => ?_
  cases verifyTxSignature C tx <;> simp [Except.toOption]

lemma executeBatchParallel_ok_iff (hlen : quantumParallelThreshold < txs.length)
    (hver : ex.config.verifySignatures = true) :
    (∃ ex', ex.executeBatchParallel C H txs = some (.ok (), ex')) ↔
      RunsFromBase C H ex.state ex.proposer ex.baseFee ex.maxGasPerBlock txs := by
  have hpar : (decide (txs.length ≤ quantumParallelThreshold) || !ex.config.verifySignatures)
      = false := by simp [hver, hlen]
  unfold executeBatchParallel RunsFromBase
  rw [hpar, ← failed_eq_nil_iff]
  generalize (txs.filter fun tx => (verifyTxSignature C tx).toOption.isNone) = failed
  cases failed with
  | cons tx failed => simp
  | nil =>
    cases hres : txs.mapM fun tx => applyTx C H ex.state tx ex.baseFee ex.proposer with
    | none => simp
    | some results =>
      cases hm : mergeResults ex.state [] 0 results with
      | error e =>
        refine iff_of_false (by simp [hm]) ?_
        rintro ⟨-, results', heq, hsucc, ⟨f, hfold⟩, -⟩
        obtain rfl : results = results' := Option.some.inj heq
        rw [mergeResults_ok_iff.mpr ⟨hsucc, hfold, rfl, rfl⟩] at hm
        cases hm
      | ok out =>
        obtain ⟨f, rs, g⟩ := out
        obtain ⟨hsucc, hfold, rfl, rfl⟩ := mergeResults_ok_iff.mp hm
        by_cases hgas : gasFrom 0 (results.map Prod.fst) ≤ ex.maxGasPerBlock
        · refine iff_of_true ?_ ⟨rfl, results, rfl, hsucc, ⟨f, hfold⟩, hgas⟩
          simp [hm, UInt64.not_lt.mpr hgas]
        · refine iff_of_false (by simp [hm, UInt64.not_le.mp hgas]) ?_
          rintro ⟨-, results', heq, -, -, hfit⟩
          obtain rfl : results = results' := Option.some.inj heq
          exact hgas hfit

lemma executeAll_eq (ex : Executor) (txs : List Tx) :
    ex.executeAll C H txs =
      if RunsParallel ex.config txs then ex.executeBatchParallel C H txs
      else ex.executeBatch C H txs := by
  unfold executeAll
  by_cases hcfg : ex.config.quantumParallelThreshold < txs.length
  · rw [if_pos hcfg]
    by_cases hpar : RunsParallel ex.config txs
    · rw [if_pos hpar]
    · have hseq : (decide (txs.length ≤ quantumParallelThreshold) || !ex.config.verifySignatures)
          = true := by
        by_contra hno
        simp only [Bool.or_eq_true, decide_eq_true_eq, Bool.not_eq_true', not_or, not_le,
          Bool.not_eq_false] at hno
        exact hpar ⟨hcfg, hno.1, hno.2⟩
      rw [if_neg hpar, executeBatchParallel, if_pos hseq]
  · rw [if_neg hcfg, if_neg fun hpar => hcfg hpar.1]

lemma executeAll_ok_iff {state : KvState} {proposer : String} {baseFee maxGas : UInt64} :
    (∃ ex', (new state proposer baseFee maxGas config).executeAll C H txs = some (.ok (), ex')) ↔
      Executes C H state proposer baseFee maxGas config txs := by
  rw [executeAll_eq, Executes]
  by_cases hpar : RunsParallel config txs
  · rw [if_pos hpar, if_pos (show RunsParallel (new state proposer baseFee maxGas config).config txs
      from hpar)]
    exact executeBatchParallel_ok_iff C H hpar.2.1 hpar.2.2
  · rw [if_neg hpar, if_neg (show ¬ RunsParallel (new state proposer baseFee maxGas config).config txs
      from hpar), executeBatch_ok_iff C H (by exact UInt64.zero_le)]
    simp [new, RunsInOrder]

end Executor

/-! ### A built block, verified -/

lemma buildBlock_spec {stamp : Stamp} {height : Height} {round : Round} {prev : Hash32}
    {prevState st : KvState} {baseFee maxGas : UInt64} {cache cache' : Merkle.RootCache}
    {block : Block}
    (h : buildBlock C H stamp height round prev proposerPk proposerAddr prevState baseFee txs
      maxGas config cache = some ((block, st, receipts), cache')) :
    ∃ res ex, (Executor.new prevState proposerAddr baseFee maxGas config).executeAll C H txs
        = some (res, ex) ∧
      st = ex.state ∧ receipts = ex.receipts ∧ cache' = (ex.state.root C cache).2 ∧
      block.txs = txs ∧ block.header.proposerPk = proposerPk ∧
      block.header.txRoot = txRoot C txs ∧ block.header.receiptsRoot = receiptsRoot C ex.receipts ∧
      block.header.stateRoot = (ex.state.root C cache).1 ∧
      block.header.baseFeePerGas = baseFee ∧ block.header.gasUsed = ex.gasUsed ∧
      block.header.height = height ∧ block.header.prev = prev := by
  obtain ⟨⟨res, ex⟩, hrun, h⟩ := Option.bind_eq_some_iff.mp h
  cases h
  exact ⟨res, ex, hrun, rfl, rfl, rfl, rfl, rfl, rfl, rfl, rfl, rfl, rfl, rfl, rfl⟩

/-- **When a built block verifies.** A node verifies with the root cache that its own history has left it.
Whatever that is, it accepts a block that was built from the same state, with the same result, exactly if
the proposer key has 32 bytes, the transactions run through, and its cache answers for the resulting state
with the root that the proposer's cache gave. -/
theorem verifyBlock_buildBlock_iff {stamp : Stamp} {height : Height} {round : Round} {prev : Hash32}
    {proposerPk : PublicKeyBytes} {proposerAddr : String} {prevState st : KvState}
    {baseFee maxGas : UInt64} {txs : List Tx} {config : ExecutionConfig}
    {cache cache' : Merkle.RootCache} {block : Block} {receipts : List Receipt}
    (h : buildBlock C H stamp height round prev proposerPk proposerAddr prevState baseFee txs maxGas
      config cache = some ((block, st, receipts), cache')) (own : Merkle.RootCache) :
    (∃ own', verifyBlock C H prevState block proposerAddr maxGas config own
        = some (some (st, receipts), own')) ↔
      proposerPk.length = 32 ∧ Executes C H prevState proposerAddr baseFee maxGas config txs ∧
        (st.root C own).1 = (st.root C cache).1 := by
  obtain ⟨res, ex, hrun, rfl, rfl, rfl, htxs, hpk, htx, hrc, hst, hfee, hgas, -, -⟩ :=
    buildBlock_spec C H h
  rw [← Executor.executeAll_ok_iff, verifyBlock, hpk, htxs, htx, hfee, hrun]
  by_cases hlen : proposerPk.length = 32
  · cases res with
    | error e => simp [hlen, hrun]
    | ok u =>
      by_cases hroot : (ex.state.root C own).1 = (ex.state.root C cache).1
      · simp [hlen, hrun, hgas, hrc, hst, hroot]
      · simp [hlen, hrun, hgas, hrc, hst, hroot]
  · simp [hlen]

def demoBuild (txs : List Tx) : Option ((Block × KvState × List Receipt) × Merkle.RootCache) :=
  buildBlock .demo .reject ⟨0, 1⟩ 1 0 (.ofNat 0) (demoKey 9) (demoAddress 9) demoState 2 txs 0 {}
    (Lru.Cache.empty _ _ _)

def demoVerify (txs : List Tx) : Option (Option (KvState × List Receipt) × KvState × List Receipt) := do
  let ((block, st, receipts), cache) ← demoBuild txs
  let (res, _) ← verifyBlock .demo .reject demoState block (demoAddress 9) 0 {} cache
  return (res, st, receipts)

lemma demoVerify_eq_some {v : Option (KvState × List Receipt) × KvState × List Receipt}
    (h : demoVerify txs = some v) :
    ∃ block cache cache', demoBuild txs = some ((block, v.2.1, v.2.2), cache) ∧
      verifyBlock .demo .reject demoState block (demoAddress 9) 0 {} cache = some (v.1, cache') := by
  obtain ⟨⟨⟨block, st, receipts⟩, cache⟩, hbuild, h⟩ := Option.bind_eq_some_iff.mp h
  obtain ⟨⟨res, cache'⟩, hverify, h⟩ := Option.bind_eq_some_iff.mp h
  cases h
  exact ⟨block, cache, cache', hbuild, hverify⟩

/-- One transaction: the block is accepted, so the transactions ran through. -/
theorem verifyBlock_buildBlock_single :
    Executes .demo .reject demoState (demoAddress 9) 2 0 {} [demoTx 1 0 "set k v"] := by
  have hok : ((demoVerify [demoTx 1 0 "set k v"]).map fun v => decide (v.1 = some v.2)) = some true := by
    decide +kernel
  generalize [demoTx 1 0 "set k v"] = txs at hok ⊢
  obtain ⟨v, hrun, hres⟩ := Option.map_eq_some_iff.mp hok
  obtain ⟨block, cache, cache', hbuild, hverify⟩ := demoVerify_eq_some hrun
  rw [of_decide_eq_true hres] at hverify
  exact ((verifyBlock_buildBlock_iff .demo .reject hbuild cache).mp ⟨cache', hverify⟩).2.1

/-- The same transaction twice: the block is built with both and rejected on verification. And a block
with one transaction is rejected by a node that has just built another, which stores another value under
the same key: the cache key of a state is made of its size, its first and its last entry. -/
theorem verifyBlock_buildBlock_duplicate :
    ((demoVerify [demoTx 1 0 "set k v", demoTx 1 0 "set k v"]).map fun v => v.1) = some none ∧
    (do
      let ((block, _, _), _) ← demoBuild [demoTx 1 0 "set k v"]
      let (_, own) ← demoBuild [demoTx 1 0 "set k w"]
      let (res, _) ← verifyBlock .demo .reject demoState block (demoAddress 9) 0 {} own
      return res) = some none := by
  decide +kernel

end Iona
