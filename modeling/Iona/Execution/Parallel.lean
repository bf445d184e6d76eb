import Iona.Execution.Block
import Iona.Lib.Grouping

/-! # The parallel executor -/

namespace Iona

open List

open Machine Std.ExtTreeMap

abbrev BTreeSet (κ : Type) [Ord κ] := Std.ExtTreeSet κ compare

inductive ParallelError where
  | config (reason : String)
  | sequentialApplyFailed (index : ℕ) (reason : String)
  deriving DecidableEq

structure ParallelConfig where
  minTxsForParallel : ℕ := 32
  minSendersForParallel : ℕ := 4
  maxParallelGroups : ℕ := 256
  verifyStateRoot : Bool := false
  maxRetryAttempts : ℕ := 3

def ParallelConfig.validate (config : ParallelConfig) : Except ParallelError Unit :=
  if config.minTxsForParallel = 0 then .error (.config "min_txs_for_parallel must be > 0")
  else if config.minSendersForParallel = 0 then
    .error (.config "min_senders_for_parallel must be > 0")
  else if config.maxParallelGroups = 0 then .error (.config "max_parallel_groups must be > 0")
  else if config.maxRetryAttempts = 0 then .error (.config "max_retry_attempts must be > 0")
  else .ok ()

structure ParallelExecutor where
  config : ParallelConfig
  valid : config.validate = .ok ()

structure ParallelExecResult where
  state : KvState
  gasUsed : UInt64
  receipts : List Receipt
  usedParallel : Bool
  senderGroups : ℕ

/-! ### Groups -/

def addToGroup (acc : BTreeMap String (List (Tx × ℕ)) × List String) (e : Tx × ℕ) :
    BTreeMap String (List (Tx × ℕ)) × List String :=
  (acc.1.insert e.1.from (acc.1.getD e.1.from [] ++ [e]),
    if e.1.from ∈ acc.1 then acc.2 else acc.2 ++ [e.1.from])

def partitionBySender (txs : List Tx) : BTreeMap String (List (Tx × ℕ)) × List String :=
  txs.zipIdx.foldl addToGroup (∅, [])

structure GroupResult where
  sender : String
  receipts : List Receipt
  finalState : KvState
  writtenKeys : BTreeSet String
  modifiedBalances : BTreeSet String
  modifiedNonces : BTreeSet String
  modifiedVmStorage : BTreeSet (Word × Word)
  globalIndices : List ℕ
  gasUsed : UInt64

def changedKeys {κ ν : Type} [Ord κ] [Std.TransOrd κ] [DecidableEq ν] (initial final : BTreeMap κ ν) :
    List κ :=
  (final.toList.filter fun (k, v) => initial[k]? ≠ some v).map Prod.fst

def removedKeys {κ ν : Type} [Ord κ] [Std.TransOrd κ] (initial final : BTreeMap κ ν) : List κ :=
  initial.keys.filter fun k => k ∉ final

def groupResult (base : KvState) (txs : List (Tx × ℕ)) (sender : String)
    (run : List Receipt × KvState) : GroupResult where
  sender := sender
  receipts := run.1
  finalState := run.2
  writtenKeys := .ofList (changedKeys base.kv run.2.kv ++ removedKeys base.kv run.2.kv) compare
  -- a balance or nonce that is gone is not reported
  modifiedBalances := .ofList (changedKeys base.balances run.2.balances) compare
  modifiedNonces := .ofList (changedKeys base.nonces run.2.nonces) compare
  modifiedVmStorage := .ofList (changedKeys base.vm.storage run.2.vm.storage ++
    removedKeys base.vm.storage run.2.vm.storage) compare
  globalIndices := txs.map Prod.snd
  gasUsed := gasFrom 0 run.1

variable (C : Crypto) (H : Handlers)

def executeGroup (base : KvState) (txs : List (Tx × ℕ)) (baseFee : UInt64)
    (proposer sender : String) : Option GroupResult :=
  (applyAll C H baseFee proposer base (txs.map Prod.fst)).map (groupResult base txs sender)

/-! ### Conflicts -/

inductive ConflictType where
  | kvKey (key : String)
  | balance (addr : String)
  | nonce (addr : String)
  | vmStorage (contract slot : Word)

def detectConflict (a b : GroupResult) : Option ConflictType :=
  match a.writtenKeys.toList.find? (· ∈ b.writtenKeys) with
  | some key => some (.kvKey key)
  | none =>
    match a.modifiedBalances.toList.find? (· ∈ b.modifiedBalances) with
    | some addr => some (.balance addr)
    | none =>
      match a.modifiedNonces.toList.find? (· ∈ b.modifiedNonces) with
      | some addr => some (.nonce addr)
      | none =>
        (a.modifiedVmStorage.toList.find? (· ∈ b.modifiedVmStorage)).map fun (contract, slot) =>
          .vmStorage contract slot

def detectAllConflicts : List GroupResult → List (String × String × ConflictType)
  | [] => []
  | a :: groups => groups.filterMap (fun b => (detectConflict a b).map fun c => (a.sender, b.sender, c))
      ++ detectAllConflicts groups

/-! ### Merging -/

def balanceDeltas (base : KvState) (groups : List GroupResult) : BTreeMap String ℤ :=
  groups.foldl (fun deltas group =>
    group.finalState.balances.foldl (fun deltas addr bal =>
      deltas.insert addr (deltas.getD addr 0 +
        ((bal.toNat : ℤ) - (base.balances.getD addr 0).toNat))) deltas) ∅

def applyDelta (balances : BTreeMap String UInt64) (addr : String) (delta : ℤ) :
    BTreeMap String UInt64 :=
  let current := balances.getD addr 0
  let newVal :=
    if 0 ≤ delta then satAdd current (.ofNat delta.toNat)
    else satSub current (.ofNat (-delta).toNat)
  if newVal = 0 then balances.erase addr else balances.insert addr newVal

def mergeKv (base : KvState) (kv : BTreeMap String String) (group : GroupResult) :
    BTreeMap String String :=
  let kv := group.finalState.kv.foldl
    (fun kv k v => if base.kv[k]? ≠ some v then kv.insert k v else kv) kv
  base.kv.foldl (fun kv k _ =>
    if k ∉ group.finalState.kv ∧ k ∈ group.writtenKeys then kv.erase k else kv) kv

def mergeStates (base : KvState) (groups : List GroupResult) : KvState where
  balances := (balanceDeltas base groups).foldl applyDelta base.balances
  kv := groups.foldl (mergeKv base) base.kv
  nonces := groups.foldl (fun nonces group => extend nonces group.finalState.nonces) base.nonces
  burned := satAdd base.burned (groups.foldl (fun total group =>
    satAdd total (satSub group.finalState.burned base.burned)) 0)
  vm := { base.vm with
    storage := groups.foldl (fun m group => extend m group.finalState.vm.storage) base.vm.storage
    code := groups.foldl (fun m group => extend m group.finalState.vm.code) base.vm.code
    nonces := groups.foldl (fun m group => extend m group.finalState.vm.nonces) base.vm.nonces }

/-! ### The executor -/

def sequentialFrom (baseFee : UInt64) (proposer : String) :
    ℕ → KvState → UInt64 → List Receipt → List Tx → Option (Except ParallelError ParallelExecResult)
  | _, st, gasTotal, receipts, [] => some (.ok ⟨st, gasTotal, receipts, false, 0⟩)
  | idx, st, gasTotal, receipts, tx :: txs => do
    let (rcpt, next) ← applyTx C H st tx baseFee proposer
    match rcpt.error with
    | some err => return .error (.sequentialApplyFailed idx err)
    | none =>
      sequentialFrom baseFee proposer (idx + 1) next (satAdd gasTotal rcpt.gasUsed)
        (receipts ++ [rcpt]) txs

def executeSequential (prevState : KvState) (txs : List Tx) (baseFee : UInt64) (proposer : String) :
    Option (Except ParallelError ParallelExecResult) :=
  sequentialFrom C H baseFee proposer 0 prevState 0 [] txs

def groupResults (prevState : KvState) (txs : List Tx) (baseFee : UInt64) (proposer : String) :
    Option (List GroupResult) :=
  let (groups, senderOrder) := partitionBySender txs
  (senderOrder.filterMap fun s => groups[s]?.map fun g => (s, g)).mapM fun (sender, group) =>
    executeGroup C H prevState group baseFee proposer sender

def attempts (run : Option (List GroupResult)) : ℕ → Option (List GroupResult × Bool)
  | 0 => some ([], true)
  | _ + 1 => run.map fun results => (results, !(detectAllConflicts results).isEmpty)

def collectReceipts (groups : List GroupResult) : List Receipt :=
  ((groups.flatMap fun group => group.globalIndices.zip group.receipts).insertionSort
    fun a b => a.1 ≤ b.1).map Prod.snd

def mergedResult (prevState : KvState) (results : List GroupResult) : ParallelExecResult where
  state := mergeStates prevState results
  gasUsed := results.foldl (fun total group => satAdd total group.gasUsed) 0
  receipts := collectReceipts results
  usedParallel := true
  senderGroups := results.length

namespace ParallelExecutor

def verifyStateRoot (ex : ParallelExecutor)
    (sequential : Option (Except ParallelError ParallelExecResult)) (merged : ParallelExecResult)
    (cache : Merkle.RootCache) :
    Option (Except ParallelError ParallelExecResult × Merkle.RootCache) :=
  if ex.config.verifyStateRoot then do
    match ← sequential with
    | .error e => return (.error e, cache)
    | .ok seqResult =>
      let (mergedRoot, cache) := merged.state.root C cache
      let (seqRoot, cache) := seqResult.state.root C cache
      return (.ok (if mergedRoot ≠ seqRoot then seqResult else merged), cache)
  else return (.ok merged, cache)

def executeParallel (ex : ParallelExecutor) (prevState : KvState) (txs : List Tx) (baseFee : UInt64)
    (proposer : String) (cache : Merkle.RootCache) :
    Option (Except ParallelError ParallelExecResult × Merkle.RootCache) :=
  let sequential := executeSequential C H prevState txs baseFee proposer
  if txs.any fun tx => (verifyTxSignature C tx).toOption.isNone then
    sequential.map (·, cache)
  else do
    let (results, conflictDetected) ← attempts
      (groupResults C H prevState txs baseFee proposer) ex.config.maxRetryAttempts
    if conflictDetected then sequential.map (·, cache)
    else ex.verifyStateRoot C sequential (mergedResult prevState results) cache

def shouldUseParallel (ex : ParallelExecutor) (txs : List Tx) : Prop :=
  ex.config.minTxsForParallel ≤ txs.length ∧
    ex.config.minSendersForParallel ≤ (partitionBySender txs).1.size ∧
    (partitionBySender txs).1.size ≤ ex.config.maxParallelGroups

instance (ex : ParallelExecutor) (txs : List Tx) : Decidable (ex.shouldUseParallel txs) :=
  inferInstanceAs (Decidable (_ ∧ _ ∧ _))

def executeBlock (ex : ParallelExecutor) (prevState : KvState) (txs : List Tx) (baseFee : UInt64)
    (proposer : String) (cache : Merkle.RootCache) :
    Option (Except ParallelError ParallelExecResult × Merkle.RootCache) :=
  if txs.isEmpty then some (.ok ⟨prevState, 0, [], false, 0⟩, cache)
  else if ex.shouldUseParallel txs then
    ex.executeParallel C H prevState txs baseFee proposer cache
  else (executeSequential C H prevState txs baseFee proposer).map (·, cache)

end ParallelExecutor

/-! ### Every sender has one group -/

def txsOf (txs : List Tx) (sender : String) : List (Tx × ℕ) :=
  txs.zipIdx.filter fun e => e.1.from = sender

lemma map_fst_txsOf (txs : List Tx) (sender : String) :
    (txsOf txs sender).map Prod.fst = txs.filter fun tx => tx.from = sender := by
  conv_rhs => rw [← zipIdx_map_fst 0 txs, List.filter_map]
  rfl

def senderOrder (txs : List Tx) : List String := (partitionBySender txs).2

structure Partitioned (l : List (Tx × ℕ)) (acc : BTreeMap String (List (Tx × ℕ)) × List String) :
    Prop where
  nodup : acc.2.Nodup
  order : ∀ s, s ∈ acc.2 ↔ s ∈ acc.1
  senders : ∀ s, s ∈ acc.1 ↔ ∃ e ∈ l, e.1.from = s
  group : ∀ s, acc.1.getD s [] = l.filter fun e => e.1.from = s

lemma Partitioned.snoc {l : List (Tx × ℕ)}
    {acc : BTreeMap String (List (Tx × ℕ)) × List String} (h : Partitioned l acc) (e : Tx × ℕ) :
    Partitioned (l ++ [e]) (addToGroup acc e) where
  nodup := by
    unfold addToGroup
    split
    · exact h.nodup
    · rename_i hnew
      refine nodup_append.mpr ⟨h.nodup, nodup_singleton _, ?_⟩
      rintro a ha b hb rfl
      rw [mem_singleton.mp hb] at ha
      exact hnew ((h.order _).mp ha)
  order s := by
    simp only [addToGroup]
    rw [mem_insert, Std.LawfulEqCmp.compare_eq_iff_eq]
    split
    · rename_i hold
      rw [h.order]
      refine ⟨.inr, ?_⟩
      rintro (rfl | hs)
      · exact hold
      · exact hs
    · rw [mem_append, mem_singleton, h.order]
      tauto
  senders s := by
    simp only [addToGroup]
    rw [mem_insert, Std.LawfulEqCmp.compare_eq_iff_eq, h.senders]
    constructor
    · rintro (rfl | ⟨e', he', rfl⟩)
      · exact ⟨e, by simp, rfl⟩
      · exact ⟨e', by simp [he'], rfl⟩
    · rintro ⟨e', he', rfl⟩
      rcases mem_append.mp he' with he' | he'
      · exact .inr ⟨e', he', rfl⟩
      · exact .inl (by rw [mem_singleton.mp he'])
  group s := by
    simp only [addToGroup]
    rw [getD_insert, filter_append, h.group, h.group]
    by_cases hs : e.1.from = s
    · simp [hs]
    · simp [hs]

lemma partitioned_partitionBySender (txs : List Tx) :
    Partitioned txs.zipIdx (partitionBySender txs) := by
  unfold partitionBySender
  induction txs.zipIdx using reverseRecOn with
  | nil => exact ⟨nodup_nil, by simp, by simp, by simp⟩
  | append_singleton l e ih =>
    rw [foldl_append]
    exact ih.snoc e

lemma nodup_senderOrder (txs : List Tx) : (senderOrder txs).Nodup :=
  (partitioned_partitionBySender txs).nodup

lemma mem_senderOrder {txs : List Tx} {s : String} : s ∈ senderOrder txs ↔ s ∈ txs.map Tx.from := by
  have h := partitioned_partitionBySender txs
  refine (h.order s).trans ((h.senders s).trans ?_)
  conv_rhs => rw [← zipIdx_map_fst 0 txs, List.map_map, List.mem_map]
  rfl

lemma getElem?_partitionBySender {txs : List Tx} {s : String} (hs : s ∈ senderOrder txs) :
    (partitionBySender txs).1[s]? = some (txsOf txs s) := by
  have h := partitioned_partitionBySender txs
  obtain ⟨g, hg⟩ := Option.isSome_iff_exists.mp
    (mem_iff_isSome_getElem?.mp ((h.order s).mp hs))
  rw [txsOf, ← h.group s, getD_eq_getD_getElem?, hg]
  rfl

/-! ### The results of the groups -/

variable {C H}

section Groups

variable (C H) (base : KvState) (txs : List Tx) (baseFee : UInt64) (proposer : String)

def runOf (sender : String) : Option (List Receipt × KvState) :=
  applyAll C H baseFee proposer base (txs.filter fun tx => tx.from = sender)

def resultOf (sender : String) : GroupResult :=
  groupResult base (txsOf txs sender) sender
    ((runOf C H base txs baseFee proposer sender).getD ([], base))

lemma groupResults_eq_some_iff {results : List GroupResult} :
    groupResults C H base txs baseFee proposer = some results ↔
      (∀ s ∈ senderOrder txs, (runOf C H base txs baseFee proposer s).isSome = true) ∧
        results = (senderOrder txs).map (resultOf C H base txs baseFee proposer) := by
  have hentries : ((senderOrder txs).filterMap fun s =>
      (partitionBySender txs).1[s]?.map fun g => (s, g)) =
        (senderOrder txs).map fun s => (s, txsOf txs s) := by
    rw [← filterMap_eq_map']
    refine filterMap_congr fun s hs => ?_
    rw [getElem?_partitionBySender hs]
    rfl
  have hrun : groupResults C H base txs baseFee proposer = (senderOrder txs).mapM fun s =>
      (runOf C H base txs baseFee proposer s).map (groupResult base (txsOf txs s) s) := by
    unfold groupResults
    dsimp only
    rw [show (partitionBySender txs).2 = senderOrder txs from rfl, hentries, mapM_map]
    refine congrArg (fun f => mapM f (senderOrder txs)) (funext fun s => ?_)
    rw [Function.comp_apply, executeGroup, map_fst_txsOf, runOf]
  have : Inhabited GroupResult := ⟨resultOf C H base txs baseFee proposer ""⟩
  rw [hrun, Grouping.mapM_eq_some_iff]
  simp only [Option.isSome_map]
  refine and_congr_right fun hsome => ?_
  rw [map_congr_left fun s hs => ?_]
  obtain ⟨res, hres⟩ := Option.isSome_iff_exists.mp (hsome s hs)
  simp [resultOf, hres]

end Groups

/-! ### What the merge makes of each entry -/

open Grouping

lemma getElem?_extend {κ ν : Type} [Ord κ] [Std.TransOrd κ] [Std.LawfulEqOrd κ] [DecidableEq κ]
    (m other : BTreeMap κ ν) (k : κ) : (extend m other)[k]? = other[k]?.or m[k]? := by
  rw [extend, (local_insert fun _ v => v).getElem?_foldl]
  cases other[k]? <;> rfl

lemma getElem?_mergeMaps {γ κ ν : Type} [Ord κ] [Std.TransOrd κ] [Std.LawfulEqOrd κ]
    [DecidableEq κ] (map : γ → BTreeMap κ ν) (groups : List γ) (m : BTreeMap κ ν) (k : κ) :
    (groups.foldl (fun m group => extend m (map group)) m)[k]? =
      groups.foldl (fun o group => (map group)[k]?.or o) m[k]? :=
  getElem?_foldl_maps (fun group _ acc => getElem?_extend acc (map group) k) m

lemma foldl_extend_self {γ κ ν : Type} [Ord κ] [Std.TransOrd κ] [Std.LawfulEqOrd κ]
    [DecidableEq κ] {map : γ → BTreeMap κ ν} {groups : List γ} {m : BTreeMap κ ν}
    (h : ∀ group ∈ groups, map group = m) :
    groups.foldl (fun m group => extend m (map group)) m = m := by
  refine ext_getElem? fun {k} => ?_
  rw [getElem?_mergeMaps]
  induction groups with
  | nil => rfl
  | cons group groups ih =>
    rw [foldl_cons, h group mem_cons_self, Option.or_self]
    exact ih fun g hg => h g (mem_cons_of_mem group hg)

lemma getElem?_mergeKv {base : KvState} {group : GroupResult} {k : String}
    (hremoved : k ∈ base.kv → k ∉ group.finalState.kv → k ∈ group.writtenKeys)
    (kv : BTreeMap String String) :
    (mergeKv base kv group)[k]? =
      if group.finalState.kv[k]? = base.kv[k]? then kv[k]? else group.finalState.kv[k]? := by
  have hput : Local (fun (kv : BTreeMap String String) k v =>
      if base.kv[k]? ≠ some v then kv.insert k v else kv)
      fun k v o => if base.kv[k]? ≠ some v then some v else o :=
    .ite (fun k v => base.kv[k]? ≠ some v) (local_insert fun _ v => v) local_skip
  have hdrop : Local (fun (kv : BTreeMap String String) k (_ : String) =>
      if k ∉ group.finalState.kv ∧ k ∈ group.writtenKeys then kv.erase k else kv)
      fun k _ o => if k ∉ group.finalState.kv ∧ k ∈ group.writtenKeys then none else o :=
    .ite (fun k _ => k ∉ group.finalState.kv ∧ k ∈ group.writtenKeys) local_erase local_skip
  unfold mergeKv
  dsimp only
  rw [hdrop.getElem?_foldl, hput.getElem?_foldl]
  rw [mem_iff_isSome_getElem?, mem_iff_isSome_getElem?] at hremoved
  simp only [mem_iff_isSome_getElem?]
  cases hbase : base.kv[k]? with
  | none => cases hfinal : group.finalState.kv[k]? <;> simp
  | some old =>
    cases hfinal : group.finalState.kv[k]? with
    | none => simp_all
    | some new =>
      by_cases hv : new = old
      · simp [hv]
      · simp [hv, Ne.symm hv]

def delta (base final : KvState) (addr : String) : ℤ :=
  final.balances[addr]?.elim 0 fun bal => (bal.toNat : ℤ) - (base.balances.getD addr 0).toNat

lemma getElem?_balanceDeltas (base : KvState) (groups : List GroupResult) (addr : String) :
    (balanceDeltas base groups)[addr]? =
      if ∃ group ∈ groups, addr ∈ group.finalState.balances then
        some (groups.map fun group => delta base group.finalState addr).sum
      else none := by
  have hlocal : Local (fun (deltas : BTreeMap String ℤ) addr (bal : UInt64) =>
      deltas.insert addr (deltas.getD addr 0 +
        ((bal.toNat : ℤ) - (base.balances.getD addr 0).toNat)))
      fun addr bal o => some (o.getD 0 + ((bal.toNat : ℤ) - (base.balances.getD addr 0).toNat)) := by
    intro deltas k bal k'
    dsimp only
    rw [getD_eq_getD_getElem?]
    -- the new value is fixed once the old one is read
    exact local_insert (fun _ _ => deltas[k]?.getD 0 +
      ((bal.toNat : ℤ) - (base.balances.getD k 0).toNat)) deltas k bal k'
  have hloops : ∀ o : Option ℤ, groups.foldl (fun o group =>
      group.finalState.balances[addr]?.elim o fun bal =>
        some (o.getD 0 + ((bal.toNat : ℤ) - (base.balances.getD addr 0).toNat))) o =
      if ∃ group ∈ groups, addr ∈ group.finalState.balances then
        some (o.getD 0 + (groups.map fun group => delta base group.finalState addr).sum)
      else o := by
    induction groups with
    | nil => simp
    | cons group groups ih =>
      intro o
      rw [foldl_cons, ih, map_cons, sum_cons]
      simp only [exists_mem_cons_iff, delta, mem_iff_isSome_getElem?]
      cases group.finalState.balances[addr]? with
      | none => simp
      | some bal =>
        split
        · simp [add_assoc]
        · rename_i hnone
          have hzero : (groups.map fun group => (group.finalState.balances[addr]?.elim 0 fun bal =>
              (bal.toNat : ℤ) - (base.balances.getD addr 0).toNat)).sum = 0 := by
            refine sum_eq_zero fun x hx => ?_
            obtain ⟨g, hg, rfl⟩ := List.mem_map.mp hx
            have : g.finalState.balances[addr]? = none := by
              by_contra hsome
              exact hnone ⟨g, hg, Option.isSome_iff_ne_none.mpr hsome⟩
            rw [this]
            rfl
          simp [hzero]
  unfold balanceDeltas
  rw [getElem?_foldl_maps (f := fun group o => group.finalState.balances[addr]?.elim o fun bal =>
      some (o.getD 0 + ((bal.toNat : ℤ) - (base.balances.getD addr 0).toNat)))
    fun group _ acc => hlocal.getElem?_foldl group.finalState.balances acc addr, hloops]
  simp

def settled (current : UInt64) (delta : ℤ) : Option UInt64 :=
  let newVal :=
    if 0 ≤ delta then satAdd current (.ofNat delta.toNat)
    else satSub current (.ofNat (-delta).toNat)
  if newVal = 0 then none else some newVal

lemma getElem?_mergeBalances (base : KvState) (groups : List GroupResult) (addr : String) :
    (mergeStates base groups).balances[addr]? =
      if ∃ group ∈ groups, addr ∈ group.finalState.balances then
        settled (base.balances.getD addr 0)
          (groups.map fun group => delta base group.finalState addr).sum
      else base.balances[addr]? := by
  have hlocal : Local applyDelta fun _ d o => settled (o.getD 0) d := by
    intro balances k d k'
    unfold applyDelta settled
    rw [getD_eq_getD_getElem?]
    dsimp only
    generalize (if 0 ≤ d then _ else _ : UInt64) = newVal
    exact Local.ite (fun _ _ => newVal = 0) local_erase (local_insert fun _ _ => newVal) balances k d k'
  show ((balanceDeltas base groups).foldl applyDelta base.balances)[addr]? = _
  rw [hlocal.getElem?_foldl, getElem?_balanceDeltas, getD_eq_getD_getElem?]
  split <;> rfl

end Iona
