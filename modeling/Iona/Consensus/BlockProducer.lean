import Iona.Consensus.Run
import Iona.Lib.Trace

/-!
# The block producer

`SimpleBlockProducer` of `consensus/block_producer.rs`.
-/

namespace Iona

inductive ProducerError where
  | invalidMaxTxs (maxTxs min max : ℕ)
  | invalidMaxGas
  | notInProposeStep (step : Step)
  | proposalAlreadyExists (round : Round)
  | notProposer (height : Height) (round : Round)
  | blockStoreError (reason : String)
  | proposerAddressError (reason : String)
  deriving DecidableEq

def minMaxTxs : ℕ := 1

def maxAllowedTxs : ℕ := 100000

structure ProducerConfig where
  maxTxs : ℕ := 4096
  includeBlockInProposal : Bool := true
  maxGasPerBlock : UInt64 := 30000000
  strictPreconditions : Bool := false

def ProducerConfig.validate (cfg : ProducerConfig) : Except ProducerError Unit :=
  if cfg.maxTxs < minMaxTxs || cfg.maxTxs > maxAllowedTxs then
    .error (.invalidMaxTxs cfg.maxTxs minMaxTxs maxAllowedTxs)
  else if cfg.maxGasPerBlock = 0 then .error .invalidMaxGas
  else .ok ()

structure SimpleBlockProducer where
  cfg : ProducerConfig
  valid : cfg.validate = .ok ()

def SimpleBlockProducer.new (cfg : ProducerConfig) : Except ProducerError SimpleBlockProducer :=
  match h : cfg.validate with
  | .error e => .error e
  | .ok () => .ok ⟨cfg, h⟩

def proposerAddress (C : Crypto) (pk : PublicKeyBytes) : Except ProducerError String :=
  if pk.length < 20 then
    .error (.proposerAddressError ("public key too short: " ++ toString pk.length ++ " bytes"))
  else .ok (Bytes.hexEncode ((C.blake3 pk).toList.take 20))

def selectTxs (maxGas : UInt64) : UInt64 → List Tx → Option (List Tx)
  | _, [] => some []
  | total, tx :: txs => do
    let gas ← intrinsicGas tx.payload
    match Machine.checked (total.toNat + gas.toNat) with
    | none => return []
    | some next =>
      if next > maxGas then return []
      else do
        let rest ← selectTxs maxGas next txs
        return tx :: rest

structure ProduceCall where
  producer : SimpleBlockProducer
  txs : List Tx
  gasTarget : UInt64
  storeError : Option String := none

namespace ProduceCall

variable (E : Env) (S : Signer) (io : Io) (call : ProduceCall)

def failedPrecondition (engine : Engine) : Option (Option ProducerError) :=
  if engine.state.step ≠ .propose then some (some (.notInProposeStep engine.state.step))
  else if engine.state.proposal.isSome then
    some (some (.proposalAlreadyExists engine.state.round))
  else do
    let proposer ← engine.vset.proposerFor engine.state.height engine.state.round
    if proposer.pk ≠ S.publicKey then
      return some (.notProposer engine.state.height engine.state.round)
    return none

def preconditionFailure (e : ProducerError) : Except ProducerError Bool :=
  if call.producer.cfg.strictPreconditions then .error e else .ok false

def build (n : Node) (addr : String) :
    Option ((Block × KvState × List Receipt) × Merkle.RootCache) := do
  let selected ←
    selectTxs call.producer.cfg.maxGasPerBlock 0 (call.txs.take call.producer.cfg.maxTxs)
  buildBlock E.crypto E.handlers io.stamp n.state.height n.state.round n.prevBlockId S.publicKey addr
    n.appState n.baseFeePerGas selected call.producer.cfg.maxGasPerBlock E.execution n.cache

def proposal (n : Node) (block : Block) : Proposal where
  height := n.state.height
  round := n.state.round
  proposer := S.publicKey
  blockId := block.id E.crypto
  block := if call.producer.cfg.includeBlockInProposal then some block else none
  polRound := n.state.validRound
  signature := S.sign (proposalSignBytes n.state.height n.state.round (block.id E.crypto)
    n.state.validRound)

def publish (block : Block) (newState : KvState) : Prog Node (Except ProducerError Bool) := do
  let n ← .get
  Engine.put E block
  .modify fun n => { n with appState := newState }
  let newBase ← .ofOption (nextBaseFee n.baseFeePerGas block.header.gasUsed call.gasTarget)
  .modify fun n => { n with baseFeePerGas := newBase }
  .modify fun m => { m with
    state.proposal := some (call.proposal E S n block), state.proposalBlock := some block }
  Engine.emit (.broadcast (.proposal (call.proposal E S n block)))
  pure (.ok true)

def produce : Prog Node (Except ProducerError Bool) := do
  let n ← .get
  match proposerAddress E.crypto S.publicKey with
  | .error e => pure (.error e)
  | .ok addr => do
    let built ← .ofOption (call.build E S io n addr)
    .modify fun n => { n with cache := built.2 }
    match call.storeError with
    | some reason => pure (.error (.blockStoreError ("failed to store block: " ++ reason)))
    | none => call.publish E S built.1.1 built.1.2.1

def tryProduce : Prog Node (Except ProducerError Bool) := do
  let n ← .get
  let failed ← .ofOption (failedPrecondition S n.toEngine)
  match failed with
  | some e => pure (call.preconditionFailure e)
  | none => call.produce E S io

/-! ### All it can do -/

structure Builds (n : Node) (block : Block) (newState : KvState) (cache : Merkle.RootCache) :
    Prop where
  ready : failedPrecondition S n.toEngine = some none
  built : ∃ addr receipts, proposerAddress E.crypto S.publicKey = .ok addr ∧
    call.build E S io n addr = some ((block, newState, receipts), cache)
  stored : call.storeError = none

def stored (n : Node) (block : Block) (newState : KvState) (cache : Merkle.RootCache) : Node :=
  { n with
    cache := cache, store := n.store.insert (block.id E.crypto) block, appState := newState }

def produced (n : Node) (block : Block) (newState : KvState) (cache : Merkle.RootCache)
    (newBase : UInt64) : Node :=
  { stored E n block newState cache with
    baseFeePerGas := newBase
    state.proposal := some (call.proposal E S n block)
    state.proposalBlock := some block
    trace := .broadcast (.proposal (call.proposal E S n block)) :: n.trace }

lemma publish_eq (n : Node) (block : Block) (newState : KvState) (cache : Merkle.RootCache) :
    call.publish E S block newState { n with cache := cache } =
      match nextBaseFee n.baseFeePerGas block.header.gasUsed call.gasTarget with
      | none => (none, stored E n block newState cache)
      | some newBase => (some (.ok true), call.produced E S n block newState cache newBase) := by
  change (Prog.ofOption (nextBaseFee n.baseFeePerGas block.header.gasUsed call.gasTarget) >>= _ :
    Prog Node _) _ = _
  cases nextBaseFee n.baseFeePerGas block.header.gasUsed call.gasTarget <;> rfl

variable {E S io call} {n : Node}

lemma tryProduce_of_builds {block : Block} {newState : KvState} {cache : Merkle.RootCache}
    (h : call.Builds E S io n block newState cache) :
    call.tryProduce E S io n =
      match nextBaseFee n.baseFeePerGas block.header.gasUsed call.gasTarget with
      | none => (none, stored E n block newState cache)
      | some newBase => (some (.ok true), call.produced E S n block newState cache newBase) := by
  obtain ⟨addr, receipts, haddr, hbuilt⟩ := h.built
  simp only [← publish_eq, tryProduce, produce, Prog.get_bind_apply, Prog.ofOption_some_bind,
    Prog.modify_bind_apply, h.ready, haddr, hbuilt, h.stored]

lemma tryProduce_of_not_builds
    (h : ∀ block newState cache, ¬ call.Builds E S io n block newState cache) :
    ∃ cache, (call.tryProduce E S io).exec n = { n with cache := cache } := by
  simp only [Prog.exec, tryProduce, Prog.get_bind_apply]
  rcases hready : failedPrecondition S n.toEngine with _ | (_ | e)
  · exact ⟨n.cache, rfl⟩
  · simp only [Prog.ofOption_some_bind, produce, Prog.get_bind_apply]
    cases haddr : proposerAddress E.crypto S.publicKey with
    | error e => exact ⟨n.cache, rfl⟩
    | ok addr =>
      cases hbuilt : call.build E S io n addr with
      | none =>
        refine ⟨n.cache, ?_⟩
        simp only [hbuilt, Prog.ofOption_none_bind_apply]
      | some built =>
        obtain ⟨⟨block, newState, receipts⟩, cache⟩ := built
        refine ⟨cache, ?_⟩
        simp only [hbuilt, Prog.ofOption_some_bind, Prog.modify_bind_apply]
        cases hstored : call.storeError with
        | some reason => rfl
        | none => exact absurd ⟨hready, ⟨addr, receipts, haddr, hbuilt⟩, hstored⟩ (h block newState cache)
  · exact ⟨n.cache, rfl⟩

lemma tryProduce_exec_cases (E : Env) (S : Signer) (io : Io) (call : ProduceCall) (n : Node) :
    (∃ cache, (call.tryProduce E S io).exec n = { n with cache := cache }) ∨
    ∃ block newState cache, call.Builds E S io n block newState cache ∧
      ((call.tryProduce E S io).exec n = stored E n block newState cache ∨
        ∃ newBase, (call.tryProduce E S io).exec n =
          call.produced E S n block newState cache newBase) := by
  by_cases hbuilds : ∃ block newState cache, call.Builds E S io n block newState cache
  · obtain ⟨block, newState, cache, hbuilds⟩ := hbuilds
    refine .inr ⟨block, newState, cache, hbuilds, ?_⟩
    rw [Prog.exec, tryProduce_of_builds hbuilds]
    split
    · exact .inl rfl
    · exact .inr ⟨_, rfl⟩
  · simp only [not_exists] at hbuilds
    exact .inl (tryProduce_of_not_builds hbuilds)

end ProduceCall

/-! ### The main loop -/

inductive Drive where
  | event (ev : Event)
  | produce (call : ProduceCall)

def Drive.prog (E : Env) (S : Signer) (io : Io) : Drive → Prog Node Unit
  | event ev => do
    let _ ← ev.prog E S io
    pure ()
  | produce call => do
    let _ ← call.tryProduce E S io
    pure ()

def Drive.step (E : Env) (S : Signer) (n : Node) (turn : Io × Drive) : Option Node :=
  match turn.2.prog E S turn.1 n with
  | (some _, m) => some m
  | (none, _) => none

variable {S : Signer}

lemma Drive.trace_suffix (E : Env) (S : Signer) (io : Io) (drive : Drive) (n : Node) :
    n.trace <:+ ((drive.prog E S io).exec n).trace := by
  cases drive with
  | event ev =>
    rw [Drive.prog, Prog.exec_bind_pure]
    exact ev.trace_suffix E S io n
  | produce call =>
    rw [Drive.prog, Prog.exec_bind_pure]
    rcases call.tryProduce_exec_cases E S io n with ⟨_, h⟩ | ⟨_, _, _, -, h | ⟨_, h⟩⟩
    · rw [h]
    · rw [h]
      exact List.suffix_rfl
    · rw [h]
      exact List.suffix_cons _ _

lemma Drive.exec_of_step {E : Env} {n m : Node} {io : Io} {drive : Drive}
    (h : Drive.step E S n (io, drive) = some m) : (drive.prog E S io).exec n = m := by
  simp only [Drive.step] at h
  rw [Prog.exec]
  split at h
  · rename_i heq
    rw [heq]
    exact Option.some.inj h
  · cases h

def demoCall (txs : List Tx) : ProduceCall where
  producer := ⟨{}, by decide⟩
  txs := txs
  gasTarget := 43000000

end Iona
