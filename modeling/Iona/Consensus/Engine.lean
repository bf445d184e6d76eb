import Iona.Execution.Block
import Iona.Consensus.ValidatorSet
import Iona.Consensus.DoubleSign
import Iona.Slashing
import Iona.Lib.Prog

/-!
# The consensus engine

From `consensus/engine.rs`. The methods are programs on a `Node`, which is the engine with its block
store and the effects it has had, newest first.

## Main definitions

* `Engine`, `Node`: the state.
* `Engine.tick`, `onMessage`, `onBlockReceived`, `nextHeight`: the entry points.
* `Event.prog`: all that can happen to an engine.
-/

namespace Iona

/-- The errors of the engine. -/
inductive ConsensusError where
  | badSig
  | unknownValidator
  | badStep
  | exec
  | alreadyDecided
  deriving DecidableEq

/-- The steps of a round. -/
inductive Step where
  | propose
  | prevote
  | precommit
  | commit
  deriving DecidableEq

/-- The precommits a decision rests on. -/
structure CommitCertificate where
  height : Height
  blockId : Hash32
  precommits : List Vote
  deriving DecidableEq

/-- The configuration. -/
structure Config where
  proposeTimeoutMs : UInt64 := 300
  prevoteTimeoutMs : UInt64 := 200
  precommitTimeoutMs : UInt64 := 200
  maxRounds : UInt32 := 50
  maxTxsPerBlock : ℕ := 4096
  gasTarget : UInt64 := 43000000
  initialBaseFeePerGas : UInt64 := 1
  includeBlockInProposal : Bool := true
  fastQuorum : Bool := true

/-- The votes received, by round, type and voter. -/
abbrev Votes := BTreeMap Round (BTreeMap VoteType (BTreeMap PublicKeyBytes Vote))

instance transOrdVoteKey : Std.TransOrd (PublicKeyBytes × Height × Round × VoteType) :=
  inferInstance

/-- The state of one height. -/
structure ConsensusState where
  height : Height
  round : Round := 0
  step : Step := .propose
  lockedRound : Option Round := none
  lockedValue : Option Hash32 := none
  validRound : Option Round := none
  validValue : Option Hash32 := none
  proposal : Option Proposal := none
  proposalBlock : Option Block := none
  votes : Votes := ∅
  voteIndex : BTreeMap (PublicKeyBytes × Height × Round × VoteType) (Option Hash32 × Vote) := ∅
  decided : Option CommitCertificate := none

/-- The engine. -/
structure Engine where
  cfg : Config
  vset : ValidatorSet
  state : ConsensusState
  prevBlockId : Hash32
  appState : KvState
  stakes : StakeLedger
  baseFeePerGas : UInt64
  dsGuard : Option GuardState
  stepElapsedMs : UInt64

/-- What an engine does to the outside. -/
inductive Effect where
  | persist (st : GuardState)
  | broadcast (msg : ConsensusMsg)
  | requestBlock (id : Hash32)
  | onCommit (cert : CommitCertificate) (block : Block) (newState : KvState) (newBaseFee : UInt64)
      (receipts : List Receipt)

/-- An engine with its block store, root cache and effects. -/
structure Node extends Engine where
  store : BTreeMap Hash32 Block
  cache : Merkle.RootCache
  trace : List Effect

/-- A choice of a best entry, which may be any of several. -/
structure TallyRule where
  best : BTreeMap (Option Hash32) ℕ → Option (Option Hash32 × ℕ)
  best_mem : ∀ {t id pow}, best t = some (id, pow) → t[id]? = some pow
  best_max : ∀ {t id pow}, best t = some (id, pow) →
    ∀ (id' : Option Hash32) (pow' : ℕ), t[id']? = some pow' → pow' ≤ pow
  best_isSome : ∀ {t}, t ≠ ∅ → (best t).isSome

/-- Hashes, signatures, handlers of payloads and the parameters of execution. -/
structure Env where
  crypto : Crypto
  handlers : Handlers
  guardFormat : GuardFormat
  tally : TallyRule
  maxGas : UInt64 := 0
  execution : ExecutionConfig := {}

/-- The key of the validator. -/
structure Signer where
  publicKey : PublicKeyBytes
  sign : List UInt8 → SignatureBytes

/-- What a call gets from the outside: the clock, and what the disk does. -/
structure Io where
  now : UInt64 := 0
  stamp : Stamp := ⟨0, 1⟩
  saveError : String → Option String := fun _ => none

namespace Engine

/-- `Engine::new`. -/
def new (cfg : Config) (vset : ValidatorSet) (height : Height) (prevBlockId : Hash32)
    (appState : KvState) (stakes : StakeLedger) (dsGuard : Option GuardState) : Engine where
  cfg := cfg
  vset := vset
  state := { height := height }
  prevBlockId := prevBlockId
  appState := appState
  stakes := stakes
  baseFeePerGas := cfg.initialBaseFeePerGas
  dsGuard := dsGuard
  stepElapsedMs := 0

variable (E : Env) (S : Signer) (io : Io)

/-- The address that gets the tips. -/
def proposerAddrString (C : Crypto) (pk : PublicKeyBytes) : String :=
  Bytes.hexEncode ((C.blake3 pk).toList.take 20)

/-- What a locked engine prevotes for. -/
def prevoteChoice (engine : Engine) (proposalId : Hash32) : Option Hash32 :=
  match engine.state.lockedValue with
  | some locked => if locked ≠ proposalId then none else some proposalId
  | none => some proposalId

/-- `verify_proposal`; an empty validator set panics. -/
def verifyProposal (C : Crypto) (engine : Engine) (p : Proposal) :
    Option (Except ConsensusError Unit) :=
  if !engine.vset.contains p.proposer then some (.error .unknownValidator)
  else do
    let expected ← engine.vset.proposerFor p.height p.round
    if expected.pk ≠ p.proposer then return .error .unknownValidator
    if p.height ≠ engine.state.height || p.round ≠ engine.state.round then return .error .badStep
    if !C.verify p.proposer p.signBytes p.signature then return .error .badSig
    return .ok ()

/-- The checks of a vote. -/
def verifyVote (C : Crypto) (engine : Engine) (v : Vote) : Except ConsensusError Unit :=
  if !engine.vset.contains v.voter then .error .unknownValidator
  else if v.height ≠ engine.state.height || v.round ≠ engine.state.round then .error .badStep
  else if !C.verify v.voter v.signBytes v.signature then .error .badSig
  else .ok ()

/-- The votes of a round and type. -/
def votesOf (engine : Engine) (round : Round) (vt : VoteType) :
    Option (BTreeMap PublicKeyBytes Vote) := do
  let rt ← engine.state.votes[round]?
  rt[vt]?

/-- The power of one vote added. -/
def addVote (vset : ValidatorSet) (voter : PublicKeyBytes) (blockId : Option Hash32)
    (tally : BTreeMap (Option Hash32) ℕ) : BTreeMap (Option Hash32) ℕ :=
  tally.insert blockId (tally[blockId]?.getD 0 + (vset.powerOf voter).toNat)

/-- The block id with the most power. -/
def tally (engine : Engine) (round : Round) (vt : VoteType) : Option (Option Hash32 × ℕ) := do
  let votes ← engine.votesOf round vt
  E.tally.best <| votes.foldl (fun t voter vote => addVote engine.vset voter vote.blockId t) ∅

/-- The votes for one block id. -/
def collectVotes (engine : Engine) (round : Round) (vt : VoteType) (target : Option Hash32) :
    List Vote :=
  match engine.votesOf round vt with
  | none => []
  | some votes => (votes.toList.map Prod.snd).filter fun vote => vote.blockId = target

/-! ### Effects -/

/-- An effect. -/
def emit (effect : Effect) : Prog Node Unit :=
  .modify fun n => { n with trace := effect :: n.trace }

/-- A block stored. -/
def put (block : Block) : Prog Node Unit :=
  .modify fun n => { n with store := n.store.insert (block.id E.crypto) block }

/-- A step entered. -/
def enter (step : Step) : Prog Node Unit :=
  .modify fun n => { n with state.step := step, stepElapsedMs := 0 }

/-- The guard's file written. -/
def persist (st : GuardState) : Prog Node Unit :=
  .modify fun n => { n with dsGuard := some st, trace := .persist st :: n.trace }

/-- The guard asked before a proposal. -/
def guardProposal (blockId : Hash32) : Prog Node Bool := do
  let n ← .get
  match n.dsGuard with
  | none => pure true
  | some g =>
    match g.checkProposal n.state.height n.state.round blockId with
    | .error _ => pure false
    | .ok () =>
      match g.recordProposal E.crypto E.guardFormat io.now
          (io.saveError (proposalGuardKey n.state.height n.state.round))
          n.state.height n.state.round blockId with
      | .error _ => pure false
      | .ok st => do
        persist st
        pure true

/-- The guard asked before a vote. -/
def guardVote (vt : VoteType) (blockId : Option Hash32) : Prog Node Bool := do
  let n ← .get
  match n.dsGuard with
  | none => pure true
  | some g =>
    match g.checkVote vt n.state.height n.state.round blockId with
    | .error _ => pure false
    | .ok () =>
      match g.recordVote E.crypto E.guardFormat io.now
          (io.saveError (voteGuardKey vt n.state.height n.state.round))
          vt n.state.height n.state.round blockId with
      | .error _ => pure false
      | .ok st => do
        persist st
        pure true

/-- A vote signed and sent. -/
def sendVote (vt : VoteType) (blockId : Option Hash32) : Prog Node Unit := do
  let n ← .get
  let sig := S.sign (voteSignBytes vt n.state.height n.state.round blockId)
  emit (.broadcast (.vote
    { voteType := vt, height := n.state.height, round := n.state.round, voter := S.publicKey
      blockId := blockId, signature := sig }))

/-- `broadcast_vote`. -/
def broadcastVote (vt : VoteType) (blockId : Option Hash32) : Prog Node Unit := do
  let n ← .get
  if n.state.decided.isSome then pure ()
  else do
    let signable ← guardVote E io vt blockId
    if signable then sendVote S vt blockId else pure ()

/-- A proposal signed and sent. -/
def sendProposal (block : Block) : Prog Node Unit := do
  let n ← .get
  let bid := block.id E.crypto
  let sig := S.sign (proposalSignBytes n.state.height n.state.round bid n.state.validRound)
  put E block
  let prop : Proposal :=
    { height := n.state.height, round := n.state.round, proposer := S.publicKey, blockId := bid
      block := if n.cfg.includeBlockInProposal then some block else none
      polRound := n.state.validRound, signature := sig }
  .modify fun n => { n with state.proposal := some prop, state.proposalBlock := some block }
  emit (.broadcast (.proposal prop))

/-- `maybe_propose`. -/
def maybePropose (drain : ℕ → List Tx) : Prog Node Unit := do
  let n ← .get
  if n.state.proposal.isSome then pure ()
  else do
    let proposer ← .ofOption (n.vset.proposerFor n.state.height n.state.round)
    if proposer.pk ≠ S.publicKey then pure ()
    else do
      let built ← .ofOption (buildBlock E.crypto E.handlers io.stamp n.state.height n.state.round
        n.prevBlockId S.publicKey (proposerAddrString E.crypto S.publicKey) n.appState
        n.baseFeePerGas (drain n.cfg.maxTxsPerBlock) E.maxGas E.execution n.cache)
      .modify fun n => { n with cache := built.2 }
      let block := built.1.1
      let signable ← guardProposal E io (block.id E.crypto)
      if signable then sendProposal E S block else pure ()

/-- `advance_round`. -/
def advanceRound : Prog Node Unit := do
  let n ← .get
  if n.state.round.toNat + 1 = UInt32.size then .abort
  else if n.state.round + 1 ≥ n.cfg.maxRounds then pure ()
  else do
    .modify fun n => { n with
      state.round := n.state.round + 1, state.proposal := none, state.proposalBlock := none
      state.step := .propose, stepElapsedMs := 0 }
    maybePropose E S io fun _ => []

/-- `tick`. -/
def tick (dt : UInt64) (drain : ℕ → List Tx) : Prog Node Unit := do
  let n ← .get
  if n.state.decided.isSome then pure ()
  else do
    .modify fun n => { n with stepElapsedMs := Machine.satAdd n.stepElapsedMs dt }
    let n ← .get
    match n.state.step with
    | .propose => do
      let firstTick := n.stepElapsedMs = dt
      (if firstTick ∧ n.state.proposal.isNone then maybePropose E S io drain else pure ())
      let n ← .get
      let hasValidProposal :=
        n.cfg.fastQuorum && n.state.proposal.isSome && n.state.proposalBlock.isSome
      if hasValidProposal || n.stepElapsedMs ≥ n.cfg.proposeTimeoutMs then do
        enter .prevote
        -- the lock is not consulted here
        broadcastVote E S io .prevote
          (if hasValidProposal then n.state.proposal.map Proposal.blockId else none)
      else pure ()
    | .prevote =>
      if n.stepElapsedMs ≥ n.cfg.prevoteTimeoutMs then advanceRound E S io else pure ()
    | .precommit =>
      if n.stepElapsedMs ≥ n.cfg.precommitTimeoutMs then advanceRound E S io else pure ()
    | .commit => pure ()

/-- What follows once a proposal is accepted. -/
def acceptProposal (p : Proposal) : Prog Node Unit := do
  (match p.block with
    | some b => put E b
    | none => pure ())
  let n ← .get
  match n.store[p.blockId]? with
  | none => do
    emit (.requestBlock p.blockId)
    enter .prevote
    broadcastVote E S io .prevote none
    .modify fun n => { n with state.proposal := some p, state.proposalBlock := none }
  | some block => do
    let (verified, cache) ← .ofOption (verifyBlockWithVset E.crypto E.handlers n.appState block
      (proposerAddrString E.crypto p.proposer) p.proposer E.maxGas E.execution n.cache)
    .modify fun n => { n with cache := cache }
    if verified.isNone then do
      enter .prevote
      broadcastVote E S io .prevote none
    else do
      .modify fun n => { n with state.proposal := some p, state.proposalBlock := some block }
      enter .prevote
      let n ← .get
      broadcastVote E S io .prevote (n.toEngine.prevoteChoice p.blockId)

/-- `on_proposal`. -/
def onProposal (p : Proposal) : Prog Node (Except ConsensusError Unit) := do
  let n ← .get
  if n.state.decided.isSome then pure (.ok ())
  else do
    let checked ← .ofOption (n.toEngine.verifyProposal E.crypto p)
    match checked with
    | .error e => pure (.error e)
    | .ok () => do
      acceptProposal E S io p
      pure (.ok ())

/-- Evidence put to the ledger. -/
def applyEvidence (ev : Evidence) : Prog Node Unit := do
  let n ← .get
  let res ← .ofOption (n.stakes.applyEvidence ev n.state.height)
  .modify fun n => { n with stakes := res.2 }

/-- Where a vote is looked up for evidence. -/
def indexKey (v : Vote) : PublicKeyBytes × Height × Round × VoteType :=
  (v.voter, v.height, v.round, v.voteType)

/-- `record_vote_and_detect_evidence`. -/
def recordVoteAndDetectEvidence (v : Vote) : Prog Node (Option Evidence) := do
  let n ← .get
  match n.state.voteIndex[indexKey v]? with
  | some (prevBid, prevVote) =>
    if prevBid ≠ v.blockId then
      pure (some (.doubleVote v.voter v.height v.round v.voteType prevBid v.blockId prevVote v))
    else pure none
  | none => do
    .modify fun n => { n with
      state.voteIndex := n.state.voteIndex.insert (indexKey v) (v.blockId, v) }
    pure none

/-- A vote filed. -/
def storeVote (votes : Votes) (v : Vote) : Votes :=
  let rt := votes[v.round]?.getD ∅
  let vt := rt[v.voteType]?.getD ∅
  votes.insert v.round (rt.insert v.voteType (vt.insert v.voter v))

/-- The lock and the precommit. -/
def onPrevoteQuorum (bid : Option Hash32) : Prog Node Unit :=
  match bid with
  | some id => do
    .modify fun n => { n with
      state.validRound := some n.state.round, state.validValue := some id
      state.lockedRound := some n.state.round, state.lockedValue := some id
      state.step := .precommit, stepElapsedMs := 0 }
    broadcastVote E S io .precommit (some id)
  | none => advanceRound E S io

/-- The certificate of a decision. -/
def certificate (engine : Engine) (id : Hash32) (round : Round) : CommitCertificate where
  height := engine.state.height
  blockId := id
  precommits := engine.collectVotes round .precommit (some id)

/-- The block executed and decided. -/
def onPrecommitQuorum (bid : Option Hash32) (round : Round) :
    Prog Node (Except ConsensusError Unit) :=
  match bid with
  | none => do
    advanceRound E S io
    pure (.ok ())
  | some id => do
    let n ← .get
    match n.store[id]? with
    | none => do
      emit (.requestBlock id)
      pure (.ok ())
    | some block => do
      let expected ← .ofOption (n.vset.proposerFor n.state.height round)
      let (verified, cache) ← .ofOption (verifyBlockWithVset E.crypto E.handlers n.appState block
        (proposerAddrString E.crypto block.header.proposerPk) expected.pk E.maxGas E.execution
        n.cache)
      .modify fun n => { n with cache := cache }
      match verified with
      | none => pure (.error .exec)
      | some (newState, receipts) => do
        let cert := n.toEngine.certificate id round
        .modify fun n => { n with
          state.decided := some cert, state.step := .commit, stepElapsedMs := 0
          appState := newState, prevBlockId := id }
        let newBase ← .ofOption
          (nextBaseFee n.baseFeePerGas block.header.gasUsed n.cfg.gasTarget)
        .modify fun n => { n with baseFeePerGas := newBase }
        emit (.onCommit cert block newState newBase receipts)
        pure (.ok ())

/-- The step in which votes of a type are counted. -/
def countingStep : VoteType → Step
  | .prevote => .prevote
  | .precommit => .precommit

/-- A quorum looked for. -/
def countVotes (v : Vote) : Prog Node (Except ConsensusError Unit) := do
  let n ← .get
  if n.state.step ≠ countingStep v.voteType then pure (.ok ())
  else match n.toEngine.tally E v.round v.voteType with
    | none => pure (.ok ())
    | some (bid, pow) => do
      let threshold ← .ofOption (quorumThreshold n.vset.totalPower)
      if pow < threshold.toNat then pure (.ok ())
      else match v.voteType with
        | .prevote => do
          onPrevoteQuorum E S io bid
          pure (.ok ())
        | .precommit => onPrecommitQuorum E S io bid v.round

/-- `on_vote`. -/
def onVote (v : Vote) : Prog Node (Except ConsensusError Unit) := do
  let n ← .get
  if n.state.decided.isSome then pure (.ok ())
  else match n.toEngine.verifyVote E.crypto v with
    | .error e => pure (.error e)
    | .ok () => do
      let evidence ← recordVoteAndDetectEvidence v
      (match evidence with
        | some ev => do
          applyEvidence ev
          emit (.broadcast (.evidence ev))
        | none => pure ())
      .modify fun n => { n with state.votes := storeVote n.state.votes v }
      countVotes E S io v

/-- `on_message`. -/
def onMessage : ConsensusMsg → Prog Node (Except ConsensusError Unit)
  | .proposal p => onProposal E S io p
  | .vote v => onVote E S io v
  | .evidence ev => do
    applyEvidence ev
    pure (.ok ())

/-- `on_block_received`. -/
def onBlockReceived (block : Block) : Prog Node (Except ConsensusError Unit) := do
  put E block
  let n ← .get
  match n.state.proposal with
  | none => pure (.ok ())
  | some prop =>
    if prop.blockId = block.id E.crypto ∧ n.state.proposalBlock.isNone then do
      .modify fun n => { n with state.proposalBlock := some block }
      (if n.state.step = .prevote then
        broadcastVote E S io .prevote (n.toEngine.prevoteChoice prop.blockId) else pure ())
      pure (.ok ())
    else pure (.ok ())

/-- `next_height`. -/
def nextHeight : Prog Node (Except ConsensusError Unit) := do
  let n ← .get
  if n.state.decided.isNone then pure (.error .alreadyDecided)
  else if n.state.height.toNat + 1 = UInt64.size then .abort
  else do
    .modify fun n => { n with state := { height := n.state.height + 1 }, stepElapsedMs := 0 }
    maybePropose E S io fun _ => []
    pure (.ok ())

end Engine

/-- What can happen to an engine. -/
inductive Event where
  | tick (dt : UInt64) (drain : ℕ → List Tx)
  | message (msg : ConsensusMsg)
  | block (block : Block)
  | nextHeight

/-- What the engine does then. -/
def Event.prog (E : Env) (S : Signer) (io : Io) : Event → Prog Node (Except ConsensusError Unit)
  | tick dt drain => do
    Engine.tick E S io dt drain
    pure (.ok ())
  | message msg => Engine.onMessage E S io msg
  | block b => Engine.onBlockReceived E S io b
  | nextHeight => Engine.nextHeight E S io

end Iona
