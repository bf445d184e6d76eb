import Iona.Consensus.ValidatorSet
import Iona.Lib.Text
import Iona.Lib.Trace
import Iona.Slashing

/-!
# Governance

`GovernanceManager` of `governance.rs`. The calls are modelled by what they do to the state; the
mutex around it is added in `Governance.Locking`, the cache of proposals in `Governance.ProposalCache`.

## Main definitions

* `GovernanceManager.submit`, `vote`, `applyReady`: the calls.
* `Powers.apply`: what an action does to the ledger and the validator set.
-/

namespace Iona.Governance

/-- What a proposal asks for. -/
inductive GovAction where
  | addValidator (pkHex : String) (stake : UInt64)
  | removeValidator (pkHex : String)
  | unjail (pkHex : String)
  | setParam (key value : String)
  deriving DecidableEq

/-- The errors of the calls. -/
inductive GovError where
  | invalidPubKeyHex (pkHex : String)
  | zeroStake
  | proposalNotFound (id : UInt64)
  | invalidVoteValue
  | insufficientDeposit (required provided : UInt64)
  | proposalExpired (current expiry : UInt64)
  | parseError (msg : String)
  | tooManyProposals (max : ℕ)
  deriving DecidableEq

/-- The configuration. -/
structure GovernanceConfig where
  minDeposit : UInt64 := 1000000
  quorumNumerator : UInt64 := 2
  quorumDenominator : UInt64 := 3

/-- A proposal with its votes. -/
structure GovProposal where
  id : UInt64
  action : GovAction
  proposer : String
  height : Height
  votes : BTreeMap String Bool
  deposit : UInt64

/-- The state behind the mutex. -/
structure GovernanceState where
  pending : BTreeMap UInt64 GovProposal := ∅
  nextId : UInt64 := 0
  params : BTreeMap String String := ∅
  minDeposit : UInt64 := 1000000
  proposalTtl : UInt64 := 50000

/-- The state and the configuration, with the count of the block. -/
structure GovernanceManager extends GovernanceState where
  config : GovernanceConfig := {}
  proposalsThisBlock : ℕ := 0

/-- `MAX_PROPOSALS_PER_BLOCK`. -/
def maxProposalsPerBlock : ℕ := 10

/-- `MAX_DEPOSIT`. -/
def maxDeposit : UInt64 := 10000000000

/-- A public key of 32 bytes. -/
def decodeKey (pkHex : String) : Option PublicKeyBytes :=
  (Bytes.hexDecode pkHex).filter fun bytes => bytes.length = 32

/-! ### Proposals -/

namespace GovProposal

/-- A proposal, which its proposer votes for. -/
def new (id : UInt64) (action : GovAction) (proposer : String) (height : Height)
    (deposit : UInt64) : GovProposal where
  id := id
  action := action
  proposer := proposer
  height := height
  votes := (∅ : BTreeMap String Bool).insert proposer true
  deposit := deposit

/-- The vote of a voter, which replaces an earlier one. -/
def vote (p : GovProposal) (voter : String) (yes : Bool) : Except GovError GovProposal :=
  if voter.isEmpty then .error .invalidVoteValue
  else .ok { p with votes := p.votes.insert voter yes }

/-- The proposal is within its time. -/
def isActive (p : GovProposal) (currentHeight : Height) (ttl : UInt64) : Bool :=
  Machine.satSub currentHeight p.height < ttl

variable (C : Crypto)

/-- `address_of`. -/
def addressOf (pk : PublicKeyBytes) : String :=
  Bytes.hexEncode ((C.blake3 pk).toList.take 20)

/-- The first validator with an address. -/
def voterOf (stakes : StakeLedger) (addr : String) : Option (PublicKeyBytes × ValidatorRecord) :=
  stakes.validators.toList.find? fun e => addressOf C e.1 = addr

/-- The stake of all who voted yes, jailed or not. -/
def yesPower (p : GovProposal) (stakes : StakeLedger) : Option UInt64 :=
  Machine.checked
    (((p.votes.toList.filter fun v => v.2).filterMap fun v => voterOf C stakes v.1).map
      fun e => e.2.stake.toNat).sum

/-- `has_quorum`, with products that saturate. -/
def hasQuorum (p : GovProposal) (stakes : StakeLedger) (config : GovernanceConfig) :
    Option Bool := do
  let yes ← p.yesPower C stakes
  let total ← stakes.totalPower
  return total ≠ 0 ∧
    Machine.satMul yes config.quorumDenominator > Machine.satMul total config.quorumNumerator

end GovProposal

/-! ### Actions -/

/-- The ledger and the validator set. -/
structure Powers where
  stakes : StakeLedger
  vset : ValidatorSet

namespace Powers

/-- The stake is added; the power of a member is left as it is. -/
def addValidator (w : Powers) (pk : PublicKeyBytes) (stake : UInt64) : Option Powers :=
  let record := (w.stakes.validators[pk]?).getD { stake := 0 }
  (Machine.checked (record.stake.toNat + stake.toNat)).map fun total =>
    { stakes := { w.stakes with
        validators := w.stakes.validators.insert pk { record with stake := total } }
      vset :=
        if w.vset.vals.any fun v => v.pk = pk then w.vset
        else { vals := w.vset.vals ++ [{ pk := pk, power := stake }] } }

/-- The key is removed from both. -/
def removeValidator (w : Powers) (pk : PublicKeyBytes) : Powers where
  stakes := { w.stakes with validators := w.stakes.validators.erase pk }
  vset := { vals := w.vset.vals.filter fun v => v.pk ≠ pk }

/-- `apply_action_internal`, without the parameters. -/
def apply (w : Powers) (currentHeight : Height) : GovAction → Option Powers
  | .addValidator pkHex stake => match decodeKey pkHex with
    | none => some w
    | some pk => w.addValidator pk stake
  | .removeValidator pkHex => match decodeKey pkHex with
    | none => some w
    | some pk => some (w.removeValidator pk)
  | .unjail pkHex => match decodeKey pkHex with
    | none => some w
    | some pk => (w.stakes.unjail pk currentHeight).map fun r => { w with stakes := r.2 }
  | .setParam _ _ => some w

end Powers

/-- `apply_action_internal` for a parameter. -/
def GovernanceState.applyParam (s : GovernanceState) : GovAction → GovernanceState
  | .setParam key value =>
    let s := { s with params := s.params.insert key value }
    match Text.parseUnsigned Machine.u64Max value with
    | none => s
    | some v =>
      if key = "min_deposit" then { s with minDeposit := .ofNat v }
      else if key = "proposal_ttl" then { s with proposalTtl := .ofNat v }
      else s
  | _ => s

/-! ### The calls -/

/-- What `apply_ready` leaves and returns. -/
structure Outcome where
  manager : GovernanceManager
  powers : Powers
  applied : List GovAction

namespace GovernanceManager

/-- `validate_action`. -/
def validateAction : GovAction → Except GovError Unit
  | .addValidator pkHex stake =>
    if stake = 0 then .error .zeroStake
    else if (decodeKey pkHex).isNone then .error (.invalidPubKeyHex pkHex)
    else .ok ()
  | .removeValidator pkHex | .unjail pkHex =>
    if (decodeKey pkHex).isNone then .error (.invalidPubKeyHex pkHex) else .ok ()
  | .setParam _ _ => .ok ()

/-- `submit`. -/
def submit (m : GovernanceManager) (action : GovAction) (proposer : String) (height : Height)
    (deposit : UInt64) : Except GovError UInt64 × GovernanceManager :=
  if m.proposalsThisBlock ≥ maxProposalsPerBlock then
    (.error (.tooManyProposals maxProposalsPerBlock), m)
  else if deposit < m.config.minDeposit ∨ deposit > maxDeposit then
    (.error (.insufficientDeposit m.config.minDeposit deposit), m)
  else match validateAction action with
    | .error e => (.error e, m)
    | .ok () => match Machine.checked (m.nextId.toNat + 1) with
      | none => (.error (.parseError "ID overflow"), m)
      | some next => (.ok m.nextId,
        { m with
          nextId := next
          pending := m.pending.insert m.nextId (.new m.nextId action proposer height deposit)
          proposalsThisBlock := m.proposalsThisBlock + 1 })

def vote (m : GovernanceManager) (id : UInt64) (voter : String) (yes : Bool) (height : Height) :
    Except GovError Unit × GovernanceManager :=
  match m.pending[id]? with
  | none => (.error (.proposalNotFound id), m)
  | some p =>
    if p.isActive height m.proposalTtl = false then
      (.error (.proposalExpired height (p.height + m.proposalTtl)), m)
    else match p.vote voter yes with
      | .error e => (.error e, m)
      | .ok p => (.ok (), { m with pending := m.pending.insert id p })

/-- A proposal taken out and put to effect. -/
def pass (m : GovernanceManager) (id : UInt64) (action : GovAction) : GovernanceManager :=
  { m with
    toGovernanceState := { m.toGovernanceState.applyParam action with
      pending := m.pending.erase id } }

/-- One proposal applied. -/
def applyOne (currentHeight : Height) (o : Outcome) (id : UInt64) : Option Outcome :=
  match o.manager.pending[id]? with
  | none => some o
  | some p => (o.powers.apply currentHeight p.action).map fun powers =>
    { manager := o.manager.pass id p.action, powers, applied := o.applied ++ [p.action] }

/-- The proposals past their time removed. -/
def expire (m : GovernanceManager) (currentHeight : Height) : GovernanceManager :=
  let expired := (m.pending.toList.filter fun e =>
    !e.2.isActive currentHeight m.proposalTtl).map Prod.fst
  { m with pending := expired.foldl (fun pending id => pending.erase id) m.pending }

variable (C : Crypto)

/-- The proposals with a quorum. -/
def toApply (m : GovernanceManager) (stakes : StakeLedger) (currentHeight : Height) :
    List (UInt64 × GovProposal) → Option (List UInt64)
  | [] => some []
  | (id, p) :: rest =>
    if p.isActive currentHeight m.proposalTtl then do
      let quorum ← p.hasQuorum C stakes m.config
      let ids ← toApply m stakes currentHeight rest
      return if quorum then id :: ids else ids
    else toApply m stakes currentHeight rest

/-- `apply_ready`; none if a sum overflows. -/
def applyReady (m : GovernanceManager) (w : Powers) (currentHeight : Height) : Option Outcome := do
  let ids ← m.toApply C w.stakes currentHeight m.pending.toList
  ids.foldlM (applyOne currentHeight)
    { manager := m.expire currentHeight, powers := w, applied := [] }

end GovernanceManager

end Iona.Governance
