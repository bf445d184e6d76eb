import Iona.Consensus.Messages
import Iona.Lib.Machine

/-!
# The slashing ledger

`StakeLedger` of `slashing.rs`.
-/

namespace Iona

open Machine

inductive ValidatorStatus where
  | active
  | jailed (sinceHeight : Height) (slashCount : UInt32)
  | tombstoned
  deriving DecidableEq

structure ValidatorRecord where
  stake : UInt64
  slashedTotal : UInt64 := 0
  status : ValidatorStatus := .active
  jailedAt : Option Height := none
  deriving DecidableEq

inductive SlashingError where
  | unknownValidator
  | tombstoned
  | notJailed
  | unjailDelayNotElapsed (remaining : UInt64)
  | zeroStake
  | duplicateEvidence
  | alreadyJailed
  | config (e : String)
  | io (e : String)
  | serialization (e : String)
  | lockFailed (e : String)
  deriving DecidableEq

structure SlashingConfig where
  unjailDelayBlocks : UInt64 := 1000
  slashFractionDoubleVote : UInt64 := 20
  slashFractionDowntime : UInt64 := 100
  downtimeWindow : UInt64 := 200
  downtimeMinSigned : UInt64 := 100
  minStakeAfterSlash : UInt64 := 1
  enableMetrics : Bool := false
  rateError : Option String := none

instance transOrdOffence : Std.TransOrd (Height × PublicKeyBytes) := inferInstance

structure StakeLedger where
  validators : BTreeMap PublicKeyBytes ValidatorRecord := ∅
  processedEvidence : Std.ExtTreeSet (Height × PublicKeyBytes) compare := ∅
  config : SlashingConfig := {}
  metrics : Bool := false

namespace Evidence

def offender : Evidence → PublicKeyBytes
  | doubleVote voter .. => voter
  | doubleProposal proposer .. => proposer

def height : Evidence → Height
  | doubleVote _ height .. => height
  | doubleProposal _ height .. => height

end Evidence

namespace ValidatorRecord

def slash (record : ValidatorRecord) (amount : UInt64) (currentHeight : Height) : ValidatorRecord :=
  let record := { record with
    stake := satSub record.stake amount
    slashedTotal := satAdd record.slashedTotal amount }
  match record.status with
  | .jailed _ slashCount =>
    if slashCount ≥ 2 then { record with status := .tombstoned }
    else { record with
      status := .jailed currentHeight (slashCount + 1), jailedAt := some currentHeight }
  | _ => { record with status := .jailed currentHeight 1, jailedAt := some currentHeight }

end ValidatorRecord

namespace StakeLedger

def totalPower (ledger : StakeLedger) : Option UInt64 :=
  checked <|
    ((ledger.validators.toList.filter fun e => e.2.status = .active).map fun e =>
      e.2.stake.toNat).sum

def applyEvidence (ledger : StakeLedger) (evidence : Evidence) (currentHeight : Height) :
    Option (Except SlashingError Unit × StakeLedger) :=
  let key := (evidence.height, evidence.offender)
  if key ∈ ledger.processedEvidence then some (.error .duplicateEvidence, ledger)
  else
    let ledger := { ledger with processedEvidence := ledger.processedEvidence.insert key }
    match ledger.validators[evidence.offender]? with
    | none => some (.error .unknownValidator, ledger)
    | some record =>
      if ledger.config.slashFractionDoubleVote = 0 then none
      else
        let amount := max (record.stake / ledger.config.slashFractionDoubleVote) 1
        let ledger := { ledger with
          validators :=
            ledger.validators.insert evidence.offender (record.slash amount currentHeight) }
        if ledger.metrics && ledger.totalPower.isNone then none
        else some (.ok (), ledger)

variable {ledger ledger' : StakeLedger} {evidence : Evidence} {h : Height}
  {res : Except SlashingError Unit}

variable {pk : PublicKeyBytes}

lemma applyEvidence_cases (happ : ledger.applyEvidence evidence h = some (res, ledger')) :
    (evidence.height, evidence.offender) ∈ ledger.processedEvidence ∧
        res = .error .duplicateEvidence ∧ ledger' = ledger ∨
      (evidence.height, evidence.offender) ∉ ledger.processedEvidence ∧
        (ledger.validators[evidence.offender]? = none ∧ res = .error .unknownValidator ∧
            ledger' = { ledger with
              processedEvidence :=
                ledger.processedEvidence.insert (evidence.height, evidence.offender) } ∨
          ∃ record, ledger.validators[evidence.offender]? = some record ∧
            ledger.config.slashFractionDoubleVote ≠ 0 ∧ res = .ok () ∧
            ledger' = { ledger with
              validators := ledger.validators.insert evidence.offender
                (record.slash (max (record.stake / ledger.config.slashFractionDoubleVote) 1) h)
              processedEvidence :=
                ledger.processedEvidence.insert (evidence.height, evidence.offender) }) := by
  unfold applyEvidence at happ
  dsimp only at happ
  split at happ
  · rename_i hdup
    cases happ
    exact .inl ⟨hdup, rfl, rfl⟩
  rename_i hfresh
  refine .inr ⟨hfresh, ?_⟩
  split at happ
  · rename_i hunknown
    cases happ
    exact .inl ⟨hunknown, rfl, rfl⟩
  rename_i record hrecord
  split at happ
  · cases happ
  rename_i hfraction
  split at happ
  · cases happ
  cases happ
  exact .inr ⟨record, hrecord, hfraction, rfl, rfl⟩

lemma applyEvidence_changes (happ : ledger.applyEvidence evidence h = some (res, ledger'))
    (hne : ledger'.validators[pk]? ≠ ledger.validators[pk]?) :
    pk = evidence.offender ∧ pk ∈ ledger.validators ∧
      (evidence.height, evidence.offender) ∉ ledger.processedEvidence := by
  rcases applyEvidence_cases happ with
    ⟨_, _, rfl⟩ | ⟨hfresh, ⟨_, _, rfl⟩ | ⟨record, hrecord, _, _, rfl⟩⟩
  · exact absurd rfl hne
  · exact absurd rfl hne
  · by_cases hpk : evidence.offender = pk
    · refine ⟨hpk.symm, ?_, hfresh⟩
      rw [Std.ExtTreeMap.mem_iff_isSome_getElem?, ← hpk, hrecord]
      rfl
    · refine absurd ?_ hne
      rw [Std.ExtTreeMap.getElem?_insert, if_neg]
      rwa [Std.LawfulEqOrd.compare_eq_iff_eq]

lemma mem_processedEvidence_of_applyEvidence
    (happ : ledger.applyEvidence evidence h = some (res, ledger')) {key : Height × PublicKeyBytes}
    (hkey : key ∈ ledger.processedEvidence) : key ∈ ledger'.processedEvidence := by
  rcases applyEvidence_cases happ with ⟨_, _, rfl⟩ | ⟨_, ⟨_, _, rfl⟩ | ⟨_, _, _, _, rfl⟩⟩
  · exact hkey
  · exact Std.ExtTreeSet.mem_insert.mpr (.inr hkey)
  · exact Std.ExtTreeSet.mem_insert.mpr (.inr hkey)

/-! ### The other operations on the ledger -/

def updateMetrics (ledger : StakeLedger) : Option StakeLedger :=
  if ledger.metrics && ledger.totalPower.isNone then none else some ledger

lemma updateMetrics_eq_some {ledger ledger' : StakeLedger}
    (h : ledger.updateMetrics = some ledger') : ledger' = ledger := by
  unfold updateMetrics at h
  split at h
  · cases h
  · exact (Option.some.inj h).symm

def unjail (ledger : StakeLedger) (pk : PublicKeyBytes) (currentHeight : Height) :
    Option (Except SlashingError Unit × StakeLedger) :=
  match ledger.validators[pk]? with
  | none => some (.error .unknownValidator, ledger)
  | some record => match record.status with
    | .tombstoned => some (.error .tombstoned, ledger)
    | .active => some (.error .notJailed, ledger)
    | .jailed sinceHeight _ => do
      let free ← checked (sinceHeight.toNat + ledger.config.unjailDelayBlocks.toNat)
      if currentHeight < free then
        return (.error (.unjailDelayNotElapsed (satSub free currentHeight)), ledger)
      else if record.stake = 0 then return (.error .zeroStake, ledger)
      else
        let record := { record with status := .active, jailedAt := none }
        let ledger ← updateMetrics { ledger with validators := ledger.validators.insert pk record }
        return (.ok (), ledger)

def slashDowntime (ledger : StakeLedger) (pk : PublicKeyBytes) (currentHeight : Height) :
    Option (Except SlashingError Unit × StakeLedger) :=
  match ledger.validators[pk]? with
  | none => some (.error .unknownValidator, ledger)
  | some record =>
    if record.status ≠ .active then some (.error .alreadyJailed, ledger)
    else if ledger.config.slashFractionDowntime = 0 then none
    else do
      let amount := max (record.stake / ledger.config.slashFractionDowntime) 1
      let record : ValidatorRecord :=
        { stake := satSub record.stake amount
          slashedTotal := satAdd record.slashedTotal amount
          status := .jailed currentHeight 1
          jailedAt := some currentHeight }
      let ledger ← updateMetrics { ledger with validators := ledger.validators.insert pk record }
      return (.ok (), ledger)

lemma unjail_cases (hun : ledger.unjail pk h = some (res, ledger')) :
    (∃ e, res = .error e ∧ ledger' = ledger) ∨
      ∃ record sinceHeight slashCount, ledger.validators[pk]? = some record ∧
        record.status = .jailed sinceHeight slashCount ∧ res = .ok () ∧
        ledger' = { ledger with
          validators :=
            ledger.validators.insert pk { record with status := .active, jailedAt := none } } := by
  unfold unjail at hun
  split at hun
  · cases hun
    exact .inl ⟨_, rfl, rfl⟩
  rename_i record hrecord
  split at hun
  · cases hun
    exact .inl ⟨_, rfl, rfl⟩
  · cases hun
    exact .inl ⟨_, rfl, rfl⟩
  rename_i sinceHeight slashCount hstatus
  obtain ⟨free, _, hun⟩ := Option.bind_eq_some_iff.mp hun
  split at hun
  · cases hun
    exact .inl ⟨_, rfl, rfl⟩
  split at hun
  · cases hun
    exact .inl ⟨_, rfl, rfl⟩
  obtain ⟨ledger₁, hmetrics, hun⟩ := Option.bind_eq_some_iff.mp hun
  cases hun
  exact .inr ⟨record, sinceHeight, slashCount, hrecord, hstatus, rfl,
    updateMetrics_eq_some hmetrics⟩

lemma slashDowntime_cases (hdown : ledger.slashDowntime pk h = some (res, ledger')) :
    (∃ e, res = .error e ∧ ledger' = ledger ∧
        ∀ record, ledger.validators[pk]? = some record → record.status ≠ .active) ∨
      ∃ record, ledger.validators[pk]? = some record ∧ record.status = .active ∧
        ledger.config.slashFractionDowntime ≠ 0 ∧ res = .ok () ∧
        ledger' = { ledger with
          validators := ledger.validators.insert pk
            { stake := satSub record.stake
                (max (record.stake / ledger.config.slashFractionDowntime) 1)
              slashedTotal := satAdd record.slashedTotal
                (max (record.stake / ledger.config.slashFractionDowntime) 1)
              status := .jailed h 1
              jailedAt := some h } } := by
  unfold slashDowntime at hdown
  split at hdown
  · rename_i hunknown
    cases hdown
    refine .inl ⟨_, rfl, rfl, fun record hrecord => ?_⟩
    rw [hunknown] at hrecord
    cases hrecord
  rename_i record hrecord
  split at hdown
  · rename_i hstatus
    cases hdown
    refine .inl ⟨_, rfl, rfl, fun record' hrecord' => ?_⟩
    cases hrecord.symm.trans hrecord'
    exact hstatus
  rename_i hactive
  split at hdown
  · cases hdown
  rename_i hfraction
  obtain ⟨ledger₁, hmetrics, hdown⟩ := Option.bind_eq_some_iff.mp hdown
  cases hdown
  exact .inr ⟨record, hrecord, not_not.mp hactive, hfraction, rfl, updateMetrics_eq_some hmetrics⟩

def addValidator (ledger : StakeLedger) (pk : PublicKeyBytes) (stake : UInt64) :
    Option StakeLedger :=
  updateMetrics { ledger with validators := ledger.validators.insert pk { stake := stake } }

def removeValidator (ledger : StakeLedger) (pk : PublicKeyBytes) : Option StakeLedger :=
  updateMetrics { ledger with validators := ledger.validators.erase pk }

end StakeLedger

end Iona
