import Iona.Lib.MapSum
import Iona.Lib.Trace
import Iona.Slashing

/-!
# Accounts and refusals of the slashing ledger

From `slashing.rs`.
-/

namespace Iona

open Machine

inductive PenaltyOp where
  | applyEvidence (evidence : Evidence) (currentHeight : Height)
  | slashDowntime (pk : PublicKeyBytes) (currentHeight : Height)
  | unjail (pk : PublicKeyBytes) (currentHeight : Height)

def StakeLedger.perform (ledger : StakeLedger) :
    PenaltyOp → Option (Except SlashingError Unit × StakeLedger)
  | .applyEvidence evidence currentHeight => ledger.applyEvidence evidence currentHeight
  | .slashDowntime pk currentHeight => ledger.slashDowntime pk currentHeight
  | .unjail pk currentHeight => ledger.unjail pk currentHeight

def StakeLedger.penaltyStep (ledger : StakeLedger) (op : PenaltyOp) : Option StakeLedger :=
  (ledger.perform op).map Prod.snd

/-! ### What a call does -/

structure Penalty where
  offender : PublicKeyBytes
  record : ValidatorRecord
  fraction : UInt64

namespace Penalty

def amount (p : Penalty) : UInt64 := max (p.record.stake / p.fraction) 1

def Fits (p : Penalty) : Prop :=
  p.record.stake ≠ 0 ∧ p.record.slashedTotal.toNat + p.amount.toNat ≤ u64Max ∨
    p.record.stake = 0 ∧ p.record.slashedTotal.toNat = u64Max

instance (p : Penalty) : Decidable p.Fits := inferInstanceAs (Decidable (_ ∨ _))

end Penalty

def ValidatorRecord.Dated (record : ValidatorRecord) : Prop :=
  match record.status with
  | .active => record.jailedAt = none
  | .jailed sinceHeight _ => record.jailedAt = some sinceHeight
  | .tombstoned => True

namespace PenaltyOp

abbrev key (evidence : Evidence) : Height × PublicKeyBytes := (evidence.height, evidence.offender)

def penalty (ledger : StakeLedger) : PenaltyOp → Option Penalty
  | applyEvidence evidence _ =>
    if key evidence ∈ ledger.processedEvidence then none
    else ledger.validators[evidence.offender]?.map fun record =>
      ⟨evidence.offender, record, ledger.config.slashFractionDoubleVote⟩
  | slashDowntime pk _ =>
    (ledger.validators[pk]?.filter fun record => record.status = .active).map fun record =>
      ⟨pk, record, ledger.config.slashFractionDowntime⟩
  | unjail _ _ => none

def Orphan (ledger : StakeLedger) : PenaltyOp → Prop
  | applyEvidence evidence _ =>
    key evidence ∉ ledger.processedEvidence ∧ evidence.offender ∉ ledger.validators
  | _ => False

inductive Effect (ledger : StakeLedger) (op : PenaltyOp) :
    Except SlashingError Unit → StakeLedger → Prop
  | refuse (e : SlashingError) (hknown : ¬ op.Orphan ledger) (hnone : op.penalty ledger = none) :
      Effect ledger op (.error e) ledger
  | mark {key : Height × PublicKeyBytes} (horphan : op.Orphan ledger)
      (hfresh : key ∉ ledger.processedEvidence) (hnone : op.penalty ledger = none) :
      Effect ledger op (.error .unknownValidator)
        { ledger with processedEvidence := ledger.processedEvidence.insert key }
  | slash {p : Penalty} {record : ValidatorRecord}
      {processed : Std.ExtTreeSet (Height × PublicKeyBytes) compare}
      (hp : op.penalty ledger = some p) (hrecord : ledger.validators[p.offender]? = some p.record)
      (hfraction : p.fraction ≠ 0) (hstake : record.stake = satSub p.record.stake p.amount)
      (htotal : record.slashedTotal = satAdd p.record.slashedTotal p.amount)
      (hdated : record.Dated) :
      Effect ledger op (.ok ()) { ledger with
        validators := ledger.validators.insert p.offender record, processedEvidence := processed }
  | release {pk : PublicKeyBytes} {record : ValidatorRecord}
      (hrecord : ledger.validators[pk]? = some record) (hnone : op.penalty ledger = none) :
      Effect ledger op (.ok ()) { ledger with
        validators :=
          ledger.validators.insert pk { record with status := .active, jailedAt := none } }

end PenaltyOp

namespace ValidatorRecord

lemma slash_stake (record : ValidatorRecord) (amount : UInt64) (h : Height) :
    (record.slash amount h).stake = satSub record.stake amount := by
  unfold slash
  dsimp only
  split
  · split <;> rfl
  · rfl

lemma slash_slashedTotal (record : ValidatorRecord) (amount : UInt64) (h : Height) :
    (record.slash amount h).slashedTotal = satAdd record.slashedTotal amount := by
  unfold slash
  dsimp only
  split
  · split <;> rfl
  · rfl

lemma slash_dated (record : ValidatorRecord) (amount : UInt64) (h : Height) :
    (record.slash amount h).Dated := by
  unfold slash
  dsimp only
  split
  · split
    · trivial
    · exact rfl
  · exact rfl

end ValidatorRecord

namespace StakeLedger

variable {ledger ledger' : StakeLedger} {h : Height} {res : Except SlashingError Unit}

variable {pk : PublicKeyBytes}

lemma applyEvidence_effect {evidence : Evidence}
    (happ : ledger.applyEvidence evidence h = some (res, ledger')) :
    (PenaltyOp.applyEvidence evidence h).Effect ledger res ledger' := by
  rcases applyEvidence_cases happ with
    ⟨hdup, rfl, rfl⟩ | ⟨hfresh, ⟨hunknown, rfl, rfl⟩ | ⟨record, hrecord, hfraction, rfl, rfl⟩⟩
  · exact .refuse _ (fun horphan => horphan.1 hdup) (if_pos hdup)
  · refine .mark ⟨hfresh, ?_⟩ hfresh ?_
    · rw [Std.ExtTreeMap.mem_iff_isSome_getElem?, hunknown]
      exact Bool.false_ne_true
    · rw [PenaltyOp.penalty, if_neg hfresh, hunknown]
      rfl
  · refine .slash (p := ⟨evidence.offender, record, ledger.config.slashFractionDoubleVote⟩) ?_
      hrecord hfraction (ValidatorRecord.slash_stake _ _ _)
      (ValidatorRecord.slash_slashedTotal _ _ _) (ValidatorRecord.slash_dated _ _ _)
    rw [PenaltyOp.penalty, if_neg hfresh, hrecord]
    rfl

lemma slashDowntime_effect (hdown : ledger.slashDowntime pk h = some (res, ledger')) :
    (PenaltyOp.slashDowntime pk h).Effect ledger res ledger' := by
  rcases slashDowntime_cases hdown with
    ⟨e, rfl, rfl, hidle⟩ | ⟨record, hrecord, hactive, hfraction, rfl, rfl⟩
  · refine .refuse _ id ?_
    rw [PenaltyOp.penalty, Option.map_eq_none_iff, Option.filter_eq_none_iff]
    intro record hrecord
    simpa using hidle record hrecord
  · refine .slash (p := ⟨pk, record, ledger.config.slashFractionDowntime⟩) ?_ hrecord hfraction rfl
      rfl rfl
    rw [PenaltyOp.penalty, hrecord, Option.filter_some_pos (by simpa using hactive)]
    rfl

lemma unjail_effect (hun : ledger.unjail pk h = some (res, ledger')) :
    (PenaltyOp.unjail pk h).Effect ledger res ledger' := by
  rcases unjail_cases hun with ⟨e, rfl, rfl⟩ | ⟨record, _, _, hrecord, _, rfl, rfl⟩
  · exact .refuse _ id rfl
  · exact .release hrecord rfl

lemma perform_effect {op : PenaltyOp} (h : ledger.perform op = some (res, ledger')) :
    op.Effect ledger res ledger' := by
  cases op with
  | applyEvidence evidence currentHeight => exact applyEvidence_effect h
  | slashDowntime pk currentHeight => exact slashDowntime_effect h
  | unjail pk currentHeight => exact unjail_effect h

/-! ### The accounts -/

def account (ledger : StakeLedger) (pk : PublicKeyBytes) : Option ℕ :=
  ledger.validators[pk]?.map fun record => record.stake.toNat + record.slashedTotal.toNat

lemma account_insert_iff {record record' : ValidatorRecord}
    (hrecord : ledger.validators[pk]? = some record)
    (hvals : ledger'.validators = ledger.validators.insert pk record') :
    ledger'.account = ledger.account ↔
      record'.stake.toNat + record'.slashedTotal.toNat =
        record.stake.toNat + record.slashedTotal.toNat := by
  constructor
  · intro heq
    have hpk := congrFun heq pk
    rw [account, hvals, Std.ExtTreeMap.getElem?_insert_self, account, hrecord] at hpk
    exact Option.some.inj hpk
  · intro heq
    funext pk'
    rw [account, hvals, MapSum.getElem?_insert_ite]
    split
    · rename_i hpk'
      rw [account, hpk', hrecord, Option.map_some, Option.map_some, heq]
    · rfl

end StakeLedger

lemma Penalty.toNat_amount (p : Penalty) :
    p.amount.toNat = max (p.record.stake.toNat / p.fraction.toNat) 1 := by
  change (if p.record.stake / p.fraction ≤ 1 then 1 else p.record.stake / p.fraction).toNat = _
  simp only [UInt64.le_iff_toNat_le, apply_ite UInt64.toNat, UInt64.toNat_div, UInt64.toNat_one,
    max_def]

lemma Penalty.balanced_iff {p : Penalty} (hfraction : p.fraction ≠ 0) {record : ValidatorRecord}
    (hstake : record.stake = satSub p.record.stake p.amount)
    (htotal : record.slashedTotal = satAdd p.record.slashedTotal p.amount) :
    record.stake.toNat + record.slashedTotal.toNat =
      p.record.stake.toNat + p.record.slashedTotal.toNat ↔ p.Fits := by
  have hpos : 0 < p.fraction.toNat := by
    refine Nat.pos_of_ne_zero fun hzero => hfraction ?_
    exact UInt64.toNat_inj.mp hzero
  have hamount := p.toNat_amount
  have hle : p.record.stake.toNat / p.fraction.toNat ≤ p.record.stake.toNat := Nat.div_le_self _ _
  have hbound := toNat_le p.record.slashedTotal
  have hzero : p.record.stake = 0 ↔ p.record.stake.toNat = 0 := by
    rw [← UInt64.toNat_inj]
    rfl
  rw [hstake, htotal, toNat_satSub, toNat_satAdd, Fits, Ne, hzero]
  omega

def PenaltyOp.Booked (ledger : StakeLedger) (op : PenaltyOp) : Prop :=
  ∀ p ∈ op.penalty ledger, p.Fits

instance (ledger : StakeLedger) (op : PenaltyOp) : Decidable (op.Booked ledger) :=
  inferInstanceAs (Decidable (∀ p ∈ op.penalty ledger, p.Fits))

lemma penaltyStep_account_iff {ledger ledger' : StakeLedger} {op : PenaltyOp}
    (h : ledger.penaltyStep op = some ledger') :
    ledger'.account = ledger.account ↔ op.Booked ledger := by
  obtain ⟨⟨res, _⟩, hres, rfl⟩ := Option.map_eq_some_iff.mp h
  unfold PenaltyOp.Booked
  cases StakeLedger.perform_effect hres with
  | refuse e hknown hnone => simp [hnone]
  | mark horphan hfresh hnone =>
    rw [hnone]
    exact iff_of_true rfl fun p hp => nomatch hp
  | slash hp hrecord hfraction hstake htotal hdated =>
    rw [StakeLedger.account_insert_iff hrecord rfl,
      Penalty.balanced_iff hfraction hstake htotal, hp]
    simp
  | release hrecord hnone =>
    rw [StakeLedger.account_insert_iff hrecord rfl, hnone]
    simp

/-- **Stake and slashed total of every validator add up to the same in all states of a run if and
only if every slash of the run fits.** -/
theorem account_constant_iff (ledger final : StakeLedger) (ops : List PenaltyOp)
    (hrun : Trace.run StakeLedger.penaltyStep ledger ops = some final) :
    (∀ pre post ledger', ops = pre ++ post →
        Trace.run StakeLedger.penaltyStep ledger pre = some ledger' →
        ledger'.account = ledger.account) ↔
      Trace.Along StakeLedger.penaltyStep (fun ledger op => op.Booked ledger) ledger ops :=
  Trace.constant_iff_along (fun _ _ _ hstep => penaltyStep_account_iff hstep) hrun

def votePair (voter : PublicKeyBytes) (height : Height) : Evidence :=
  .doubleVote voter height 0 .prevote none (some (.ofNat 1))
    { voteType := .prevote, height := height, round := 0, voter := voter, blockId := none,
      signature := [] }
    { voteType := .prevote, height := height, round := 0, voter := voter,
      blockId := some (.ofNat 1), signature := [] }

def loneLedger (stake : UInt64) : StakeLedger :=
  { validators := .ofList [([1], { stake := stake })] compare }

def jailTerms : List PenaltyOp :=
  [.applyEvidence (votePair [1] 5) 9, .unjail [1] 1009, .slashDowntime [1] 1300]

theorem account_constant_jailTerms :
    ∃ final, Trace.run StakeLedger.penaltyStep (loneLedger 900) jailTerms = some final ∧
      ∀ pre post ledger', jailTerms = pre ++ post →
        Trace.run StakeLedger.penaltyStep (loneLedger 900) pre = some ledger' →
        ledger'.account = (loneLedger 900).account := by
  have htest : (Trace.run StakeLedger.penaltyStep (loneLedger 900) jailTerms).isSome = true ∧
      Trace.alongTest StakeLedger.penaltyStep (fun ledger op => decide (op.Booked ledger))
        (loneLedger 900) jailTerms = true := by decide +kernel
  obtain ⟨final, hfinal⟩ := Option.isSome_iff_exists.mp htest.1
  refine ⟨final, hfinal, (account_constant_iff _ final _ hfinal).mpr ?_⟩
  exact Trace.along_of_alongTest (fun _ _ hop => of_decide_eq_true hop) htest.2

/-- The last unit is taken by the first slash; the second one books another. -/
theorem account_grows :
    (loneLedger 1).account [1] = some 1 ∧
      (Trace.run StakeLedger.penaltyStep (loneLedger 1)
          [.applyEvidence (votePair [1] 5) 9, .applyEvidence (votePair [1] 6) 9]).map
        (fun ledger => ledger.account [1]) = some (some 2) := by
  decide +kernel

/-! ### Refusals -/

/-- **A call that returns an error leaves the ledger as it was if and only if** it is not new
evidence against a validator that is not there. -/
theorem refused_unchanged_iff (ledger ledger' : StakeLedger) (op : PenaltyOp) (e : SlashingError)
    (h : ledger.perform op = some (.error e, ledger')) : ledger' = ledger ↔ ¬ op.Orphan ledger := by
  cases StakeLedger.perform_effect h with
  | refuse e hknown hnone => exact iff_of_true rfl hknown
  | mark horphan hfresh hnone =>
    refine iff_of_false (fun heq => hfresh ?_) (not_not.mpr horphan)
    have hset := congrArg StakeLedger.processedEvidence heq
    rw [← hset]
    exact Std.ExtTreeSet.mem_insert_self

theorem refused_unchanged_unjail :
    ∃ ledger', (loneLedger 900).perform (.unjail [1] 7) = some (.error .notJailed, ledger') ∧
      ledger' = loneLedger 900 :=
  ⟨loneLedger 900, rfl, (refused_unchanged_iff _ _ (.unjail [1] 7) .notJailed rfl).mpr id⟩

/-- Evidence arrives before its offender is registered. -/
theorem orphan_evidence_lost :
    (({} : StakeLedger).perform (.applyEvidence (votePair [1] 5) 9)).map (fun res =>
        (res.1, decide (((5, [1]) : Height × PublicKeyBytes) ∈ res.2.processedEvidence))) =
      some (.error .unknownValidator, true) ∧
    ((5, [1]) : Height × PublicKeyBytes) ∉ ({} : StakeLedger).processedEvidence ∧
    ((({} : StakeLedger).perform (.applyEvidence (votePair [1] 5) 9)).bind fun res =>
      (res.2.addValidator [1] 100).bind fun ledger =>
        (ledger.perform (.applyEvidence (votePair [1] 5) 10)).map Prod.fst) =
      some (.error .duplicateEvidence) := by
  decide +kernel

end Iona
