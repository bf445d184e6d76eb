import Iona.Execution.State
import Iona.Lib.MapSum

/-!
# The staking ledger

`StakingState` of `economics/staking.rs`.
-/

namespace Iona

open MapSum

def u128Max : ℕ := 2 ^ 128 - 1

def checkedAdd128 (a b : ℕ) : Option ℕ := if a + b ≤ u128Max then some (a + b) else none

lemma checkedAdd128_eq_some {a b c : ℕ} (h : checkedAdd128 a b = some c) : c = a + b := by
  unfold checkedAdd128 at h
  split at h
  · exact (Option.some.inj h).symm
  · cases h

lemma checkedAdd128_le {a b c : ℕ} (h : checkedAdd128 a b = some c) : c ≤ u128Max := by
  unfold checkedAdd128 at h
  split at h
  · rename_i hle
    exact (Option.some.inj h) ▸ hle
  · cases h

def maxBps : UInt64 := 10000

structure EconValidator where
  operator : String
  selfStake : ℕ
  totalStake : ℕ
  jailed : Bool := false
  commissionBps : UInt64
  deriving DecidableEq

structure UnbondingEntry where
  id : UInt64
  amount : ℕ
  unlockEpoch : UInt64
  deriving DecidableEq

structure Delegation where
  amount : ℕ := 0
  unbondings : List UnbondingEntry := []
  deriving DecidableEq

structure StakingState where
  validators : BTreeMap String EconValidator := ∅
  delegations : BTreeMap (String × String) Delegation := ∅
  nextUnbondingId : UInt64 := 0
  deriving DecidableEq

inductive StakingError where
  | validatorNotFound (validator : String)
  | delegationNotFound (delegator validator : String)
  | insufficientBalance (have_ need : ℕ)
  | zeroAmount
  | undelegateExceedsDelegation (requested bonded : ℕ)
  | validatorJailed (validator : String)
  | invalidCommission (bps : UInt64)
  | invalidSlashRate (bps : UInt64)
  | overflow (op : String)
  deriving DecidableEq

def EconValidator.new (operator : String) (selfStake : ℕ) (commissionBps : UInt64) :
    Except StakingError EconValidator :=
  if commissionBps > maxBps then .error (.invalidCommission commissionBps)
  else .ok { operator := operator, selfStake := selfStake, totalStake := selfStake,
             commissionBps := commissionBps }

namespace StakingState

def delegate (s : StakingState) (delegator validator : String) (amount balance : ℕ) :
    Except StakingError StakingState :=
  if amount = 0 then .error .zeroAmount
  else if balance < amount then .error (.insufficientBalance balance amount)
  else match s.validators[validator]? with
    | none => .error (.validatorNotFound validator)
    | some v =>
      if v.jailed then .error (.validatorJailed validator)
      else match checkedAdd128 v.totalStake amount with
        | none => .error (.overflow "delegate.total_stake")
        | some newTotal =>
          let d := s.delegations.getD (delegator, validator) {}
          match checkedAdd128 d.amount amount with
          | none => .error (.overflow "delegate.delegation")
          | some newAmount => .ok
            { s with
              validators := s.validators.insert validator { v with totalStake := newTotal }
              delegations :=
                s.delegations.insert (delegator, validator) { d with amount := newAmount } }

def undelegate (s : StakingState) (delegator validator : String) (amount : ℕ)
    (currentEpoch unbondingEpochs : UInt64) : Except StakingError UInt64 × StakingState :=
  if amount = 0 then (.error .zeroAmount, s)
  else match s.validators[validator]? with
    | none => (.error (.validatorNotFound validator), s)
    | some v => match s.delegations[(delegator, validator)]? with
      | none => (.error (.delegationNotFound delegator validator), s)
      | some d =>
        if d.amount < amount then (.error (.undelegateExceedsDelegation amount d.amount), s)
        else match Machine.checked (s.nextUnbondingId.toNat + 1) with
          | none => (.error (.overflow "undelegate.id"), s)
          | some nextId =>
            let entryId := s.nextUnbondingId
            let unlockEpoch := Machine.satAdd currentEpoch unbondingEpochs
            let s := { s with
              nextUnbondingId := nextId
              delegations := s.delegations.insert (delegator, validator)
                { amount := d.amount - amount
                  unbondings := d.unbondings ++ [⟨entryId, amount, unlockEpoch⟩] } }
            if v.totalStake < amount then (.error (.overflow "undelegate.total_stake"), s)
            else (.ok entryId,
              { s with validators :=
                  s.validators.insert validator { v with totalStake := v.totalStake - amount } })

def drainUnlocked (currentEpoch : UInt64) : ℕ → List UnbondingEntry → Option (ℕ × List UnbondingEntry)
  | withdrawn, [] => some (withdrawn, [])
  | withdrawn, entry :: entries =>
    if entry.unlockEpoch ≤ currentEpoch then do
      let withdrawn ← checkedAdd128 withdrawn entry.amount
      drainUnlocked currentEpoch withdrawn entries
    else do
      let (withdrawn, retained) ← drainUnlocked currentEpoch withdrawn entries
      return (withdrawn, entry :: retained)

def withdraw (s : StakingState) (delegator validator : String) (currentEpoch : UInt64) :
    Except StakingError ℕ × StakingState :=
  match s.delegations[(delegator, validator)]? with
  | none => (.error (.delegationNotFound delegator validator), s)
  | some d => match drainUnlocked currentEpoch 0 d.unbondings with
    | none =>
      (.error (.overflow "withdraw.sum"),
        { s with delegations :=
            s.delegations.insert (delegator, validator) { d with unbondings := [] } })
    | some (withdrawn, retained) =>
      if d.amount = 0 ∧ retained = [] then
        (.ok withdrawn, { s with delegations := s.delegations.erase (delegator, validator) })
      else
        (.ok withdrawn,
          { s with delegations :=
              s.delegations.insert (delegator, validator) { d with unbondings := retained } })

end StakingState

/-! ### What the ledger holds -/

def pending (entries : List UnbondingEntry) : ℕ := (entries.map UnbondingEntry.amount).sum

@[simp] lemma pending_nil : pending [] = 0 := rfl

@[simp] lemma pending_cons (e : UnbondingEntry) (es : List UnbondingEntry) :
    pending (e :: es) = e.amount + pending es := by
  simp [pending]

@[simp] lemma pending_append (es fs : List UnbondingEntry) :
    pending (es ++ fs) = pending es + pending fs := by
  simp [pending]

def Delegation.held (d : Delegation) : ℕ := d.amount + pending d.unbondings

lemma share_held (m : BTreeMap (String × String) Delegation) (k : String × String) :
    share Delegation.held m[k]? = (m.getD k {}).held :=
  share_getD Delegation.held m k rfl

namespace StakingState

def bonded (s : StakingState) : ℕ :=
  sumBy EconValidator.selfStake s.validators + sumBy Delegation.held s.delegations

variable {currentEpoch : UInt64}

lemma sumBy_setTotalStake {validators : BTreeMap String EconValidator} {validator : String}
    {v : EconValidator} (hv : validators[validator]? = some v) (total : ℕ) :
    sumBy EconValidator.selfStake (validators.insert validator { v with totalStake := total })
      = sumBy EconValidator.selfStake validators := by
  have h := sumBy_insert EconValidator.selfStake validators validator
    { v with totalStake := total }
  rw [hv, share_some] at h
  simp only at h
  omega

lemma delegate_bonded {s s' : StakingState} {delegator validator : String} {amount balance : ℕ}
    (h : s.delegate delegator validator amount balance = .ok s') :
    amount ≤ balance ∧ s'.bonded = s.bonded + amount := by
  unfold delegate at h
  split at h
  · cases h
  split at h
  · cases h
  rename_i hbal
  split at h
  · cases h
  rename_i v hv
  split at h
  · cases h
  split at h
  · cases h
  simp only at h
  split at h
  · cases h
  rename_i newAmount hnew
  cases h
  obtain rfl := checkedAdd128_eq_some hnew
  have hsum := sumBy_insert Delegation.held s.delegations (delegator, validator)
    { s.delegations.getD (delegator, validator) {} with
      amount := (s.delegations.getD (delegator, validator) {}).amount + amount }
  rw [share_held] at hsum
  simp only [bonded, sumBy_setTotalStake hv, Delegation.held] at hsum ⊢
  omega

lemma undelegate_bonded (s : StakingState) (delegator validator : String) (amount : ℕ)
    (currentEpoch unbondingEpochs : UInt64) :
    (s.undelegate delegator validator amount currentEpoch unbondingEpochs).2.bonded = s.bonded := by
  unfold undelegate
  split
  · rfl
  split
  · rfl
  rename_i v hv
  split
  · rfl
  rename_i d hd
  split
  · rfl
  rename_i hle
  split
  · rfl
  rename_i nextId _
  have hsum := sumBy_insert Delegation.held s.delegations (delegator, validator)
    { amount := d.amount - amount,
      unbondings := d.unbondings ++
        [⟨s.nextUnbondingId, amount, Machine.satAdd currentEpoch unbondingEpochs⟩] }
  rw [hd, share_some] at hsum
  simp only [Delegation.held, pending_append, pending_cons, pending_nil] at hsum
  simp only
  split
  · simp only [bonded]
    omega
  · simp only [bonded, sumBy_setTotalStake hv]
    omega

lemma drainUnlocked_sum {entries retained : List UnbondingEntry} {w withdrawn : ℕ}
    (h : drainUnlocked currentEpoch w entries = some (withdrawn, retained)) :
    withdrawn + pending retained = w + pending entries := by
  induction entries generalizing w withdrawn retained with
  | nil =>
    cases h
    rfl
  | cons e es ih =>
    rw [drainUnlocked] at h
    split at h
    · obtain ⟨w', hw', h⟩ := Option.bind_eq_some_iff.mp h
      obtain rfl := checkedAdd128_eq_some hw'
      rw [ih h, pending_cons, Nat.add_assoc]
    · obtain ⟨⟨w', kept⟩, hrest, h⟩ := Option.bind_eq_some_iff.mp h
      cases h
      have := ih hrest
      rw [pending_cons, pending_cons]
      omega

lemma drainUnlocked_isSome (currentEpoch : UInt64) {entries : List UnbondingEntry} {w : ℕ}
    (h : w + pending entries ≤ u128Max) : (drainUnlocked currentEpoch w entries).isSome := by
  induction entries generalizing w with
  | nil => rfl
  | cons e es ih =>
    rw [pending_cons] at h
    rw [drainUnlocked]
    split
    · have hw : checkedAdd128 w e.amount = some (w + e.amount) := by
        rw [checkedAdd128, if_pos (by omega)]
      simpa [hw] using ih (w := w + e.amount) (by omega)
    · obtain ⟨res, hres⟩ := Option.isSome_iff_exists.mp (ih (w := w) (by omega))
      simp [hres]

lemma withdraw_bonded {s s' : StakingState} {delegator validator : String}
    {res : Except StakingError ℕ} (hfit : s.bonded ≤ u128Max)
    (h : s.withdraw delegator validator currentEpoch = (res, s')) :
    s'.bonded + (res.toOption.getD 0) = s.bonded := by
  unfold withdraw at h
  split at h
  · cases h
    rfl
  rename_i d hd
  have hheld := share_le_sumBy Delegation.held s.delegations (delegator, validator)
  rw [hd, share_some] at hheld
  have hpending : 0 + pending d.unbondings ≤ u128Max := by
    unfold bonded Delegation.held at *
    omega
  obtain ⟨⟨withdrawn, retained⟩, hdrain⟩ := Option.isSome_iff_exists.mp
    (drainUnlocked_isSome currentEpoch hpending)
  have hsum := drainUnlocked_sum hdrain
  rw [hdrain] at h
  simp only at h
  split at h
  · rename_i hempty
    cases h
    have herase := sumBy_erase Delegation.held s.delegations (delegator, validator)
    rw [hd, share_some, Delegation.held, hempty.1] at herase
    rw [hempty.2, pending_nil] at hsum
    simp only [bonded, Except.toOption, Option.getD_some]
    omega
  · cases h
    have hins := sumBy_insert Delegation.held s.delegations (delegator, validator)
      { d with unbondings := retained }
    rw [hd, share_some] at hins
    simp only [bonded, Except.toOption, Option.getD_some, Delegation.held] at hins ⊢
    omega

end StakingState

end Iona
