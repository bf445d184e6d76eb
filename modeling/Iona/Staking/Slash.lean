import Iona.Lib.Trace
import Iona.Staking.Tx

/-!
# Slashing, jailing, and everything that can happen to the staking ledger

From `economics/staking.rs`.
-/

namespace Iona

open Machine

/-! ### Slashing -/

def mulDivBps (a : ℕ) (bps : UInt64) : ℕ :=
  let b := bps.toNat
  let c := maxBps.toNat
  a / c * b + a % c * b / c

variable {validator : String}

lemma mulDivBps_eq (a : ℕ) (bps : UInt64) : mulDivBps a bps = a * bps.toNat / 10000 := by
  have hc : maxBps.toNat = 10000 := rfl
  have hsplit : a * bps.toNat = a % 10000 * bps.toNat + a / 10000 * bps.toNat * 10000 := by
    calc a * bps.toNat = (a % 10000 + 10000 * (a / 10000)) * bps.toNat := by rw [Nat.mod_add_div]
      _ = a % 10000 * bps.toNat + a / 10000 * bps.toNat * 10000 := by ring
  rw [mulDivBps, hc, hsplit, Nat.add_mul_div_right _ _ (by decide), Nat.add_comm]

lemma mulDivBps_le (a : ℕ) {bps : UInt64} (h : bps ≤ maxBps) : mulDivBps a bps ≤ a := by
  have hb : bps.toNat ≤ 10000 := h
  rw [mulDivBps_eq]
  exact Nat.div_le_of_le_mul (by nlinarith)

def UnbondingEntry.slash (bps : UInt64) (entry : UnbondingEntry) : UnbondingEntry :=
  { entry with amount := entry.amount - mulDivBps entry.amount bps }

def Delegation.slash (bps : UInt64) (d : Delegation) : Delegation where
  amount := d.amount - mulDivBps d.amount bps
  unbondings := d.unbondings.map (UnbondingEntry.slash bps)

def slashedUnbondings (bps : UInt64) : ℕ → List UnbondingEntry → Option ℕ
  | lost, [] => some lost
  | lost, entry :: entries => do
    let lost ← checkedAdd128 lost (mulDivBps entry.amount bps)
    slashedUnbondings bps lost entries

def slashedDelegations (validator : String) (bps : UInt64) :
    ℕ × ℕ → List ((String × String) × Delegation) → Option (ℕ × ℕ)
  | lost, [] => some lost
  | (delegations, unbondings), (key, d) :: rest =>
    if key.2 ≠ validator then slashedDelegations validator bps (delegations, unbondings) rest
    else do
      let delegations ← checkedAdd128 delegations (mulDivBps d.amount bps)
      let unbondings ← slashedUnbondings bps unbondings d.unbondings
      slashedDelegations validator bps (delegations, unbondings) rest

structure SlashOutcome where
  validator : String
  slashBps : UInt64
  selfSlashed : ℕ
  delegationsSlashed : ℕ
  unbondingsSlashed : ℕ
  totalSlashed : ℕ
  jailed : Bool
  deriving DecidableEq

namespace StakingState

def slashDelegations (s : StakingState) (validator : String) (bps : UInt64) :
    BTreeMap (String × String) Delegation :=
  s.delegations.map fun key d => if key.2 = validator then d.slash bps else d

def slash (s : StakingState) (validator : String) (slashBps : UInt64) :
    Option (Except StakingError SlashOutcome × StakingState) :=
  if slashBps > maxBps then some (.error (.invalidSlashRate slashBps), s)
  else match s.validators[validator]? with
    | none => some (.error (.validatorNotFound validator), s)
    | some v => do
      let selfSlashed := mulDivBps v.selfStake slashBps
      let v := { v with selfStake := v.selfStake - selfSlashed }
      let (delegationsSlashed, unbondingsSlashed) ←
        slashedDelegations validator slashBps (0, 0) s.delegations.toList
      let s := { s with
        validators := s.validators.insert validator v
        delegations := s.slashDelegations validator slashBps }
      match checkedAdd128 selfSlashed delegationsSlashed with
      | none => return (.error (.overflow "slash.bond_reduction"), s)
      | some bondReduction =>
        if v.totalStake < bondReduction then return (.error (.overflow "slash.total_stake"), s)
        else
          let v := { v with totalStake := v.totalStake - bondReduction, jailed := true }
          let s := { s with validators := s.validators.insert validator v }
          match checkedAdd128 bondReduction unbondingsSlashed with
          | none => return (.error (.overflow "slash.total"), s)
          | some totalSlashed =>
            return (.ok ⟨validator, slashBps, selfSlashed, delegationsSlashed, unbondingsSlashed,
              totalSlashed, true⟩, s)

def unjail (s : StakingState) (validator : String) : Except StakingError StakingState :=
  match s.validators[validator]? with
  | none => .error (.validatorNotFound validator)
  | some v => .ok { s with validators := s.validators.insert validator { v with jailed := false } }

end StakingState

/-! ### The machine -/

inductive StakingOp where
  | tx (tx : StakingTx)
  | delegate (delegator validator : String) (amount balance : ℕ)
  | undelegate (delegator validator : String) (amount : ℕ) (currentEpoch unbondingEpochs : UInt64)
  | withdraw (delegator validator : String) (currentEpoch : UInt64)
  | slash (validator : String) (slashBps : UInt64)
  | unjail (validator : String)
  | accounts (kv : KvState)

def Ledger.step (l : Ledger) : StakingOp → Option Ledger
  | .tx tx => some (l.apply tx)
  | .delegate delegator validator amount balance => some
      { l with staking :=
          (l.staking.delegate delegator validator amount balance).toOption.getD l.staking }
  | .undelegate delegator validator amount currentEpoch unbondingEpochs => some
      { l with staking :=
          (l.staking.undelegate delegator validator amount currentEpoch unbondingEpochs).2 }
  | .withdraw delegator validator currentEpoch => some
      { l with staking := (l.staking.withdraw delegator validator currentEpoch).2 }
  | .slash validator slashBps =>
      (l.staking.slash validator slashBps).map fun res => { l with staking := res.2 }
  | .unjail validator => some
      { l with staking := (l.staking.unjail validator).toOption.getD l.staking }
  | .accounts kv => some { l with kv := kv }

/-! ### What a step can do -/

inductive StakingOp.Undelegates : StakingOp → String × String → ℕ → UInt64 → UInt64 → Prop
  | tx {tx : StakingTx} {args : List String} {validator : String} {amount : ℕ}
      (action : parseStakingPayload tx.payload = some ("undelegate", args)) (sender : tx.from ≠ "")
      (parsed : parseAmountArgs args = .ok (validator, amount)) :
      Undelegates (.tx tx) (tx.from, validator) amount tx.epoch tx.params.unbondingEpochs
  | call (delegator validator : String) (amount : ℕ) (currentEpoch unbondingEpochs : UInt64) :
      Undelegates (.undelegate delegator validator amount currentEpoch unbondingEpochs)
        (delegator, validator) amount currentEpoch unbondingEpochs

structure Registers (tx : StakingTx) (addr : String) (l : Ledger) : Prop where
  action : ∃ arg args, parseStakingPayload tx.payload = some ("register", arg :: args) ∧
    ∃ bps, parseU64 arg "commission_bps" = .ok bps ∧ bps ≤ maxBps
  sender : tx.from = addr ∧ addr ≠ ""
  unregistered : addr ∉ l.staking.validators
  funded : tx.params.minStake ≤ readBalance l.kv addr

structure Deregisters (tx : StakingTx) (addr : String) (l : Ledger) : Prop where
  action : ∃ args, parseStakingPayload tx.payload = some ("deregister", args)
  sender : tx.from = addr ∧ addr ≠ ""
  registered : ∃ v, l.staking.validators[addr]? = some v ∧
    readBalance l.kv addr + v.selfStake ≤ u64Max
  external : externalDelegations l.staking addr = 0

inductive StakingOp.Effect (l : Ledger) (op : StakingOp) : StakingState → Prop
  | keep : Effect l op l.staking
  | delegate {delegator validator : String} {v : EconValidator} {d : Delegation} {amount : ℕ}
      (hv : l.staking.validators[validator]? = some v)
      (hd : l.staking.delegations.getD (delegator, validator) {} = d)
      (hfit : v.totalStake + amount ≤ u128Max) :
      Effect l op { l.staking with
        validators :=
          l.staking.validators.insert validator { v with totalStake := v.totalStake + amount }
        delegations :=
          l.staking.delegations.insert (delegator, validator) { d with amount := d.amount + amount } }
  | unbond {delegator validator : String} {v : EconValidator} {d : Delegation} {amount : ℕ}
      {epoch period nextId : UInt64} {entry : UnbondingEntry}
      {validators : BTreeMap String EconValidator}
      (hop : op.Undelegates (delegator, validator) amount epoch period)
      (hv : l.staking.validators[validator]? = some v)
      (hd : l.staking.delegations[(delegator, validator)]? = some d)
      (hle : amount ≤ d.amount)
      (hentry : entry = ⟨l.staking.nextUnbondingId, amount, satAdd epoch period⟩)
      (htotal : amount ≤ v.totalStake ∧ validators = l.staking.validators.insert validator
          { v with totalStake := v.totalStake - amount } ∨
        v.totalStake < amount ∧ validators = l.staking.validators) :
      Effect l op { l.staking with
        nextUnbondingId := nextId
        validators := validators
        delegations := l.staking.delegations.insert (delegator, validator)
          { amount := d.amount - amount, unbondings := d.unbondings ++ [entry] } }
  | release {key : String × String} {d : Delegation} {retained : List UnbondingEntry}
      (hd : l.staking.delegations[key]? = some d) (hsub : retained.Sublist d.unbondings) :
      Effect l op { l.staking with
        delegations := l.staking.delegations.insert key { d with unbondings := retained } }
  | remove {key : String × String} {d : Delegation}
      (hd : l.staking.delegations[key]? = some d) (hzero : d.amount = 0) :
      Effect l op { l.staking with delegations := l.staking.delegations.erase key }
  | register {tx : StakingTx} {addr : String} {v : EconValidator} (hop : op = .tx tx)
      (hreg : Registers tx addr l) (hjailed : v.jailed = false) (hself : v.selfStake = tx.params.minStake)
      (htotal : v.totalStake = v.selfStake) :
      Effect l op { l.staking with validators := l.staking.validators.insert addr v }
  | deregister {tx : StakingTx} {addr : String} (hop : op = .tx tx) (hdereg : Deregisters tx addr l) :
      Effect l op (dropSelfDelegation
        { l.staking with validators := l.staking.validators.erase addr } addr)
  | slash {validator : String} {v v' : EconValidator} {bps : UInt64} {lost : ℕ × ℕ}
      (hop : op = .slash validator bps) (hbps : bps ≤ maxBps)
      (hv : l.staking.validators[validator]? = some v)
      (hlost : slashedDelegations validator bps (0, 0) l.staking.delegations.toList = some lost)
      (hself : v'.selfStake = v.selfStake - mulDivBps v.selfStake bps)
      (htotal : v'.totalStake + (mulDivBps v.selfStake bps + lost.1) = v.totalStake ∧ v'.jailed = true ∨
        (v.totalStake < mulDivBps v.selfStake bps + lost.1 ∨
          u128Max < mulDivBps v.selfStake bps + lost.1) ∧ v'.jailed = v.jailed) :
      Effect l op { l.staking with
        validators := l.staking.validators.insert validator v'
        delegations := l.staking.slashDelegations validator bps }
  | unjail {validator : String} {v : EconValidator} (hop : op = .unjail validator)
      (hv : l.staking.validators[validator]? = some v) :
      Effect l op { l.staking with
        validators := l.staking.validators.insert validator { v with jailed := false } }

/-! ### Deregistration -/

lemma externalDelegations_eq_zero {s : StakingState} (h : externalDelegations s validator = 0)
    {delegator : String} {d : Delegation} (hd : s.delegations[(delegator, validator)]? = some d)
    (hne : delegator ≠ validator) : d.amount = 0 := by
  have hsat := foldl_min_add (fun e : (String × String) × Delegation => e.2.amount) u128Max
    (s.delegations.toList.filter fun e => e.1.2 = validator ∧ e.1.1 ≠ validator) (Nat.zero_le _)
  have hpos : 0 < u128Max := by decide
  rw [externalDelegations, hsat] at h
  have hzero := List.sum_eq_zero_iff.mp (by omega : (List.map
    (fun e : (String × String) × Delegation => e.2.amount)
    (s.delegations.toList.filter fun e => e.1.2 = validator ∧ e.1.1 ≠ validator)).sum = 0)
  refine hzero d.amount (List.mem_map.mpr ⟨((delegator, validator), d), ?_, rfl⟩)
  refine List.mem_filter.mpr ⟨?_, by simpa using hne⟩
  exact Std.ExtTreeMap.mem_toList_iff_getElem?_eq_some.mpr hd

lemma dropSelfDelegation_validators (s : StakingState) (validator : String) :
    (dropSelfDelegation s validator).validators = s.validators := by
  unfold dropSelfDelegation
  split
  · rfl
  split <;> rfl

lemma dropSelfDelegation_getElem? {s : StakingState} {key : String × String} {d : Delegation}
    (h : (dropSelfDelegation s validator).delegations[key]? = some d) :
    ∃ d', s.delegations[key]? = some d' ∧ d.unbondings = d'.unbondings ∧
      (key = (validator, validator) ∧ d.amount = 0 ∨ key ≠ (validator, validator) ∧ d = d') := by
  unfold dropSelfDelegation at h
  split at h
  · rename_i hnone
    refine ⟨d, h, rfl, .inr ⟨?_, rfl⟩⟩
    rintro rfl
    rw [hnone] at h
    cases h
  rename_i d₀ hd₀
  split at h
  · obtain ⟨hne, h⟩ := MapSum.getElem?_erase_eq_some_iff.mp h
    exact ⟨d, h, rfl, .inr ⟨hne, rfl⟩⟩
  · rcases MapSum.getElem?_insert_eq_some_iff.mp h with ⟨rfl, rfl⟩ | ⟨hne, h⟩
    · exact ⟨d₀, hd₀, rfl, .inl ⟨rfl, rfl⟩⟩
    · exact ⟨d, h, rfl, .inr ⟨hne, rfl⟩⟩

section Effects

variable {l : Ledger} {op : StakingOp}

variable {res : Except StakingError SlashOutcome × StakingState} {tx : StakingTx}
  {args : List String} {delegator : String}

lemma delegate_effect {amount balance : ℕ} {s' : StakingState}
    (h : l.staking.delegate delegator validator amount balance = .ok s') : op.Effect l s' := by
  unfold StakingState.delegate at h
  split at h
  · cases h
  split at h
  · cases h
  split at h
  · cases h
  rename_i v hv
  split at h
  · cases h
  split at h
  · cases h
  rename_i newTotal htotal
  simp only at h
  split at h
  · cases h
  rename_i newAmount hamount
  cases h
  have hfit := checkedAdd128_le htotal
  obtain rfl := checkedAdd128_eq_some htotal
  obtain rfl := checkedAdd128_eq_some hamount
  exact .delegate hv rfl hfit

lemma undelegate_effect {amount : ℕ} {currentEpoch unbondingEpochs : UInt64}
    (hop : op.Undelegates (delegator, validator) amount currentEpoch unbondingEpochs) :
    op.Effect l
      (l.staking.undelegate delegator validator amount currentEpoch unbondingEpochs).2 := by
  unfold StakingState.undelegate
  split
  · exact .keep
  split
  · exact .keep
  rename_i v hv
  split
  · exact .keep
  rename_i d hd
  split
  · exact .keep
  rename_i hle
  split
  · exact .keep
  rename_i nextId _
  split
  · rename_i hshort
    exact .unbond hop hv hd (by omega) rfl (.inr ⟨hshort, rfl⟩)
  · exact .unbond hop hv hd (by omega) rfl (.inl ⟨by omega, rfl⟩)

lemma drainUnlocked_eq {currentEpoch : UInt64} {entries retained : List UnbondingEntry}
    {w withdrawn : ℕ}
    (h : StakingState.drainUnlocked currentEpoch w entries = some (withdrawn, retained)) :
    withdrawn = w + pending (entries.filter fun e => e.unlockEpoch ≤ currentEpoch) ∧
      retained = entries.filter fun e => ¬ e.unlockEpoch ≤ currentEpoch := by
  induction entries generalizing w withdrawn retained with
  | nil =>
    cases h
    exact ⟨rfl, rfl⟩
  | cons e es ih =>
    rw [StakingState.drainUnlocked] at h
    split at h
    · rename_i hdue
      obtain ⟨w', hw', h⟩ := Option.bind_eq_some_iff.mp h
      obtain ⟨hsum, hkept⟩ := ih h
      rw [checkedAdd128_eq_some hw'] at hsum
      simp [hdue, hsum, hkept, Nat.add_assoc]
    · rename_i hdue
      obtain ⟨⟨w', kept⟩, hrest, h⟩ := Option.bind_eq_some_iff.mp h
      cases h
      obtain ⟨hsum, hkept⟩ := ih hrest
      simp [List.filter_cons, hdue, hsum, hkept]

lemma withdraw_effect (delegator validator : String) (currentEpoch : UInt64) :
    op.Effect l (l.staking.withdraw delegator validator currentEpoch).2 := by
  unfold StakingState.withdraw
  split
  · exact .keep
  rename_i d hd
  split
  · exact .release hd (List.nil_sublist _)
  rename_i withdrawn retained hdrain
  split
  · rename_i hempty
    exact .remove hd hempty.1
  · exact .release hd ((drainUnlocked_eq hdrain).2 ▸ List.filter_sublist)

lemma slash_cases {s : StakingState} {bps : UInt64} (h : s.slash validator bps = some res) :
    (maxBps < bps ∨ s.validators[validator]? = none) ∧ res.2 = s ∨
      ∃ v v' lost, bps ≤ maxBps ∧ s.validators[validator]? = some v ∧
        slashedDelegations validator bps (0, 0) s.delegations.toList = some lost ∧
        v'.selfStake = v.selfStake - mulDivBps v.selfStake bps ∧
        (v'.totalStake + (mulDivBps v.selfStake bps + lost.1) = v.totalStake ∧ v'.jailed = true ∨
          (v.totalStake < mulDivBps v.selfStake bps + lost.1 ∨
            u128Max < mulDivBps v.selfStake bps + lost.1) ∧ v'.jailed = v.jailed) ∧
        res.2 = { s with
          validators := s.validators.insert validator v'
          delegations := s.slashDelegations validator bps } := by
  unfold StakingState.slash at h
  split at h
  · rename_i hrange
    cases h
    exact .inl ⟨.inl hrange, rfl⟩
  rename_i hrange
  split at h
  · rename_i hnone
    cases h
    exact .inl ⟨.inr hnone, rfl⟩
  rename_i v hv
  obtain ⟨⟨delegationsSlashed, unbondingsSlashed⟩, hlost, h⟩ := Option.bind_eq_some_iff.mp h
  refine .inr ⟨v, ?_⟩
  have hrate := UInt64.not_lt.mp hrange
  simp only at h
  split at h
  · rename_i hover
    cases h
    have hbig : u128Max < mulDivBps v.selfStake bps + delegationsSlashed := by
      by_contra hfit
      rw [checkedAdd128, if_pos (by omega)] at hover
      cases hover
    exact ⟨{ v with selfStake := v.selfStake - mulDivBps v.selfStake bps }, _, hrate, hv, hlost, rfl,
      .inr ⟨.inr hbig, rfl⟩, rfl⟩
  rename_i reduction hreduction
  obtain rfl := checkedAdd128_eq_some hreduction
  split at h
  · rename_i hshort
    cases h
    exact ⟨{ v with selfStake := v.selfStake - mulDivBps v.selfStake bps }, _, hrate, hv, hlost, rfl,
      .inr ⟨.inl hshort, rfl⟩, rfl⟩
  rename_i hfits
  have hsub := Nat.sub_add_cancel (not_lt.mp hfits)
  split at h
  all_goals
    cases h
    refine ⟨⟨v.operator, v.selfStake - mulDivBps v.selfStake bps,
      v.totalStake - (mulDivBps v.selfStake bps + delegationsSlashed), true, v.commissionBps⟩, _, hrate,
      hv, hlost, rfl, .inl ⟨hsub, rfl⟩, ?_⟩
    simp only [MapSum.insert_insert]

lemma slash_effect {bps : UInt64} (hop : op = .slash validator bps)
    (h : l.staking.slash validator bps = some res) : op.Effect l res.2 := by
  rcases slash_cases h with ⟨_, heq⟩ | ⟨v, v', lost, hbps, hv, hlost, hself, htotal, heq⟩
  · rw [heq]
    exact .keep
  · rw [heq]
    exact .slash hop hbps hv hlost hself htotal

lemma unjail_effect (hop : op = .unjail validator) {s' : StakingState}
    (h : l.staking.unjail validator = .ok s') : op.Effect l s' := by
  unfold StakingState.unjail at h
  split at h
  · cases h
  rename_i v hv
  cases h
  exact .unjail hop hv

/-! ### The transactions -/

lemma applyDelegate_effect (args : List String) («from» : String) :
    op.Effect l (applyDelegate args «from» l).2.staking := by
  unfold applyDelegate
  split
  · exact .keep
  simp only
  split
  · exact .keep
  split
  · exact .keep
  rename_i staking hdel
  split <;> exact delegate_effect hdel

lemma applyUndelegate_effect
    (haction : parseStakingPayload tx.payload = some ("undelegate", args)) (hsender : tx.from ≠ "")
    (hop : op = .tx tx) :
    op.Effect l (applyUndelegate args tx.from l tx.params tx.epoch).2.staking := by
  unfold applyUndelegate
  split
  · exact .keep
  rename_i validator amount hparsed
  have hundel := hop ▸ StakingOp.Undelegates.tx haction hsender hparsed
  have heff := undelegate_effect (l := l) hundel
  split <;> rename_i heq <;> rw [heq] at heff <;> exact heff

lemma applyWithdraw_effect (args : List String) («from» : String) (epoch : UInt64) :
    op.Effect l (applyWithdraw args «from» l epoch).2.staking := by
  unfold applyWithdraw
  split
  · exact .keep
  rename_i validator _
  have heff : op.Effect l _ := withdraw_effect «from» validator epoch
  split
  · rename_i heq
    rw [heq] at heff
    exact heff
  · rename_i heq
    rw [heq] at heff
    simp only
    split
    · exact heff
    · split <;> exact heff

lemma applyRegister_cases (haction : parseStakingPayload tx.payload = some ("register", args))
    (hsender : tx.from ≠ "") :
    ¬ Registers tx tx.from l ∧ (applyRegister args tx.from l tx.params).2 = l ∨
      Registers tx tx.from l ∧ ∃ b v, b.toNat + tx.params.minStake = readBalance l.kv tx.from ∧
        v.jailed = false ∧ v.selfStake = tx.params.minStake ∧ v.totalStake = v.selfStake ∧
        (applyRegister args tx.from l tx.params).2 =
          { kv := { l.kv with balances := l.kv.balances.insert tx.from b }
            staking := { l.staking with
              validators := l.staking.validators.insert tx.from v } } := by
  unfold applyRegister
  split
  · refine .inl ⟨fun h => ?_, rfl⟩
    obtain ⟨arg, rest, hparse, _⟩ := h.action
    rw [haction] at hparse
    cases hparse
  rename_i arg rest
  -- the arguments of any registration this payload makes are the ones at hand
  have hargs : Registers tx tx.from l →
      ∃ bps, parseU64 arg "commission_bps" = .ok bps ∧ bps ≤ maxBps := by
    intro h
    obtain ⟨arg', rest', hparse, hbps⟩ := h.action
    rw [haction] at hparse
    cases hparse
    exact hbps
  split
  · rename_i e herr
    refine .inl ⟨fun h => ?_, rfl⟩
    obtain ⟨bps, hbps, _⟩ := hargs h
    rw [herr] at hbps
    cases hbps
  rename_i bps hbps
  split
  · rename_i hrange
    refine .inl ⟨fun h => ?_, rfl⟩
    obtain ⟨bps', hbps', hle⟩ := hargs h
    rw [hbps] at hbps'
    cases hbps'
    exact absurd hle (UInt64.not_le.mpr hrange)
  rename_i hrange
  split
  · rename_i hmem
    exact .inl ⟨fun h => h.unregistered hmem, rfl⟩
  rename_i hnew
  simp only
  split
  · rename_i hpoor
    exact .inl ⟨fun h => absurd h.funded (by omega), rfl⟩
  rename_i hfunded
  have hfit : readBalance l.kv tx.from - tx.params.minStake ≤ u64Max :=
    (Nat.sub_le _ _).trans (toNat_le _)
  rw [checked, if_pos hfit, EconValidator.new, if_neg hrange]
  refine .inr ⟨⟨⟨arg, rest, haction, bps, hbps, UInt64.not_lt.mp hrange⟩, ⟨rfl, hsender⟩, hnew,
    by omega⟩, _, _, ?_, rfl, rfl, rfl, rfl⟩
  rw [toNat_ofNat hfit]
  omega

lemma applyDeregister_cases (haction : parseStakingPayload tx.payload = some ("deregister", args))
    (hsender : tx.from ≠ "") :
    ¬ Deregisters tx tx.from l ∧ (applyDeregister tx.from l).2 = l ∨
      Deregisters tx tx.from l ∧ ∃ b v, l.staking.validators[tx.from]? = some v ∧
        b.toNat = readBalance l.kv tx.from + v.selfStake ∧
        (applyDeregister tx.from l).2 =
          { kv := { l.kv with balances := l.kv.balances.insert tx.from b }
            staking := dropSelfDelegation
              { l.staking with validators := l.staking.validators.erase tx.from } tx.from } := by
  unfold applyDeregister
  split
  · rename_i hnone
    refine .inl ⟨fun h => ?_, rfl⟩
    obtain ⟨v, hv, _⟩ := h.registered
    rw [hnone] at hv
    cases hv
  rename_i v hv
  simp only
  split
  · rename_i hext
    exact .inl ⟨fun h => hext.ne' h.external, rfl⟩
  rename_i hext
  by_cases hfit : readBalance l.kv tx.from + v.selfStake ≤ u64Max
  · have h128 : readBalance l.kv tx.from + v.selfStake ≤ u128Max := hfit.trans (by decide)
    rw [checkedAdd128, if_pos h128, Option.bind_some, checked, if_pos hfit]
    refine .inr ⟨⟨⟨args, haction⟩, ⟨rfl, hsender⟩, ⟨v, hv, hfit⟩, by omega⟩, _, v, hv, ?_, rfl⟩
    exact toNat_ofNat hfit
  · have hover : (checkedAdd128 (readBalance l.kv tx.from) v.selfStake).bind checked = none := by
      unfold checkedAdd128 checked
      split
      · rw [Option.bind_some, if_neg hfit]
      · rfl
    rw [hover]
    refine .inl ⟨fun h => ?_, rfl⟩
    obtain ⟨v', hv', hle⟩ := h.registered
    rw [hv] at hv'
    cases hv'
    exact hfit hle

lemma apply_effect (hop : op = .tx tx) : op.Effect l (l.apply tx).staking := by
  rw [apply_eq]
  split
  · exact .keep
  rename_i action args hparse
  split
  · exact .keep
  rename_i hsender
  unfold dispatch
  split
  · exact applyDelegate_effect args tx.from
  · exact applyUndelegate_effect hparse hsender hop
  · exact applyWithdraw_effect args tx.from tx.epoch
  · rcases applyRegister_cases hparse hsender with ⟨_, heq⟩ | ⟨hreg, b, v, _, hjailed, hself, htotal, heq⟩
    · rw [heq]
      exact .keep
    · rw [heq]
      exact .register hop hreg hjailed hself htotal
  · rcases applyDeregister_cases hparse hsender with ⟨_, heq⟩ | ⟨hdereg, b, v, _, _, heq⟩
    · rw [heq]
      exact .keep
    · rw [heq]
      exact .deregister hop hdereg
  · exact .keep

lemma step_effect {l' : Ledger} (h : l.step op = some l') : op.Effect l l'.staking := by
  cases op with
  | tx tx =>
    cases h
    exact apply_effect rfl
  | delegate delegator validator amount balance =>
    cases h
    cases hdel : l.staking.delegate delegator validator amount balance with
    | error e => exact .keep
    | ok s' => exact delegate_effect hdel
  | undelegate delegator validator amount currentEpoch unbondingEpochs =>
    cases h
    exact undelegate_effect (.call ..)
  | withdraw delegator validator currentEpoch =>
    cases h
    exact withdraw_effect ..
  | slash validator slashBps =>
    obtain ⟨res, hres, rfl⟩ := Option.map_eq_some_iff.mp h
    exact slash_effect rfl hres
  | unjail validator =>
    cases h
    cases hun : l.staking.unjail validator with
    | error e => exact .keep
    | ok s' => exact unjail_effect rfl hun
  | accounts kv =>
    cases h
    exact .keep

end Effects

end Iona
