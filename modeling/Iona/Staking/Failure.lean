import Iona.Staking.Slash

/-!
# Failed staking transactions

From `staking_tx.rs`.
-/

namespace Iona

namespace StakingState

def Releases (s : StakingState) (key : String × String) (epoch : UInt64) : Prop :=
  ∃ d, s.delegations[key]? = some d ∧
    ((∃ entry ∈ d.unbondings, entry.unlockEpoch ≤ epoch) ∨ d.amount = 0 ∧ d.unbondings = [])

variable {epoch : UInt64}

lemma drainUnlocked_of_not_due {entries : List UnbondingEntry} (withdrawn : ℕ)
    (h : ∀ entry ∈ entries, ¬ entry.unlockEpoch ≤ epoch) :
    drainUnlocked epoch withdrawn entries = some (withdrawn, entries) := by
  induction entries with
  | nil => rfl
  | cons entry entries ih =>
    have hrest := ih fun e he => h e (List.mem_cons_of_mem _ he)
    rw [drainUnlocked, if_neg (h entry List.mem_cons_self), hrest]
    rfl

lemma drainUnlocked_ne {entries retained : List UnbondingEntry} {withdrawn w : ℕ}
    (h : drainUnlocked epoch w entries = some (withdrawn, retained))
    (hdue : ∃ entry ∈ entries, entry.unlockEpoch ≤ epoch) : retained ≠ entries := by
  obtain ⟨entry, hmem, hdue⟩ := hdue
  intro heq
  rw [← heq, (drainUnlocked_eq h).2] at hmem
  simpa [hdue] using List.of_mem_filter hmem

lemma withdraw_eq_iff (s : StakingState) (delegator validator : String) (epoch : UInt64) :
    (s.withdraw delegator validator epoch).2 = s ↔ ¬ s.Releases (delegator, validator) epoch := by
  -- the ledger is changed in one entry, so it is the same when that entry is
  have hsame : ∀ delegations, { s with delegations := delegations } = s ↔
      delegations = s.delegations := by
    intro delegations
    constructor
    · exact fun heq => congrArg StakingState.delegations heq
    · rintro rfl
      rfl
  unfold withdraw Releases
  cases hd : s.delegations[(delegator, validator)]? with
  | none => simp
  | some d =>
    simp only [Option.some.injEq, exists_eq_left']
    by_cases hdue : ∃ entry ∈ d.unbondings, entry.unlockEpoch ≤ epoch
    · refine iff_of_false ?_ (not_not.mpr (.inl hdue))
      have hne : d.unbondings ≠ [] := by
        rintro hnil
        simp [hnil] at hdue
      cases hdrain : drainUnlocked epoch 0 d.unbondings with
      | none =>
        -- the sum overflowed after the entries had been taken out
        simp only [hsame, MapSum.insert_eq_self_iff, hd, Option.some.injEq]
        exact fun heq => hne (congrArg Delegation.unbondings heq)
      | some out =>
        obtain ⟨withdrawn, retained⟩ := out
        simp only
        split
        · simp [hsame, MapSum.erase_eq_self_iff, hd]
        · simp only [hsame, MapSum.insert_eq_self_iff, hd, Option.some.injEq]
          exact fun heq => drainUnlocked_ne hdrain hdue (congrArg Delegation.unbondings heq).symm
    · have hkept := drainUnlocked_of_not_due 0 fun e he hle => hdue ⟨e, he, hle⟩
      simp only [hkept, hdue, false_or]
      split
      · -- an exhausted delegation is pruned even when nothing was due
        rename_i hempty
        simp [hsame, MapSum.erase_eq_self_iff, hd, hempty]
      · rename_i hempty
        simp [hsame, MapSum.insert_eq_self_iff, hd, hempty]

def Undercounts (s : StakingState) (delegator validator : String) (amount : ℕ) : Prop :=
  ∃ v d, s.validators[validator]? = some v ∧ s.delegations[(delegator, validator)]? = some d ∧
    amount ≤ d.amount ∧ s.nextUnbondingId.toNat + 1 ≤ Machine.u64Max ∧ v.totalStake < amount

lemma undelegate_error_eq_iff {s s' : StakingState} {delegator validator : String} {amount : ℕ}
    {period : UInt64} {e : StakingError}
    (h : s.undelegate delegator validator amount epoch period = (.error e, s')) :
    s' = s ↔ ¬ s.Undercounts delegator validator amount := by
  unfold undelegate at h
  unfold Undercounts
  split at h
  · rename_i hzero
    cases h
    simp [hzero]
  split at h
  · rename_i hv
    cases h
    simp [hv]
  rename_i v hv
  split at h
  · rename_i hd
    cases h
    simp [hd]
  rename_i d hd
  split at h
  · rename_i hle
    cases h
    simp [hv, hd, hle]
  rename_i hle
  split at h
  · rename_i hid
    cases h
    have hfull := Machine.checked_eq_none_iff.mp hid
    simp [hv, hd, Nat.not_le.mpr hfull]
  rename_i nextId hid
  have hnext := Machine.checked_eq_some_iff.mp hid
  simp only at h
  split at h
  · rename_i hshort
    cases h
    refine iff_of_false ?_ (not_not.mpr ⟨v, d, hv, hd, Nat.not_lt.mp hle, ?_, hshort⟩)
    · -- the id has been taken
      intro heq
      have hsame := congrArg (fun s : StakingState => s.nextUnbondingId.toNat) heq
      simp only at hsame
      omega
    · rw [← hnext]
      exact Machine.toNat_le nextId
  · cases h

end StakingState

/-! ### The handlers -/

variable {payload «from» : String} {params : EconomicsParams} {e : StakingTxError}
  {args : List String} {epoch : UInt64} {res : StakingTxResult}

lemma applyDelegate_error {l l' : Ledger} (h : applyDelegate args «from» l = (.error e, l')) :
    l' = l := by
  unfold applyDelegate at h
  split at h
  · cases h
    rfl
  simp only at h
  split at h
  · cases h
    rfl
  rename_i hcovered
  split at h
  · cases h
    rfl
  -- the debit cannot fail: the balance covers the amount
  obtain ⟨kv, hkv, -⟩ := debitBalance_sum (Nat.not_lt.mp hcovered)
  simp only [hkv] at h
  cases h

lemma applyRegister_error {l l' : Ledger}
    (h : applyRegister args «from» l params = (.error e, l')) : l' = l := by
  unfold applyRegister at h
  split at h
  · cases h
    rfl
  split at h
  · cases h
    rfl
  split at h
  · cases h
    rfl
  split at h
  · cases h
    rfl
  simp only at h
  split at h
  · cases h
    rfl
  split at h
  · cases h
    rfl
  split at h
  · cases h
    rfl
  · cases h

lemma applyDeregister_error {l l' : Ledger} (h : applyDeregister «from» l = (.error e, l')) :
    l' = l := by
  unfold applyDeregister at h
  split at h
  · cases h
    rfl
  simp only at h
  split at h
  · cases h
    rfl
  split at h
  · cases h
    rfl
  · cases h

def UndelegateMark (l : Ledger) (args : List String) («from» : String) : Prop :=
  ∃ validator amount, parseAmountArgs args = .ok (validator, amount) ∧
    l.staking.Undercounts «from» validator amount

def WithdrawMark (l : Ledger) (args : List String) («from» : String) (epoch : UInt64) : Prop :=
  ∃ validator, args.head? = some validator ∧ l.staking.Releases («from», validator) epoch

lemma setStaking_eq_iff (l : Ledger) (staking : StakingState) :
    { l with staking := staking } = l ↔ staking = l.staking := by
  constructor
  · exact fun heq => congrArg Ledger.staking heq
  · rintro rfl
    rfl

lemma applyUndelegate_error {l l' : Ledger}
    (h : applyUndelegate args «from» l params epoch = (.error e, l')) :
    l'.kv = l.kv ∧ (l' = l ↔ ¬ UndelegateMark l args «from») := by
  unfold applyUndelegate at h
  unfold UndelegateMark
  split at h
  · rename_i hargs
    cases h
    simp [hargs]
  rename_i validator amount hargs
  split at h
  · rename_i e' staking hundelegate
    cases h
    refine ⟨rfl, ?_⟩
    rw [setStaking_eq_iff, StakingState.undelegate_error_eq_iff hundelegate, hargs]
    simp
  · cases h

lemma applyWithdraw_error {l l' : Ledger} (h : applyWithdraw args «from» l epoch = (.error e, l')) :
    l'.kv = l.kv ∧ (l' = l ↔ ¬ WithdrawMark l args «from» epoch) := by
  unfold applyWithdraw at h
  unfold WithdrawMark
  cases args with
  | nil =>
    cases h
    simp
  | cons validator args =>
    have hiff := l.staking.withdraw_eq_iff «from» validator epoch
    -- every way to fail comes after the withdrawal has been made
    have hleft : l' = { l with staking := (l.staking.withdraw «from» validator epoch).2 } := by
      simp only at h
      split at h
      · rename_i hwithdraw
        cases h
        rw [hwithdraw]
      · rename_i hwithdraw
        rw [hwithdraw]
        split at h
        · cases h
          rfl
        · split at h
          · cases h
            rfl
          · cases h
    rw [hleft]
    refine ⟨rfl, ?_⟩
    rw [setStaking_eq_iff, hiff]
    simp

/-! ### The entry point -/

def LeavesMark (l : Ledger) (action : String) (args : List String) («from» : String)
    (epoch : UInt64) : Prop :=
  action = "undelegate" ∧ UndelegateMark l args «from» ∨
    action = "withdraw" ∧ WithdrawMark l args «from» epoch

lemma dispatch_error {action : String} {l l' : Ledger}
    (h : dispatch action args «from» l params epoch = (.error e, l')) :
    l'.kv = l.kv ∧ (l' = l ↔ ¬ LeavesMark l action args «from» epoch) := by
  unfold LeavesMark
  unfold dispatch at h
  split at h
  · rw [applyDelegate_error h]
    simp
  · simpa using applyUndelegate_error h
  · simpa using applyWithdraw_error h
  · rw [applyRegister_error h]
    simp
  · rw [applyDeregister_error h]
    simp
  · rename_i hundelegate hwithdraw _ _
    cases h
    refine ⟨rfl, iff_of_true rfl ?_⟩
    rintro (⟨haction, -⟩ | ⟨haction, -⟩)
    · exact hundelegate haction
    · exact hwithdraw haction

def FailureMark (l : Ledger) (payload «from» : String) (epoch : UInt64) : Prop :=
  ∃ action args, parseStakingPayload payload = some (action, args) ∧ «from» ≠ "" ∧
    LeavesMark l action args «from» epoch

lemma tryApplyStakingTx_cases {l l' : Ledger}
    (h : tryApplyStakingTx payload «from» l params epoch = some (res, l')) :
    ∃ action args, parseStakingPayload payload = some (action, args) ∧
      («from» = "" ∧ res.success = false ∧ l' = l ∨
        «from» ≠ "" ∧ (∃ gas, dispatch action args «from» l params epoch = (.ok gas, l') ∧
          res.success = true ∧ res.error = none) ∨
        «from» ≠ "" ∧ ∃ e, dispatch action args «from» l params epoch = (.error e, l') ∧
          res.success = false) := by
  unfold tryApplyStakingTx at h
  obtain ⟨⟨action, args⟩, hparse, h⟩ := Option.bind_eq_some_iff.mp h
  refine ⟨action, args, hparse, ?_⟩
  by_cases hfrom : «from» = ""
  · simp only [if_pos hfrom] at h
    cases h
    exact .inl ⟨hfrom, rfl, rfl⟩
  · simp only [if_neg hfrom] at h
    split at h
    · rename_i gas ledger hdispatch
      cases h
      exact .inr (.inl ⟨hfrom, gas, hdispatch, rfl, rfl⟩)
    · rename_i e ledger hdispatch
      cases h
      exact .inr (.inr ⟨hfrom, e, hdispatch, rfl⟩)

lemma tryApplyStakingTx_failed {l l' : Ledger}
    (h : tryApplyStakingTx payload «from» l params epoch = some (res, l'))
    (hfailed : res.success = false) : ∃ staking, l' = { l with staking := staking } ∧
      (staking = l.staking ↔ ¬ FailureMark l payload «from» epoch) := by
  unfold FailureMark
  obtain ⟨action, args, hparse,
    ⟨hfrom, -, rfl⟩ | ⟨-, gas, -, hok, -⟩ | ⟨hfrom, e, hdispatch, -⟩⟩ := tryApplyStakingTx_cases h
  · exact ⟨l'.staking, rfl, by simp [hfrom]⟩
  · rw [hok] at hfailed
    cases hfailed
  · obtain ⟨hkv, hiff⟩ := dispatch_error hdispatch
    have hl' : l' = { l with staking := l'.staking } := by rw [← hkv]
    refine ⟨l'.staking, hl', ?_⟩
    rw [← setStaking_eq_iff, ← hl', hiff, hparse]
    simp [hfrom]

/-- **A failed staking transaction** leaves the balances and everything else of the `KvState`
alone. -/
theorem tryApplyStakingTx_failed_iff {payload «from» : String} {l l' : Ledger}
    {params : EconomicsParams} {epoch : UInt64} {res : StakingTxResult}
    (h : tryApplyStakingTx payload «from» l params epoch = some (res, l'))
    (hfailed : res.success = false) :
    l'.kv = l.kv ∧ (l' = l ↔ ¬ FailureMark l payload «from» epoch) := by
  obtain ⟨staking, rfl, hiff⟩ := tryApplyStakingTx_failed h hfailed
  refine ⟨rfl, ?_⟩
  rw [setStaking_eq_iff]
  exact hiff

def demoUnbonding (balance : UInt64) : Ledger where
  kv := { balances := .ofList [("alice", balance)] compare }
  staking :=
    { delegations := .ofList [(("alice", "val"), { amount := 5, unbondings := [⟨0, 10, 3⟩] })]
        compare }

/-- In epoch 2 nothing is due: the withdrawal fails and leaves no mark. -/
theorem tryApplyStakingTx_failed_iff_early :
    (tryApplyStakingTx "stake withdraw val" "alice" (demoUnbonding 100) {} 2).map
      (fun out => (out.1.success, decide (out.2 = demoUnbonding 100))) = some (false, true) ∧
    ¬ FailureMark (demoUnbonding 100) "stake withdraw val" "alice" 2 := by
  have hrun : (tryApplyStakingTx "stake withdraw val" "alice" (demoUnbonding 100) {} 2).map
      (fun out => (out.1.success, decide (out.2 = demoUnbonding 100))) = some (false, true) := by
    decide +kernel
  obtain ⟨⟨res, l'⟩, h, hout⟩ := Option.map_eq_some_iff.mp hrun
  obtain ⟨hfailed, hsame⟩ := Prod.mk.inj hout
  exact ⟨hrun, (tryApplyStakingTx_failed_iff h hfailed).2.mp (of_decide_eq_true hsame)⟩

/-- In epoch 3 the balance has no room for the 10 tokens: the withdrawal is reported as failed, and
they are gone. -/
theorem tryApplyStakingTx_failed_drains :
    (tryApplyStakingTx "stake withdraw val" "alice" (demoUnbonding (0 - 1)) {} 3).map
      (fun out => (out.1.success, out.1.error, out.2.kv.balances.getD "alice" 0,
        out.2.staking.delegations[("alice", "val")]?)) =
      some (false, some (.overflow "credit_balance"), 0 - 1,
        some { amount := 5, unbondings := [] }) := by
  decide +kernel

end Iona
