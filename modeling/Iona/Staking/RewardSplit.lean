import Iona.Staking.Rewards

/-!
# How the rewards of an epoch are split, and what a rejected distribution leaves behind

The module documentation of `economics/rewards.rs` gives a validator `distributable × val_stake /
total_staked` and a delegator `delegator_pool × deleg_amount / val_stake`; the code goes through a
ratio in basis points and rounds twice.
-/

namespace Iona.Rewards

open Std Machine MapSum

local instance neZero128 : NeZero (2 ^ 128) := ⟨by decide⟩

def StakingState.due (s : StakingState) (params : EconomicsParams) : List Slot :=
  (s.paidSlots params).takeWhile (Slot.Checked ·)

variable {s : StakingState}

lemma distribute_snd (hpos : s.totalStaked ≠ 0) (height : UInt64) (kv : KvState)
    (params : EconomicsParams) (config : RewardConfig) :
    (tryDistributeEpochRewards height kv s params config).2 =
      (((s.due params).foldl (Acc.pay config) (.start kv s params)).kv,
        ((s.due params).foldl (Acc.pay config) (.start kv s params)).staking) := by
  have hpaid := (@payAll_spec s.active config (s.distributable params) s.totalStaked
    (.start kv s params) s.fresh_active).1
  change _ = (s.due params).foldl (Acc.pay config) (.start kv s params) at hpaid
  rw [← hpaid, tryDistributeEpochRewards, if_neg hpos]
  split <;> simp [*]

lemma StakingState.mem_due {params : EconomicsParams} {v : Slot} (hv : v ∈ s.due params) :
    v.Checked ∧ ∃ u ∈ s.active, v =
      s.slot (s.distributable params) s.totalStaked u := by
  obtain ⟨u, hu, hslot⟩ := List.mem_map.mp ((List.takeWhile_sublist _).mem hv)
  refine ⟨by simpa using List.mem_takeWhile_imp hv, u, List.mem_of_mem_filter hu, hslot.symm⟩

/-! ### Proportional shares -/

def CarryFree (pool part whole : ℕ) : Prop :=
  pool * (part * maxBps / whole) % maxBps * whole + pool * (part * maxBps % whole) < maxBps * whole

instance decidableCarryFree (pool part whole : ℕ) : Decidable (CarryFree pool part whole) :=
  inferInstanceAs (Decidable (_ < _))

lemma nested_div_eq_iff {m whole : ℕ} (hm : 0 < m) (hwhole : 0 < whole) (pool part : ℕ) :
    pool * (part * m / whole) / m = pool * part / whole ↔
      pool * (part * m / whole) % m * whole + pool * (part * m % whole) < m * whole := by
  set q := part * m / whole
  set r := part * m % whole
  have hsplit : pool * part * m = m * whole * (pool * q / m) + (pool * q % m * whole + pool * r) :=
    calc pool * part * m = pool * (whole * q + r) := by rw [Nat.div_add_mod, Nat.mul_assoc]
      _ = whole * (pool * q) + pool * r := by ring
      _ = whole * (m * (pool * q / m) + pool * q % m) + pool * r := by rw [Nat.div_add_mod]
      _ = _ := by ring
  have hone : pool * part / whole =
      pool * q / m + (pool * q % m * whole + pool * r) / (m * whole) := by
    rw [← Nat.mul_div_mul_right _ _ hm, hsplit, Nat.mul_comm whole m,
      Nat.mul_add_div (Nat.mul_pos hm hwhole)]
  rw [hone, left_eq_add, Nat.div_eq_zero_iff_lt (Nat.mul_pos hm hwhole)]

lemma ratioBps_eq {part whole : ℕ} (hle : part ≤ whole) (hfit : part * maxBps ≤ u128Max) :
    ratioBps part whole = part * maxBps / whole := by
  rcases Nat.eq_zero_or_pos whole with rfl | hpos
  · simp [ratioBps]
  have hsplit : part * maxBps = whole * (part / whole * maxBps) + part % whole * maxBps := by
    conv_lhs => rw [← Nat.div_add_mod part whole, Nat.add_mul, Nat.mul_assoc]
  have hwhole : part / whole * maxBps ≤ u128Max :=
    (Nat.mul_le_mul_right _ (Nat.div_le_self _ _)).trans hfit
  have hrest : part % whole * maxBps ≤ u128Max :=
    (Nat.mul_le_mul_right _ (Nat.mod_le _ _)).trans hfit
  have hsum : part / whole * maxBps + part % whole * maxBps / whole = part * maxBps / whole := by
    rw [hsplit, Nat.mul_add_div hpos]
  have hcap : part * maxBps / whole ≤ maxBps := by
    rw [Nat.div_le_iff_le_mul_add_pred hpos]
    have := Nat.mul_le_mul_right maxBps hle
    omega
  rw [ratioBps, if_neg hpos.ne', satMul128, satMul128, Nat.min_eq_left hwhole, Nat.min_eq_left hrest,
    satAdd128, hsum, Nat.min_eq_left ((Nat.div_le_self _ _).trans hfit), Nat.min_eq_left hcap]

lemma share_eq_iff {pool part whole : ℕ} (hpos : 0 < whole) (hle : part ≤ whole)
    (hfit : part * maxBps ≤ u128Max) :
    mulDivU128 pool (ratioBps part whole) maxBps = pool * part / whole ↔
      CarryFree pool part whole := by
  rw [mulDivU128_eq (by decide), ratioBps_eq hle hfit]
  exact nested_div_eq_iff (by decide) hpos pool part

namespace Slot

structure Proportional (v : Slot) : Prop where
  reward : v.valTotalReward = v.distributable * v.stake / v.totalStaked
  credits : v.delegatorCredits = v.delegations.map fun d => (d.1, v.delegatorPool * d.2 / v.stake)

def documentedPool (v : Slot) : ℕ :=
  v.distributable * v.stake / v.totalStaked -
    v.distributable * v.stake / v.totalStaked * v.commissionBps / maxBps

structure Even (v : Slot) : Prop where
  reward : CarryFree v.distributable v.stake v.totalStaked
  credits : ∀ d ∈ v.delegations, CarryFree v.documentedPool d.2 v.stake

variable {v : Slot}

lemma delegation_le (h : v.Checked) (hstake : v.stake < u128Max) {d : String × ℕ}
    (hd : d ∈ v.delegations) : d.2 ≤ v.stake := by
  have hsum := List.single_le_sum (fun _ _ => Nat.zero_le _) d.2 (List.mem_map_of_mem (f := Prod.snd) hd)
  have hchecked := h.delegSum_le
  rw [delegSum_eq] at hchecked
  omega

lemma proportional_iff (h : v.Checked) (hle : v.stake ≤ v.totalStaked)
    (hfit : v.stake * maxBps ≤ u128Max) : v.Proportional ↔ v.Even := by
  have hpos := Nat.pos_of_ne_zero h.stake_ne
  have hsmall : v.stake < u128Max := by
    refine Nat.lt_of_lt_of_le ?_ hfit
    rw [maxBps]
    omega
  have hreward := @share_eq_iff v.distributable _ _ (hpos.trans_le hle) hle hfit
  -- once the reward is the documented one, so is the pool the delegators share
  have hcredits : ∀ pool, v.delegatorPool = pool →
      (v.delegatorCredits = v.delegations.map (fun d => (d.1, v.delegatorPool * d.2 / v.stake)) ↔
        ∀ d ∈ v.delegations, CarryFree pool d.2 v.stake) := by
    rintro pool rfl
    rw [delegatorCredits, List.map_inj_left]
    refine forall₂_congr fun d hd => ?_
    have hd' := delegation_le h hsmall hd
    rw [← share_eq_iff hpos hd' ((Nat.mul_le_mul_right _ hd').trans hfit), Prod.mk.injEq, eq_self,
      true_and]
  have hpool : v.valTotalReward = v.distributable * v.stake / v.totalStaked →
      v.delegatorPool = v.documentedPool := by
    intro heq
    rw [delegatorPool, commission, mulDivU128_eq (by decide), heq]
    rfl
  constructor
  · intro hp
    exact ⟨hreward.mp hp.reward, (hcredits _ (hpool hp.reward)).mp hp.credits⟩
  · intro he
    have heq := hreward.mpr he.reward
    exact ⟨heq, (hcredits _ (hpool heq)).mpr he.credits⟩

end Slot

/-- **The documented split** is paid exactly if the two roundings of every share carry nothing. -/
theorem rewards_proportional_iff {s : StakingState} {params : EconomicsParams}
    (hfit : ∀ v ∈ s.due params, v.stake * maxBps ≤ u128Max) :
    (∀ v ∈ s.due params, v.Proportional) ↔ ∀ v ∈ s.due params, v.Even := by
  refine forall₂_congr fun v hv => ?_
  obtain ⟨hchecked, u, hu, rfl⟩ := StakingState.mem_due hv
  exact Slot.proportional_iff hchecked (s.stake_le_totalStaked hu) (hfit _ hv)

def half : StakingState where
  validators := ((∅ : BTreeMap String Validator).insert "alice"
      { operator := "alice", stake := 1000000000000, commissionBps := 1000 }).insert "bob"
      { operator := "bob", stake := 1000000000000, commissionBps := 0 }
  delegations := (∅ : BTreeMap (String × String) U128).insert ("carol", "alice") 500000000000

theorem rewards_proportional_half :
    (half.due {}).length = 2 ∧ ∀ v ∈ half.due {}, v.Proportional := by
  refine ⟨by decide +kernel, (rewards_proportional_iff ?_).mpr fun v hv => ⟨?_, ?_⟩⟩
  · decide +kernel
  · revert v
    decide +kernel
  · revert v
    decide +kernel

/-- **A third of the pool is paid as 3333 basis points of it.** -/
theorem third_not_proportional : ∃ v ∈ thirds.due {}, v.stake * maxBps ≤ u128Max ∧
    v.valTotalReward = 903638 ∧ v.distributable * v.stake / v.totalStaked = 903729 := by
  decide +kernel

/-! ### Rejected distributions -/

lemma creditBalance_full {kv : KvState} {addr : String} {amount : ℕ} (hpos : amount ≠ 0)
    (hfull : balance kv addr = u64Max) : (creditBalance kv addr amount).2 = kv := by
  have hentry : kv.balances[addr]? = some (.ofNat u64Max) := by
    unfold balance at hfull
    rw [ExtTreeMap.getD_eq_getD_getElem?] at hfull
    cases hbal : kv.balances[addr]? with
    | none =>
      rw [hbal] at hfull
      cases hfull
    | some n =>
      rw [hbal, Option.getD_some] at hfull
      rw [← hfull, UInt64.ofNat_toNat]
  have hcredit : u64Max < (kv.balances.getD addr 0).toNat + (if amount ≤ u64Max then
      UInt64.ofNat amount else .ofNat u64Max).toNat := by
    change u64Max < balance kv addr + _
    split
    · rename_i hfit
      rw [hfull, toNat_ofNat hfit]
      omega
    · rw [hfull, toNat_ofNat le_rfl]
      decide
  simp only [creditBalance, if_neg hpos, if_pos hcredit, insert_self hentry]

lemma creditBalance_keeps_or_grows (kv : KvState) (addr : String) (amount : ℕ) :
    (creditBalance kv addr amount).2 = kv ∧ (amount = 0 ∨ balance kv addr = u64Max) ∨
      balances kv < balances (creditBalance kv addr amount).2 := by
  obtain ⟨hrest, hsum, -⟩ := creditBalance_spec kv addr amount
  have hle := balance_le kv addr
  by_cases hzero : amount = 0
  · exact .inl ⟨by rw [creditBalance, if_pos hzero], .inl hzero⟩
  by_cases hfull : balance kv addr = u64Max
  · exact .inl ⟨creditBalance_full hzero hfull, .inr hfull⟩
  · exact .inr (by omega)

lemma creditBalance_eq_self_iff (kv : KvState) (addr : String) (amount : ℕ) :
    (creditBalance kv addr amount).2 = kv ↔ amount = 0 ∨ balance kv addr = u64Max := by
  rcases creditBalance_keeps_or_grows kv addr amount with h | hgrow
  · exact iff_of_true h.1 h.2
  · refine iff_of_false (fun heq => ?_) fun hor => ?_
    · rw [heq] at hgrow
      exact Nat.lt_irrefl _ hgrow
    · have hspec := creditBalance_spec kv addr amount
      have hle := balance_le kv addr
      omega

lemma credited_eq_self_iff (kv : KvState) (credits : List (String × ℕ)) :
    credited kv credits = kv ↔
      ∀ c ∈ credits, c.2 = 0 ∨ balance kv c.1 = u64Max := by
  have hstep : ∀ (kv : KvState) (c : String × ℕ), (creditBalance kv c.1 c.2).2 = kv ∨
      balances kv < balances (creditBalance kv c.1 c.2).2 := fun kv c =>
    (creditBalance_keeps_or_grows kv c.1 c.2).imp_left And.left
  rw [credited, foldl_eq_self_iff hstep]
  exact forall₂_congr fun c _ => creditBalance_eq_self_iff kv c.1 c.2

lemma U128.grow_eq_iff (a : U128) (n : ℕ) : a.grow n = a ↔ n = 0 ∨ a.val = u128Max := by
  have hlt := a.isLt
  have hmax : u128Max = 2 ^ 128 - 1 := rfl
  rw [Fin.ext_iff]
  change min (a.val + n) (2 ^ 128 - 1) = a.val ↔ _
  omega

lemma U128.lt_grow {a : U128} {n : ℕ} (h : a.grow n ≠ a) : a.val < (a.grow n).val := by
  have hlt := a.isLt
  have hne : (a.grow n).val ≠ a.val := fun heq => h (Fin.ext heq)
  change min (a.val + n) (2 ^ 128 - 1) ≠ a.val at hne
  change a.val < min (a.val + n) (2 ^ 128 - 1)
  omega

namespace StakingState

def raise (addr : String) (m : BTreeMap (String × String) U128) (c : String × ℕ) :
    BTreeMap (String × String) U128 :=
  m.insert (c.1, addr) ((m.getD (c.1, addr) 0).grow c.2)

lemma raise_keeps_or_grows (addr : String) (m : BTreeMap (String × String) U128)
    (c : String × ℕ) : raise addr m c = m ∨
      sumBy (fun a : U128 => a.val + 1) m <
        sumBy (fun a : U128 => a.val + 1) (raise addr m c) := by
  refine insert_keeps_or_grows _ (Nat.succ_pos _) fun w hw => ?_
  rw [ExtTreeMap.getD_eq_getD_getElem?, hw, Option.getD_some]
  by_cases heq : w.grow c.2 = w
  · exact .inl heq.symm
  · exact .inr (Nat.succ_lt_succ (U128.lt_grow heq))

lemma compound_delegations (s : StakingState) (addr : String) (reward : ℕ)
    (credits : List (String × ℕ)) :
    (s.compound addr reward credits).delegations = credits.foldl (raise addr) s.delegations := rfl

def weight (s : StakingState) : ℕ :=
  sumBy (fun v : Validator => v.stake.val + 1) s.validators +
    sumBy (fun a : U128 => a.val + 1) s.delegations

lemma compound_keeps_or_grows (s : StakingState) (addr : String) (reward : ℕ)
    (credits : List (String × ℕ)) : s.compound addr reward credits = s ∨
      s.weight < (s.compound addr reward credits).weight := by
  have hvalidators : (s.compound addr reward credits).validators = s.validators ∨
      sumBy (fun v : Validator => v.stake.val + 1) s.validators <
        sumBy (fun v : Validator => v.stake.val + 1)
          (s.compound addr reward credits).validators := by
    unfold compound
    cases hv : s.validators[addr]? with
    | none => exact .inl rfl
    | some v =>
      refine insert_keeps_or_grows _ (Nat.succ_pos _) fun w hw => ?_
      rw [hv, Option.some.injEq] at hw
      subst hw
      by_cases heq : v.stake.grow reward = v.stake
      · exact .inl (by rw [heq])
      · exact .inr (Nat.succ_lt_succ (U128.lt_grow heq))
  have hdelegations := foldl_keeps_or_grows (raise_keeps_or_grows addr) credits s.delegations
  rw [← compound_delegations s addr reward credits] at hdelegations
  unfold weight
  rcases hvalidators with hv | hv
  · rcases hdelegations with ⟨-, hd⟩ | hd
    · exact .inl (by rw [StakingState.mk.injEq]; exact ⟨hv, hd⟩)
    · exact .inr (by rw [hv]; omega)
  · rcases hdelegations with ⟨-, hd⟩ | hd
    · exact .inr (by rw [hd]; omega)
    · exact .inr (by omega)

lemma mem_delegationsTo {s : StakingState} {addr : String} {d : String × ℕ}
    (hd : d ∈ s.delegationsTo addr) : ∃ a, s.delegations[(d.1, addr)]? = some a ∧ a.val = d.2 := by
  obtain ⟨e, he, rfl⟩ := List.mem_map.mp hd
  obtain ⟨hmem, haddr⟩ := List.mem_filter.mp he
  have haddr : e.1.2 = addr := by simpa using haddr
  refine ⟨e.2, ?_, rfl⟩
  rw [← haddr]
  exact ExtTreeMap.mem_toList_iff_getElem?_eq_some.mp hmem

end StakingState

def Slot.share (v : Slot) (amount : ℕ) : ℕ :=
  mulDivU128 v.delegatorPool (ratioBps amount v.stake) maxBps

lemma StakingState.compound_eq_self_iff {u : ActiveValidator} (hu : u ∈ s.active) {v : Slot}
    {distributable totalStaked : ℕ} (hv : v = s.slot distributable totalStaked u) :
    s.compound v.addr v.valTotalReward v.delegatorCredits = s ↔
      (v.valTotalReward = 0 ∨ v.stake = u128Max) ∧
        ∀ d ∈ v.delegations, v.share d.2 = 0 ∨ d.2 = u128Max := by
  obtain ⟨w, hw, hbond⟩ := s.fresh_active.bond u hu
  have haddr : s.validators[v.addr]? = some w := by rw [hv]; exact hw
  have hstake : w.stake.val = v.stake := by rw [hbond, hv]; rfl
  have hvalidators : (s.compound v.addr v.valTotalReward v.delegatorCredits).validators =
      s.validators ↔ v.valTotalReward = 0 ∨ v.stake = u128Max := by
    unfold compound
    rw [haddr]
    simp only
    rw [insert_eq_self_iff, haddr, Option.some.injEq, ← hstake, ← U128.grow_eq_iff]
    constructor
    · intro heq
      exact (congrArg Validator.stake heq).symm
    · intro heq
      rw [heq]
  have hdelegations : (s.compound v.addr v.valTotalReward v.delegatorCredits).delegations =
      s.delegations ↔ ∀ d ∈ v.delegations, v.share d.2 = 0 ∨ d.2 = u128Max := by
    rw [compound_delegations, foldl_eq_self_iff (raise_keeps_or_grows v.addr),
      Slot.delegatorCredits, List.forall_mem_map]
    refine forall₂_congr fun d hd => ?_
    have hmem : d ∈ s.delegationsTo v.addr := by rwa [hv] at hd ⊢
    obtain ⟨a, ha, hval⟩ := mem_delegationsTo hmem
    rw [raise, insert_eq_self_iff, ExtTreeMap.getD_eq_getD_getElem?, ha, Option.getD_some,
      Option.some.injEq, eq_comm, U128.grow_eq_iff, hval]
    rfl
  rw [← hvalidators, ← hdelegations, ← StakingState.mk.injEq]

def Settled (kv : KvState) (s : StakingState) (params : EconomicsParams) (config : RewardConfig) :
    Prop :=
  if config.autoCompound then
    (s.treasuryShare params = 0 ∨ balance kv treasuryAddr = u64Max) ∧
      ∀ v ∈ s.due params, (v.valTotalReward = 0 ∨ v.stake = u128Max) ∧
        ∀ d ∈ v.delegations, v.share d.2 = 0 ∨ d.2 = u128Max
  else ∀ c ∈ (treasuryAddr, s.treasuryShare params) :: (s.due params).flatMap Slot.credits,
    c.2 = 0 ∨ balance kv c.1 = u64Max

/-- **Rejected distributions** leave the state as it was exactly if nothing is paid before the first
malformed validator. -/
theorem rejected_unchanged_iff {height : UInt64} {kv kv' : KvState} {s s' : StakingState}
    {params : EconomicsParams} {config : RewardConfig} {e : RewardError}
    (h : tryDistributeEpochRewards height kv s params config = (.error e, kv', s')) :
    kv' = kv ∧ s' = s ↔ Settled kv s params config := by
  have hpos : s.totalStaked ≠ 0 := by
    intro hzero
    rw [tryDistributeEpochRewards, if_pos hzero] at h
    cases h
  have hsnd := distribute_snd hpos height kv params config
  rw [h, Prod.mk.injEq] at hsnd
  have hrange : (Acc.start kv s params).InRange := inRange_start
  unfold Settled
  cases hmode : config.autoCompound with
  | false =>
    obtain ⟨hstaking, hkv, -⟩ := foldl_pay_cash hmode hrange (s.due params)
    rw [hsnd.1, hsnd.2, hstaking, hkv, if_neg (by simp), ← credited_eq_self_iff]
    exact and_iff_left rfl
  | true =>
    obtain ⟨hkv, hstaking, -⟩ := foldl_pay_compound hmode hrange (s.due params)
    rw [hsnd.1, hsnd.2, hstaking, hkv, if_pos rfl]
    refine and_congr (creditBalance_eq_self_iff _ _ _) ?_
    refine (foldl_eq_self_iff (fun s v => s.compound_keeps_or_grows _ _ _) _ s).trans ?_
    refine forall₂_congr fun v hv => ?_
    obtain ⟨-, u, hu, hslot⟩ := StakingState.mem_due hv
    exact StakingState.compound_eq_self_iff hu hslot

def tiny : StakingState where
  validators := (∅ : BTreeMap String Validator).insert "alice"
    { operator := "alice", stake := 1000, commissionBps := 10001 }

theorem rejected_unchanged_tiny : ∃ e kv' s',
    tryDistributeEpochRewards 100 {} tiny {} {} = (.error e, kv', s') ∧ kv' = {} ∧ s' = tiny := by
  refine ⟨_, _, _, rfl, (@rejected_unchanged_iff 100 {} _ tiny _ {} {} _ rfl).mpr ?_⟩
  rw [Settled, if_neg (by decide)]
  decide +kernel

def malformed : StakingState where
  validators := (∅ : BTreeMap String Validator).insert "alice"
    { operator := "alice", stake := 15000000000000, commissionBps := 10001 }

/-- **A rejected distribution pays the treasury.** -/
theorem rejected_pays_treasury : ∃ e kv' s',
    tryDistributeEpochRewards 100 {} malformed {} {} = (.error e, kv', s') ∧
      balance {} treasuryAddr = 0 ∧ balance kv' treasuryAddr = 713470 :=
  ⟨_, _, _, rfl, by decide +kernel⟩

end Iona.Rewards
