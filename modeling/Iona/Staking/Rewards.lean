import Iona.Staking.State

/-!
# Epoch rewards

`try_distribute_epoch_rewards` of `economics/rewards.rs`.
-/

namespace Iona.Rewards

open List

open Std Machine

/-! ### The arithmetic -/

abbrev U128 := Fin (2 ^ 128)

def satAdd128 (a b : ℕ) : ℕ := min (a + b) u128Max

def satMul128 (a b : ℕ) : ℕ := min (a * b) u128Max

def epochBlocks : UInt64 := 100

def epochsPerYear : ℕ := 52560

def treasuryAddr : String := "treasury"

def maxBps : ℕ := 10000

def mulDivU128 (a b c : ℕ) : ℕ := a / c * b + a % c * b / c

def ratioBps (part whole : ℕ) : ℕ :=
  if whole = 0 then 0
  else min (satAdd128 (satMul128 (part / whole) maxBps) (satMul128 (part % whole) maxBps / whole)) maxBps

def creditBalance (kv : KvState) (addr : String) (amount : ℕ) : ℕ × KvState :=
  if amount = 0 then (0, kv)
  else
    let credit : UInt64 := if amount ≤ u64Max then .ofNat amount else .ofNat u64Max
    let entry := kv.balances.getD addr 0
    if u64Max < entry.toNat + credit.toNat then
      (amount - (u64Max - entry.toNat),
        { kv with balances := kv.balances.insert addr (.ofNat u64Max) })
    else (amount - credit.toNat, { kv with balances := kv.balances.insert addr (entry + credit) })

/-! ### The ledger the distribution reads -/

structure Validator where
  operator : String
  stake : U128
  jailed : Bool := false
  commissionBps : UInt64
  deriving DecidableEq

structure StakingState where
  validators : BTreeMap String Validator := ∅
  delegations : BTreeMap (String × String) U128 := ∅
  deriving DecidableEq

structure EconomicsParams where
  baseInflationBps : UInt64 := 500
  treasuryBps : UInt64 := 500
  deriving DecidableEq

structure RewardConfig where
  autoCompound : Bool := false
  deriving DecidableEq

structure EpochReward where
  epoch : UInt64
  height : UInt64
  totalStaked : ℕ
  inflationMinted : ℕ
  treasuryShare : ℕ
  operatorTotal : ℕ
  delegatorTotal : ℕ
  dust : ℕ
  validatorRewards : BTreeMap String ℕ
  deriving DecidableEq

inductive RewardError where
  | invalidCommission (validator : String) (bps : UInt64)
  | stakeBelowDelegations (validator : String) (stake delegations : ℕ)
  deriving DecidableEq

structure ActiveValidator where
  addr : String
  stake : U128
  commissionBps : UInt64
  deriving DecidableEq

def epochAt (height : UInt64) : UInt64 := height / epochBlocks

def emptyReward (height : UInt64) : EpochReward where
  epoch := epochAt height
  height := height
  totalStaked := 0
  inflationMinted := 0
  treasuryShare := 0
  operatorTotal := 0
  delegatorTotal := 0
  dust := 0
  validatorRewards := ∅

namespace StakingState

def active (s : StakingState) : List ActiveValidator :=
  (s.validators.toList.filter fun e => !e.2.jailed).map fun e => ⟨e.1, e.2.stake, e.2.commissionBps⟩

def totalStaked (s : StakingState) : ℕ :=
  s.active.foldl (fun acc v => satAdd128 acc v.stake) 0

def inflationMinted (s : StakingState) (params : EconomicsParams) : ℕ :=
  mulDivU128 s.totalStaked params.baseInflationBps.toNat maxBps / epochsPerYear

def treasuryShare (s : StakingState) (params : EconomicsParams) : ℕ :=
  mulDivU128 (s.inflationMinted params) params.treasuryBps.toNat maxBps

def distributable (s : StakingState) (params : EconomicsParams) : ℕ :=
  s.inflationMinted params - s.treasuryShare params

def delegationsTo (s : StakingState) (addr : String) : List (String × ℕ) :=
  (s.delegations.toList.filter fun e => e.1.2 = addr).map fun e => (e.1.1, e.2.val)

end StakingState

/-! ### The share of one validator -/

structure Slot where
  addr : String
  distributable : ℕ
  totalStaked : ℕ
  stake : ℕ
  commissionBps : ℕ
  delegations : List (String × ℕ)

namespace Slot

variable (v : Slot)

def delegSum : ℕ := v.delegations.foldl (fun acc d => satAdd128 acc d.2) 0

def selfStake : ℕ := v.stake - v.delegSum

def valTotalReward : ℕ := mulDivU128 v.distributable (ratioBps v.stake v.totalStaked) maxBps

def commission : ℕ := mulDivU128 v.valTotalReward v.commissionBps maxBps

def delegatorPool : ℕ := v.valTotalReward - v.commission

def operatorTotal : ℕ :=
  satAdd128 v.commission (mulDivU128 v.delegatorPool (ratioBps v.selfStake v.stake) maxBps)

def delegatorCredits : List (String × ℕ) :=
  v.delegations.map fun d => (d.1, mulDivU128 v.delegatorPool (ratioBps d.2 v.stake) maxBps)

def delegatorTotal : ℕ := v.delegatorCredits.foldl (fun acc c => satAdd128 acc c.2) 0

def dust : ℕ := v.valTotalReward - satAdd128 v.operatorTotal v.delegatorTotal

end Slot

/-! ### The distribution -/

structure Acc where
  kv : KvState
  staking : StakingState
  operatorTotal : ℕ := 0
  delegatorTotal : ℕ := 0
  dust : ℕ := 0
  validatorRewards : BTreeMap String ℕ := ∅

def creditAll (kv : KvState) (dust : ℕ) : List (String × ℕ) → ℕ × KvState
  | [] => (dust, kv)
  | (addr, amount) :: credits =>
    creditAll (creditBalance kv addr amount).2 (satAdd128 dust (creditBalance kv addr amount).1) credits

def U128.grow (a : U128) (n : ℕ) : U128 :=
  ⟨min (a + n) (2 ^ 128 - 1), by omega⟩

def StakingState.compound (s : StakingState) (addr : String) (reward : ℕ)
    (credits : List (String × ℕ)) : StakingState where
  validators := match s.validators[addr]? with
    | some v => s.validators.insert addr { v with stake := v.stake.grow reward }
    | none => s.validators
  delegations := credits.foldl (fun m c =>
    m.insert (c.1, addr) ((m.getD (c.1, addr) 0).grow c.2)) s.delegations

def StakingState.slot (s : StakingState) (distributable totalStaked : ℕ) (v : ActiveValidator) :
    Slot where
  addr := v.addr
  distributable := distributable
  totalStaked := totalStaked
  stake := v.stake
  commissionBps := v.commissionBps.toNat
  delegations := s.delegationsTo v.addr

def Slot.credits (v : Slot) : List (String × ℕ) := (v.addr, v.operatorTotal) :: v.delegatorCredits

def Acc.pay (config : RewardConfig) (acc : Acc) (v : Slot) : Acc where
  kv := if config.autoCompound then acc.kv
    else (creditAll acc.kv (satAdd128 acc.dust v.dust) v.credits).2
  staking := if config.autoCompound then
      acc.staking.compound v.addr v.valTotalReward v.delegatorCredits
    else acc.staking
  operatorTotal := satAdd128 acc.operatorTotal v.operatorTotal
  delegatorTotal := satAdd128 acc.delegatorTotal v.delegatorTotal
  dust := if config.autoCompound then satAdd128 acc.dust v.dust
    else (creditAll acc.kv (satAdd128 acc.dust v.dust) v.credits).1
  validatorRewards := acc.validatorRewards.insert v.addr v.operatorTotal

def payAll (config : RewardConfig) (distributable totalStaked : ℕ) :
    Acc → List ActiveValidator → Except RewardError Unit × Acc
  | acc, [] => (.ok (), acc)
  | acc, v :: vs =>
    let slot := acc.staking.slot distributable totalStaked v
    if v.stake.val = 0 then payAll config distributable totalStaked acc vs
    else if maxBps < v.commissionBps.toNat then
      (.error (.invalidCommission v.addr v.commissionBps), acc)
    else if v.stake.val < slot.delegSum then
      (.error (.stakeBelowDelegations v.addr v.stake slot.delegSum), acc)
    else payAll config distributable totalStaked (acc.pay config slot) vs

def Acc.start (kv : KvState) (staking : StakingState) (params : EconomicsParams) : Acc where
  kv := (creditBalance kv treasuryAddr (staking.treasuryShare params)).2
  staking := staking
  dust := satAdd128 0 (creditBalance kv treasuryAddr (staking.treasuryShare params)).1

def EpochReward.ofAcc (height : UInt64) (staking : StakingState) (params : EconomicsParams)
    (acc : Acc) : EpochReward where
  epoch := epochAt height
  height := height
  totalStaked := staking.totalStaked
  inflationMinted := staking.inflationMinted params
  treasuryShare := staking.treasuryShare params
  operatorTotal := acc.operatorTotal
  delegatorTotal := acc.delegatorTotal
  dust := acc.dust
  validatorRewards := acc.validatorRewards

def tryDistributeEpochRewards (height : UInt64) (kv : KvState) (staking : StakingState)
    (params : EconomicsParams) (config : RewardConfig) :
    Except RewardError EpochReward × KvState × StakingState :=
  if staking.totalStaked = 0 then (.ok (emptyReward height), kv, staking)
  else match payAll config (staking.distributable params) staking.totalStaked
      (.start kv staking params) staking.active with
    | (.error e, acc) => (.error e, acc.kv, acc.staking)
    | (.ok (), acc) => (.ok (.ofAcc height staking params acc), acc.kv, acc.staking)

/-! ### Floors -/

variable {v : ActiveValidator} {vs : List ActiveValidator} {s : StakingState}

lemma mulDivU128_eq {c : ℕ} (hc : 0 < c) (a b : ℕ) : mulDivU128 a b c = a * b / c := by
  have hsplit : a * b = c * (a / c * b) + a % c * b := by
    conv_lhs => rw [← Nat.div_add_mod a c, Nat.add_mul, Nat.mul_assoc]
  rw [mulDivU128, hsplit, Nat.mul_add_div hc]

lemma mulDivU128_mul_le (a b : ℕ) : mulDivU128 a b maxBps * maxBps ≤ a * b := by
  rw [mulDivU128_eq (by decide)]
  exact Nat.div_mul_le_self _ _

lemma mulDivU128_le {a b : ℕ} (hb : b ≤ maxBps) : mulDivU128 a b maxBps ≤ a :=
  Nat.le_of_mul_le_mul_right ((mulDivU128_mul_le a b).trans (Nat.mul_le_mul_left a hb)) (by decide)

lemma ratioBps_le (part whole : ℕ) : ratioBps part whole ≤ maxBps := by
  unfold ratioBps
  split
  · exact Nat.zero_le _
  · exact Nat.min_le_right _ _

lemma ratioBps_mul_le (part whole : ℕ) : ratioBps part whole * whole ≤ part * maxBps := by
  unfold ratioBps
  split
  · simp
  · calc _ ≤ (part / whole * maxBps + part % whole * maxBps / whole) * whole := by
          refine Nat.mul_le_mul_right _ ((Nat.min_le_left _ _).trans ((Nat.min_le_left _ _).trans ?_))
          exact Nat.add_le_add (Nat.min_le_left _ _) (Nat.div_le_div_right (Nat.min_le_left _ _))
      _ = whole * (part / whole) * maxBps + part % whole * maxBps / whole * whole := by ring
      _ ≤ whole * (part / whole) * maxBps + part % whole * maxBps :=
          Nat.add_le_add_left (Nat.div_mul_le_self _ _) _
      _ = part * maxBps := by rw [← Nat.add_mul, Nat.div_add_mod]

lemma satAdd128_le (a b : ℕ) : satAdd128 a b ≤ u128Max := Nat.min_le_right _ _

lemma foldl_satAdd128 {α : Type*} (f : α → ℕ) (l : List α) {acc : ℕ} (h : acc ≤ u128Max) :
    l.foldl (fun acc x => satAdd128 acc (f x)) acc = min (acc + (l.map f).sum) u128Max :=
  foldl_min_add f u128Max l h

/-! ### Crediting balances -/

def balance (kv : KvState) (addr : String) : ℕ := (kv.balances.getD addr 0).toNat

def balances (kv : KvState) : ℕ := MapSum.sumBy UInt64.toNat kv.balances

lemma balance_le (kv : KvState) (addr : String) : balance kv addr ≤ u64Max :=
  toNat_le _

lemma balances_insert (kv : KvState) (addr : String) (n : UInt64) :
    balances { kv with balances := kv.balances.insert addr n } + balance kv addr =
      balances kv + n.toNat :=
  MapSum.sumBy_insert_getD UInt64.toNat kv.balances addr n rfl

lemma balance_insert (kv : KvState) (addr a : String) (n : UInt64) :
    balance { kv with balances := kv.balances.insert addr n } a =
      if addr = a then n.toNat else balance kv a := by
  simp only [balance, ExtTreeMap.getD_insert, LawfulEqCmp.compare_eq_iff_eq]
  split <;> rfl

lemma creditBalance_spec (kv : KvState) (addr : String) (amount : ℕ) :
    (creditBalance kv addr amount).1 = balance kv addr + amount - u64Max ∧
      balances (creditBalance kv addr amount).2 + (creditBalance kv addr amount).1 =
        balances kv + amount ∧
      ∀ a, balance (creditBalance kv addr amount).2 a =
        if addr = a then min (balance kv addr + amount) u64Max else balance kv a := by
  have hle := balance_le kv addr
  unfold creditBalance
  split
  · rename_i hzero
    refine ⟨by omega, by simp only; omega, fun a => ?_⟩
    split
    · rename_i ha
      subst ha
      simp only
      omega
    · rfl
  · have hmax := toNat_ofNat le_rfl
    -- whatever is capped, the entry and the credit are read as numbers
    set credit : UInt64 :=
      if amount ≤ u64Max then .ofNat amount else .ofNat u64Max with hcredit
    have hnum : credit.toNat = min amount u64Max := by
      rw [hcredit]
      split
      · rename_i hfit
        rw [toNat_ofNat hfit, Nat.min_eq_left hfit]
      · rename_i hfit
        rw [hmax, Nat.min_eq_right (by omega)]
    have hentry : (kv.balances.getD addr 0).toNat = balance kv addr := rfl
    simp only [hentry, hnum]
    split
    · have hsum := balances_insert kv addr (.ofNat u64Max)
      rw [hmax] at hsum
      refine ⟨by omega, by simp only; omega, fun a => ?_⟩
      rw [balance_insert, hmax]
      split <;> omega
    · rename_i hfit
      have hadd : (kv.balances.getD addr 0 + credit).toNat = balance kv addr + credit.toNat := by
        rw [UInt64.toNat_add, hentry, Nat.mod_eq_of_lt]
        have : u64Max < 2 ^ 64 := by decide
        omega
      have hsum := balances_insert kv addr (kv.balances.getD addr 0 + credit)
      rw [hadd, hnum] at hsum
      refine ⟨by omega, by simp only; omega, fun a => ?_⟩
      rw [balance_insert, hadd, hnum]
      split <;> omega

def uncredited (kv : KvState) : List (String × ℕ) → ℕ
  | [] => 0
  | (addr, amount) :: credits =>
    (creditBalance kv addr amount).1 + uncredited (creditBalance kv addr amount).2 credits

def received (credits : List (String × ℕ)) (addr : String) : ℕ :=
  ((credits.filter fun c => c.1 = addr).map Prod.snd).sum

@[simp] lemma received_nil (addr : String) : received [] addr = 0 := rfl

lemma received_cons (c : String × ℕ) (credits : List (String × ℕ)) (addr : String) :
    received (c :: credits) addr = (if c.1 = addr then c.2 else 0) + received credits addr := by
  unfold received
  by_cases h : c.1 = addr
  · simp [h]
  · simp [h]

def credited (kv : KvState) (credits : List (String × ℕ)) : KvState :=
  credits.foldl (fun kv c => (creditBalance kv c.1 c.2).2) kv

lemma creditAll_eq (kv : KvState) {dust : ℕ} (hdust : dust ≤ u128Max)
    (credits : List (String × ℕ)) :
    creditAll kv dust credits = (satAdd128 dust (uncredited kv credits), credited kv credits) := by
  induction credits generalizing kv dust with
  | nil => simp [creditAll, uncredited, credited, satAdd128, hdust]
  | cons c credits ih =>
    rw [creditAll, ih _ (satAdd128_le _ _), uncredited]
    refine Prod.ext ?_ rfl
    simp only [satAdd128]
    omega

lemma uncredited_append (kv : KvState) (cs ds : List (String × ℕ)) :
    uncredited kv (cs ++ ds) = uncredited kv cs + uncredited (credited kv cs) ds := by
  induction cs generalizing kv with
  | nil => simp [uncredited, credited]
  | cons c cs ih =>
    rw [cons_append, uncredited, uncredited, ih, Nat.add_assoc]
    rfl

lemma balances_credited (kv : KvState) (credits : List (String × ℕ)) :
    balances (credited kv credits) + uncredited kv credits =
      balances kv + (credits.map Prod.snd).sum := by
  induction credits generalizing kv with
  | nil => rfl
  | cons c credits ih =>
    have hcredit := (creditBalance_spec kv c.1 c.2).2.1
    have hrest := ih (creditBalance kv c.1 c.2).2
    rw [uncredited, map_cons, sum_cons]
    change balances (credited (creditBalance kv c.1 c.2).2 credits) + _ = _
    omega

lemma uncredited_eq_zero_iff (kv : KvState) (credits : List (String × ℕ)) :
    uncredited kv credits = 0 ↔
      ∀ addr, balance kv addr + received credits addr ≤ u64Max := by
  induction credits generalizing kv with
  | nil => simp [uncredited, balance_le]
  | cons c credits ih =>
    obtain ⟨hrest, -, hbal⟩ := creditBalance_spec kv c.1 c.2
    rw [uncredited, Nat.add_eq_zero_iff, ih]
    simp only [hrest, hbal, received_cons]
    constructor
    · rintro ⟨hfit, hall⟩ addr
      have haddr := hall addr
      split at haddr
      · rename_i heq
        subst heq
        rw [if_pos rfl]
        omega
      · rename_i hne
        rw [if_neg hne]
        omega
    · intro hall
      have hfirst := hall c.1
      rw [if_pos rfl] at hfirst
      refine ⟨by omega, fun addr => ?_⟩
      have haddr := hall addr
      split
      · rename_i heq
        subst heq
        rw [if_pos rfl] at haddr
        omega
      · rename_i hne
        rw [if_neg hne] at haddr
        omega

/-! ### The share of one validator, exactly -/

namespace Slot

variable {v : Slot}

def handed (v : Slot) : ℕ := (v.credits.map Prod.snd).sum

def grown (v : Slot) : ℕ := min v.valTotalReward (u128Max - v.stake)

structure Checked (v : Slot) : Prop where
  stake_ne : v.stake ≠ 0
  commission_le : v.commissionBps ≤ maxBps
  delegSum_le : v.delegSum ≤ v.stake

instance decidableChecked (v : Slot) : Decidable v.Checked :=
  decidable_of_iff (v.stake ≠ 0 ∧ v.commissionBps ≤ maxBps ∧ v.delegSum ≤ v.stake)
    ⟨fun h => ⟨h.1, h.2.1, h.2.2⟩, fun h => ⟨h.1, h.2, h.3⟩⟩

lemma delegSum_eq : v.delegSum = min (v.delegations.map Prod.snd).sum u128Max := by
  rw [delegSum, foldl_satAdd128 _ _ (Nat.zero_le _), Nat.zero_add]

lemma delegatorTotal_eq :
    v.delegatorTotal = min (v.delegatorCredits.map Prod.snd).sum u128Max := by
  rw [delegatorTotal, foldl_satAdd128 _ _ (Nat.zero_le _), Nat.zero_add]

lemma handed_eq : v.handed = v.operatorTotal + (v.delegatorCredits.map Prod.snd).sum := by
  rw [handed, credits, map_cons, sum_cons]

lemma valTotalReward_le : v.valTotalReward ≤ v.distributable :=
  mulDivU128_le (ratioBps_le _ _)

lemma dust_eq (h : v.distributable ≤ u128Max) : v.dust = v.valTotalReward - v.handed := by
  have hreward := valTotalReward_le (v := v)
  rw [dust, handed_eq, delegatorTotal_eq, satAdd128]
  omega

lemma handed_le (h : v.Checked) (hstake : v.stake ≤ u128Max)
    (hcover : (v.delegations.map Prod.snd).sum ≤ v.stake) : v.handed ≤ v.valTotalReward := by
  -- the weights, the operator's own bond first
  set parts : List ℕ := v.selfStake :: v.delegations.map Prod.snd with hparts
  have hsum : parts.sum ≤ v.stake := by
    have hdeleg := delegSum_eq (v := v)
    have hchecked := h.delegSum_le
    rw [hparts, sum_cons, selfStake]
    omega
  have hratios : ∀ l : List ℕ,
      (l.map fun n => ratioBps n v.stake).sum * v.stake ≤ l.sum * maxBps := by
    intro l
    induction l with
    | nil => simp
    | cons n l ih =>
      rw [map_cons, sum_cons, sum_cons, Nat.add_mul, Nat.add_mul]
      exact Nat.add_le_add (ratioBps_mul_le n v.stake) ih
  have hweights : (parts.map fun n => ratioBps n v.stake).sum ≤ maxBps := by
    refine Nat.le_of_mul_le_mul_right ?_ (Nat.pos_of_ne_zero h.stake_ne)
    calc _ ≤ parts.sum * maxBps := hratios parts
      _ ≤ v.stake * maxBps := Nat.mul_le_mul_right _ hsum
      _ = maxBps * v.stake := Nat.mul_comm _ _
  have hcuts : ∀ l : List ℕ,
      (l.map fun n => mulDivU128 v.delegatorPool (ratioBps n v.stake) maxBps).sum * maxBps ≤
        v.delegatorPool * (l.map fun n => ratioBps n v.stake).sum := by
    intro l
    induction l with
    | nil => simp
    | cons n l ih =>
      rw [map_cons, sum_cons, map_cons, sum_cons, Nat.add_mul, Nat.mul_add]
      exact Nat.add_le_add (mulDivU128_mul_le _ _) ih
  have hpool : (parts.map fun n => mulDivU128 v.delegatorPool (ratioBps n v.stake) maxBps).sum ≤
      v.delegatorPool :=
    Nat.le_of_mul_le_mul_right ((hcuts parts).trans (Nat.mul_le_mul_left _ hweights)) (by decide)
  have hcommission : v.commission ≤ v.valTotalReward := mulDivU128_le h.commission_le
  have hself : v.operatorTotal ≤
      v.commission + mulDivU128 v.delegatorPool (ratioBps v.selfStake v.stake) maxBps :=
    Nat.min_le_left _ _
  have hcredits : (v.delegatorCredits.map Prod.snd).sum =
      ((v.delegations.map Prod.snd).map fun n =>
        mulDivU128 v.delegatorPool (ratioBps n v.stake) maxBps).sum := by
    rw [delegatorCredits, List.map_map, List.map_map]
    rfl
  have hpoolEq : v.delegatorPool = v.valTotalReward - v.commission := rfl
  rw [hparts, map_cons, sum_cons] at hpool
  rw [handed_eq, hcredits]
  omega

lemma handed_le_or (h : v.Checked) (hstake : v.stake ≤ u128Max) (htotal : v.totalStaked ≤ u128Max)
    (hle : v.stake ≤ v.totalStaked) :
    v.handed ≤ v.valTotalReward ∨ v.valTotalReward = v.distributable := by
  rcases Nat.le_total (v.delegations.map Prod.snd).sum v.stake with hcover | hover
  · exact .inl (handed_le h hstake hcover)
  · have hchecked := h.delegSum_le
    rw [delegSum_eq] at hchecked
    rcases Nat.lt_or_ge v.stake u128Max with hlt | hge
    · exact .inl (handed_le h hstake (by omega))
    · have hall : v.totalStaked = v.stake := by omega
      have hone : ratioBps v.stake v.totalStaked = maxBps := by
        rw [hall, Nat.le_antisymm hstake hge]
        decide
      refine .inr ?_
      rw [valTotalReward, hone, mulDivU128_eq (by decide), Nat.mul_div_cancel _ (by decide)]

end Slot

/-! ### The loop over the validators -/

def StakingState.slots (s : StakingState) (distributable totalStaked : ℕ)
    (vs : List ActiveValidator) : List Slot :=
  (vs.filter fun v => v.stake.val ≠ 0).map (s.slot distributable totalStaked)

lemma StakingState.slots_cons_of_zero (s : StakingState) (distributable totalStaked : ℕ)
    (hv : v.stake.val = 0) (vs : List ActiveValidator) :
    s.slots distributable totalStaked (v :: vs) = s.slots distributable totalStaked vs := by
  rw [slots, filter_cons_of_neg (by rw [decide_eq_true_eq]; exact not_not.mpr hv)]
  rfl

lemma StakingState.slots_cons (s : StakingState) (distributable totalStaked : ℕ)
    (hv : v.stake.val ≠ 0) (vs : List ActiveValidator) :
    s.slots distributable totalStaked (v :: vs) =
      s.slot distributable totalStaked v :: s.slots distributable totalStaked vs := by
  rw [slots, filter_cons_of_pos (by rw [decide_eq_true_eq]; exact hv)]
  rfl

/-! ### Compounding -/

namespace StakingState

variable {s : StakingState} {addr : String}

def bonded (s : StakingState) : ℕ := MapSum.sumBy (fun v : Validator => v.stake.val) s.validators

lemma slot_compound (reward : ℕ) (credits : List (String × ℕ)) (distributable totalStaked : ℕ)
    (hv : v.addr ≠ addr) :
    (s.compound addr reward credits).slot distributable totalStaked v =
      s.slot distributable totalStaked v := by
  have hfold : ∀ m : BTreeMap (String × String) U128,
      (credits.foldl (fun m c => m.insert (c.1, addr) ((m.getD (c.1, addr) 0).grow c.2)) m).toList.filter
          (fun e => e.1.2 = v.addr) = m.toList.filter fun e => e.1.2 = v.addr := by
    induction credits with
    | nil => exact fun m => rfl
    | cons c credits ih =>
      intro m
      rw [foldl_cons, ih]
      exact MapSum.toList_filter_insert (p := fun k : String × String => k.2 = v.addr) (by simpa using Ne.symm hv) _
  simp only [slot, delegationsTo, compound, hfold]

lemma getElem?_compound {a : String} (reward : ℕ) (credits : List (String × ℕ)) (ha : a ≠ addr) :
    (s.compound addr reward credits).validators[a]? = s.validators[a]? := by
  unfold compound
  cases s.validators[addr]? with
  | none => rfl
  | some w => simp [ExtTreeMap.getElem?_insert, Ne.symm ha]

lemma bonded_compound {w : Validator} (hw : s.validators[addr]? = some w) (reward : ℕ)
    (credits : List (String × ℕ)) :
    (s.compound addr reward credits).bonded =
      s.bonded + min reward (u128Max - w.stake.val) := by
  have hins := MapSum.sumBy_insert (fun v : Validator => v.stake.val) s.validators addr
    { w with stake := w.stake.grow reward }
  have hgrow : (w.stake.grow reward).val = min (w.stake.val + reward) (2 ^ 128 - 1) := rfl
  have hstake := w.stake.isLt
  have hmax : u128Max = 2 ^ 128 - 1 := rfl
  rw [hw, MapSum.share_some] at hins
  unfold bonded compound
  rw [hw]
  simp only at hins ⊢
  omega

end StakingState

structure Fresh (s : StakingState) (vs : List ActiveValidator) : Prop where
  nodup : (vs.map ActiveValidator.addr).Nodup
  bond : ∀ v ∈ vs, ∃ w, s.validators[v.addr]? = some w ∧ w.stake = v.stake

lemma Fresh.tail (h : Fresh s (v :: vs)) : Fresh s vs :=
  ⟨(nodup_cons.mp h.nodup).2, fun u hu => h.bond u (mem_cons_of_mem v hu)⟩

lemma Fresh.ne {u : ActiveValidator} (h : Fresh s (v :: vs)) (hu : u ∈ vs) : u.addr ≠ v.addr := by
  intro heq
  refine (nodup_cons.mp h.nodup).1 ?_
  rw [← heq]
  exact List.mem_map_of_mem hu

lemma Fresh.compound (h : Fresh s (v :: vs)) (reward : ℕ) (credits : List (String × ℕ))
    (distributable totalStaked : ℕ) :
    Fresh (s.compound v.addr reward credits) vs ∧
      (s.compound v.addr reward credits).slots distributable totalStaked vs =
        s.slots distributable totalStaked vs := by
  refine ⟨⟨h.tail.nodup, fun u hu => ?_⟩, map_congr_left fun u hu => ?_⟩
  · rw [StakingState.getElem?_compound _ _ (h.ne hu)]
    exact h.tail.bond u hu
  · exact StakingState.slot_compound _ _ _ _ (h.ne (mem_of_mem_filter hu))

/-! ### The loop over the validators, mode by mode -/

section Loop

variable {config : RewardConfig} {distributable totalStaked : ℕ} {acc acc' : Acc}

structure Totals (acc acc' : Acc) (vs : List Slot) : Prop where
  checked : ∀ v ∈ vs, v.Checked
  operatorTotal :
    acc'.operatorTotal = satAdd128 acc.operatorTotal (vs.map Slot.operatorTotal).sum
  delegatorTotal :
    acc'.delegatorTotal = satAdd128 acc.delegatorTotal (vs.map Slot.delegatorTotal).sum

structure Acc.InRange (acc : Acc) : Prop where
  operatorTotal : acc.operatorTotal ≤ u128Max
  delegatorTotal : acc.delegatorTotal ≤ u128Max
  dust : acc.dust ≤ u128Max

lemma Acc.inRange_pay (config : RewardConfig) (acc : Acc) (v : Slot) : (acc.pay config v).InRange := by
  refine ⟨satAdd128_le _ _, satAdd128_le _ _, ?_⟩
  unfold Acc.pay
  rw [creditAll_eq _ (satAdd128_le _ _)]
  split
  · exact satAdd128_le _ _
  · exact satAdd128_le _ _

lemma Totals.nil (h : acc.InRange) : Totals acc acc [] := by
  refine ⟨by simp, ?_, ?_⟩
  · simp [satAdd128, h.operatorTotal]
  · simp [satAdd128, h.delegatorTotal]

lemma Totals.cons {slot : Slot} {slots : List Slot} (hslot : slot.Checked)
    (h : Totals (acc.pay config slot) acc' slots) : Totals acc acc' (slot :: slots) := by
  refine ⟨?_, ?_, ?_⟩
  · intro v hv
    rcases mem_cons.mp hv with rfl | hv
    · exact hslot
    · exact h.checked v hv
  · have hsum := h.operatorTotal
    simp only [Acc.pay, satAdd128] at hsum ⊢
    rw [map_cons, sum_cons]
    omega
  · have hsum := h.delegatorTotal
    simp only [Acc.pay, satAdd128] at hsum ⊢
    rw [map_cons, sum_cons]
    omega

lemma totals_foldl (config : RewardConfig) {vs : List Slot} (hrange : acc.InRange) (hchecked : ∀ v ∈ vs, v.Checked) :
    Totals acc (vs.foldl (Acc.pay config) acc) vs := by
  induction vs generalizing acc with
  | nil => exact .nil hrange
  | cons v vs ih =>
    obtain ⟨hslot, hrest⟩ := forall_mem_cons.mp hchecked
    exact (ih (Acc.inRange_pay config acc v) hrest).cons hslot

lemma foldl_pay_cash (hmode : config.autoCompound = false) (hrange : acc.InRange)
    (vs : List Slot) :
    (vs.foldl (Acc.pay config) acc).staking = acc.staking ∧
      (vs.foldl (Acc.pay config) acc).kv = credited acc.kv (vs.flatMap Slot.credits) ∧
      (vs.foldl (Acc.pay config) acc).dust = satAdd128 acc.dust
        ((vs.map Slot.dust).sum + uncredited acc.kv (vs.flatMap Slot.credits)) := by
  induction vs generalizing acc with
  | nil => simp [credited, satAdd128, uncredited, hrange.dust]
  | cons v vs ih =>
    obtain ⟨hstaking, hkv, hdust⟩ := ih (Acc.inRange_pay config acc v)
    have hpaid : (acc.pay config v).staking = acc.staking ∧
        (acc.pay config v).kv = credited acc.kv v.credits ∧
        (acc.pay config v).dust =
          satAdd128 (satAdd128 acc.dust v.dust) (uncredited acc.kv v.credits) := by
      rw [Acc.pay, creditAll_eq _ (satAdd128_le _ _)]
      simp [hmode]
    rw [foldl_cons, hstaking, hkv, hdust, hpaid.1, hpaid.2.1, hpaid.2.2, flatMap_cons]
    refine ⟨rfl, by rw [credited, credited, credited, foldl_append], ?_⟩
    rw [uncredited_append, map_cons, sum_cons]
    simp only [satAdd128]
    omega

lemma foldl_pay_compound (hmode : config.autoCompound = true) (hrange : acc.InRange)
    (vs : List Slot) :
    (vs.foldl (Acc.pay config) acc).kv = acc.kv ∧
      (vs.foldl (Acc.pay config) acc).staking = vs.foldl (fun s v =>
        s.compound v.addr v.valTotalReward v.delegatorCredits) acc.staking ∧
      (vs.foldl (Acc.pay config) acc).dust = satAdd128 acc.dust (vs.map Slot.dust).sum := by
  induction vs generalizing acc with
  | nil => simp [satAdd128, hrange.dust]
  | cons v vs ih =>
    obtain ⟨hkv, hstaking, hdust⟩ := ih (Acc.inRange_pay config acc v)
    rw [foldl_cons, foldl_cons, hkv, hstaking, hdust]
    simp only [Acc.pay, hmode, if_true, map_cons, sum_cons, satAdd128, true_and]
    omega

lemma bonded_foldl_compound {s : StakingState} (h : Fresh s vs) (distributable totalStaked : ℕ) :
    ((s.slots distributable totalStaked vs).foldl (fun s v =>
        s.compound v.addr v.valTotalReward v.delegatorCredits) s).bonded =
      s.bonded + ((s.slots distributable totalStaked vs).map Slot.grown).sum := by
  induction vs generalizing s with
  | nil => rfl
  | cons v vs ih =>
    by_cases hzero : v.stake.val = 0
    · rw [StakingState.slots_cons_of_zero _ _ _ hzero]
      exact ih h.tail
    · set slot := s.slot distributable totalStaked v with hslot
      obtain ⟨w, hw, hbond⟩ := h.bond v mem_cons_self
      obtain ⟨hfresh, hslots⟩ := h.compound slot.valTotalReward slot.delegatorCredits
        distributable totalStaked
      have hrest := ih hfresh
      rw [hslots] at hrest
      rw [StakingState.slots_cons _ _ _ hzero, foldl_cons, map_cons, sum_cons,
        ← Nat.add_assoc]
      refine hrest.trans (congrArg (· + _) ?_)
      rw [StakingState.bonded_compound hw, hbond]
      rfl

lemma payAll_spec (h : Fresh acc.staking vs) :
    (payAll config distributable totalStaked acc vs).2 =
        ((acc.staking.slots distributable totalStaked vs).takeWhile (Slot.Checked ·)).foldl
          (Acc.pay config) acc ∧
      ((payAll config distributable totalStaked acc vs).1 = .ok () →
        ∀ v ∈ acc.staking.slots distributable totalStaked vs, v.Checked) := by
  induction vs generalizing acc with
  | nil => simp [payAll, StakingState.slots]
  | cons v vs ih =>
    rw [payAll]
    split
    · rename_i hzero
      rw [StakingState.slots_cons_of_zero _ _ _ hzero]
      exact ih h.tail
    rename_i hstake
    rw [StakingState.slots_cons _ _ _ hstake]
    set slot := acc.staking.slot distributable totalStaked v with hslot
    by_cases hchecked : slot.Checked
    · obtain ⟨hfresh, hslots⟩ : Fresh (acc.pay config slot).staking vs ∧
          (acc.pay config slot).staking.slots distributable totalStaked vs =
            acc.staking.slots distributable totalStaked vs := by
        unfold Acc.pay
        split
        · exact h.compound _ _ _ _
        · exact ⟨h.tail, rfl⟩
      obtain ⟨hpaid, hok⟩ := ih hfresh
      rw [hslots] at hpaid hok
      have hcommission : ¬ maxBps < v.commissionBps.toNat := Nat.not_lt.mpr hchecked.commission_le
      have hdeleg : ¬ v.stake.val < slot.delegSum := Nat.not_lt.mpr hchecked.delegSum_le
      rw [if_neg hcommission, if_neg hdeleg, takeWhile_cons_of_pos (by simpa using hchecked),
        foldl_cons]
      exact ⟨hpaid, fun hdone => forall_mem_cons.mpr ⟨hchecked, hok hdone⟩⟩
    · rw [takeWhile_cons_of_neg (by simpa using hchecked)]
      split
      · simp
      rename_i hcommission
      split
      · simp
      rename_i hdeleg
      exact absurd ⟨hstake, Nat.not_lt.mp hcommission, Nat.not_lt.mp hdeleg⟩ hchecked

lemma payAll_ok (h : Fresh acc.staking vs)
    (hloop : payAll config distributable totalStaked acc vs = (.ok (), acc')) :
    acc' = (acc.staking.slots distributable totalStaked vs).foldl (Acc.pay config) acc ∧
      ∀ v ∈ acc.staking.slots distributable totalStaked vs, v.Checked := by
  obtain ⟨hpaid, hok⟩ := @payAll_spec vs config distributable totalStaked acc h
  rw [hloop] at hpaid hok
  have hchecked := hok rfl
  rw [takeWhile_eq_self_iff.mpr fun v hv => decide_eq_true (hchecked v hv)] at hpaid
  exact ⟨hpaid, hchecked⟩

end Loop

/-! ### Accounting for the epoch -/

namespace StakingState

variable (s : StakingState) (params : EconomicsParams)

def paidSlots : List Slot := s.slots (s.distributable params) s.totalStaked s.active

lemma totalStaked_eq :
    s.totalStaked = min (s.active.map fun v => v.stake.val).sum u128Max := by
  rw [totalStaked, foldl_satAdd128 _ _ (Nat.zero_le _), Nat.zero_add]

lemma totalStaked_le : s.totalStaked ≤ u128Max := by
  rw [totalStaked_eq]
  exact Nat.min_le_right _ _

lemma stake_le_totalStaked (hv : v ∈ s.active) : v.stake.val ≤ s.totalStaked := by
  have hsum := single_le_sum (fun _ _ => Nat.zero_le _) v.stake.val
    (List.mem_map_of_mem (f := fun v : ActiveValidator => v.stake.val) hv)
  have hstake := v.stake.isLt
  have hmax : u128Max = 2 ^ 128 - 1 := rfl
  rw [totalStaked_eq]
  omega

lemma fresh_active : Fresh s s.active := by
  have hkeys : (s.validators.toList.map Prod.fst).Nodup := by
    refine pairwise_map.mpr (s.validators.distinct_keys_toList.imp fun {a b} hab heq => hab ?_)
    rw [heq]
    exact ReflCmp.compare_self
  constructor
  · rw [active, List.map_map]
    exact (hkeys.sublist (List.Sublist.map _ filter_sublist))
  · intro v hv
    obtain ⟨e, he, rfl⟩ := List.mem_map.mp hv
    exact ⟨e.2, ExtTreeMap.mem_toList_iff_getElem?_eq_some.mp (mem_of_mem_filter he), rfl⟩

variable {s params}

lemma inflationMinted_lt (h : params.baseInflationBps.toNat ≤ maxBps) :
    s.inflationMinted params < u128Max := by
  have hannual := (mulDivU128_le (a := s.totalStaked) h).trans s.totalStaked_le
  rw [inflationMinted]
  refine (Nat.div_le_div_right hannual).trans_lt ?_
  decide

lemma treasuryShare_le (h : params.treasuryBps.toNat ≤ maxBps) :
    s.treasuryShare params ≤ s.inflationMinted params := mulDivU128_le h

lemma handed_le_of_sum_le (hchecked : ∀ v ∈ s.paidSlots params, v.Checked)
    (hsum : ((s.paidSlots params).map fun v => v.handed + v.dust).sum ≤ s.distributable params) :
    ∀ v ∈ s.paidSlots params, v.handed ≤ v.valTotalReward := by
  intro v hv
  obtain ⟨u, hu, hslot⟩ := List.mem_map.mp hv
  have hpool : v.distributable = s.distributable params := by rw [← hslot]; rfl
  have hstake : v.stake ≤ u128Max := by
    rw [← hslot]
    exact Nat.le_pred_of_lt u.stake.isLt
  have htotal : v.totalStaked ≤ u128Max := by
    rw [← hslot]
    exact s.totalStaked_le
  have hle : v.stake ≤ v.totalStaked := by
    rw [← hslot]
    exact s.stake_le_totalStaked (mem_of_mem_filter hu)
  rcases Slot.handed_le_or (hchecked v hv) hstake htotal hle with hok | hall
  · exact hok
  · have hmem := single_le_sum (fun _ _ => Nat.zero_le _) (v.handed + v.dust)
      (List.mem_map_of_mem (f := fun v : Slot => v.handed + v.dust) hv)
    omega

lemma sum_parts {vs : List Slot} (hrange : ∀ v ∈ vs, v.distributable ≤ u128Max)
    (h : ∀ v ∈ vs, v.handed ≤ v.valTotalReward) :
    (vs.map fun v => v.handed + v.dust).sum = (vs.map Slot.valTotalReward).sum := by
  refine congrArg List.sum (map_congr_left fun v hv => ?_)
  rw [Slot.dust_eq (hrange v hv)]
  exact Nat.add_sub_cancel' (h v hv)

end StakingState

lemma satAdd128_sum_min (l : List ℕ) (acc : ℕ) :
    satAdd128 acc (l.map fun n => min n u128Max).sum = satAdd128 acc l.sum := by
  induction l generalizing acc with
  | nil => rfl
  | cons n l ih =>
    have := ih (acc + n)
    simp only [satAdd128, map_cons, sum_cons] at this ⊢
    omega

def Accounted (kv : KvState) (s : StakingState) (params : EconomicsParams) (config : RewardConfig) :
    Prop :=
  (∀ v ∈ s.paidSlots params, v.handed ≤ v.valTotalReward) ∧
    if config.autoCompound then
      ((s.paidSlots params).map Slot.valTotalReward).sum +
          (balance kv treasuryAddr + s.treasuryShare params - u64Max) =
        s.distributable params ∧
      ((s.paidSlots params).map fun v => v.grown + (v.valTotalReward - v.handed)).sum =
        s.distributable params
    else
      ((s.paidSlots params).map Slot.valTotalReward).sum = s.distributable params ∧
      ∀ addr, balance kv addr +
        received ((treasuryAddr, s.treasuryShare params) ::
          (s.paidSlots params).flatMap Slot.credits) addr ≤ u64Max

lemma sum_credits (vs : List Slot) :
    ((vs.flatMap Slot.credits).map Prod.snd).sum = (vs.map Slot.handed).sum := by
  induction vs with
  | nil => rfl
  | cons v vs ih =>
    rw [flatMap_cons, map_append, sum_append, ih, map_cons, sum_cons]
    rfl

lemma sum_handed (vs : List Slot) :
    (vs.map Slot.handed).sum = (vs.map Slot.operatorTotal).sum +
      (vs.map fun v => (v.delegatorCredits.map Prod.snd).sum).sum := by
  rw [← sum_map_add]
  exact congrArg List.sum (map_congr_left fun v _ => Slot.handed_eq)

lemma Totals.reported {acc acc' : Acc} {vs : List Slot} (h : Totals acc acc' vs)
    (hop : acc.operatorTotal = 0) (hdel : acc.delegatorTotal = 0) {lost minted share : ℕ}
    (hminted : minted < u128Max) :
    share + acc'.operatorTotal + acc'.delegatorTotal + min lost u128Max = minted ↔
      share + (vs.map Slot.handed).sum + lost = minted := by
  have hsum := sum_handed vs
  have hop' : acc'.operatorTotal = min (vs.map Slot.operatorTotal).sum u128Max := by
    rw [h.operatorTotal, hop, satAdd128, Nat.zero_add]
  have hdel' : acc'.delegatorTotal =
      min (vs.map fun v => (v.delegatorCredits.map Prod.snd).sum).sum u128Max := by
    have hmin : vs.map Slot.delegatorTotal =
        (vs.map fun v => (v.delegatorCredits.map Prod.snd).sum).map fun n => min n u128Max := by
      rw [List.map_map]
      exact map_congr_left fun v _ => Slot.delegatorTotal_eq
    rw [h.delegatorTotal, hmin, satAdd128_sum_min, hdel, satAdd128, Nat.zero_add]
  omega

section Modes

variable {kv : KvState} {s : StakingState} {params : EconomicsParams} {config : RewardConfig}
  {acc : Acc}

lemma inRange_start : (Acc.start kv s params).InRange :=
  ⟨Nat.zero_le _, Nat.zero_le _, satAdd128_le _ _⟩

lemma distributable_le (hminted : s.inflationMinted params < u128Max) :
    ∀ v ∈ s.paidSlots params, v.distributable ≤ u128Max := by
  intro v hv
  obtain ⟨u, -, rfl⟩ := List.mem_map.mp hv
  change s.inflationMinted params - s.treasuryShare params ≤ u128Max
  omega

lemma parts_of_sum_le (hminted : s.inflationMinted params < u128Max)
    (hchecked : ∀ v ∈ s.paidSlots params, v.Checked)
    (hsum : ((s.paidSlots params).map Slot.handed).sum + ((s.paidSlots params).map Slot.dust).sum ≤
      s.distributable params) :
    (∀ v ∈ s.paidSlots params, v.handed ≤ v.valTotalReward) ∧
      ((s.paidSlots params).map Slot.handed).sum + ((s.paidSlots params).map Slot.dust).sum =
        ((s.paidSlots params).map Slot.valTotalReward).sum := by
  rw [← sum_map_add] at hsum ⊢
  have hle := StakingState.handed_le_of_sum_le hchecked hsum
  exact ⟨hle, StakingState.sum_parts (distributable_le hminted) hle⟩

lemma parts_of_handed_le (hminted : s.inflationMinted params < u128Max)
    (hle : ∀ v ∈ s.paidSlots params, v.handed ≤ v.valTotalReward) :
    ((s.paidSlots params).map Slot.handed).sum + ((s.paidSlots params).map Slot.dust).sum =
      ((s.paidSlots params).map Slot.valTotalReward).sum := by
  rw [← sum_map_add]
  exact StakingState.sum_parts (distributable_le hminted) hle

def AddsUp (kv : KvState) (s : StakingState) (params : EconomicsParams) (acc : Acc) : Prop :=
  s.treasuryShare params + acc.operatorTotal + acc.delegatorTotal + acc.dust =
      s.inflationMinted params ∧
    ((balances acc.kv : ℤ) - balances kv) + ((acc.staking.bonded : ℤ) - s.bonded) =
      s.inflationMinted params - acc.dust

lemma addsUp_cash_iff (hminted : s.inflationMinted params < u128Max)
    (hshare : s.treasuryShare params ≤ s.inflationMinted params)
    (hmode : config.autoCompound = false)
    (hloop : payAll config (s.distributable params) s.totalStaked (.start kv s params) s.active =
      (.ok (), acc)) :
    AddsUp kv s params acc ↔ Accounted kv s params config := by
  obtain ⟨-, hgained, -⟩ := creditBalance_spec kv treasuryAddr (s.treasuryShare params)
  have hrange : (Acc.start kv s params).InRange := inRange_start
  obtain ⟨hacc, hchecked⟩ := payAll_ok s.fresh_active hloop
  have htotals : Totals _ acc (s.paidSlots params) := hacc ▸ totals_foldl config hrange hchecked
  obtain ⟨hstaking, hkv, hdust⟩ := foldl_pay_cash hmode hrange (s.paidSlots params)
  change acc = (s.paidSlots params).foldl (Acc.pay config) (.start kv s params) at hacc
  rw [← hacc] at hkv hstaking hdust
  change acc.dust = satAdd128 (satAdd128 0 _) (((s.paidSlots params).map Slot.dust).sum +
    uncredited _ ((s.paidSlots params).flatMap Slot.credits)) at hdust
  have hpool : s.distributable params = s.inflationMinted params - s.treasuryShare params := rfl
  -- the credits of the treasury and of the slots, as one list
  have hall := balances_credited kv ((treasuryAddr, s.treasuryShare params) ::
    (s.paidSlots params).flatMap Slot.credits)
  set lost := uncredited kv ((treasuryAddr, s.treasuryShare params) ::
    (s.paidSlots params).flatMap Slot.credits) with hlost
  have hkv' : balances acc.kv = balances (credited kv ((treasuryAddr, s.treasuryShare params) ::
      (s.paidSlots params).flatMap Slot.credits)) := by
    rw [hkv]
    rfl
  rw [map_cons, sum_cons, sum_credits, ← hkv'] at hall
  have hdust' : acc.dust = min (((s.paidSlots params).map Slot.dust).sum + lost) u128Max := by
    have hsplit : lost = (creditBalance kv treasuryAddr (s.treasuryShare params)).1 +
        uncredited (Acc.start kv s params).kv ((s.paidSlots params).flatMap Slot.credits) := rfl
    rw [hdust, hsplit]
    simp only [satAdd128]
    omega
  have hbonded : acc.staking.bonded = s.bonded := by
    rw [hstaking]
    rfl
  simp only [AddsUp, Accounted, hmode, Bool.false_eq_true, if_false]
  rw [hdust', ← uncredited_eq_zero_iff, ← hlost, hbonded, htotals.reported rfl rfl hminted]
  constructor
  · rintro ⟨hsum, hgrown⟩
    obtain ⟨hle, hexact⟩ := parts_of_sum_le hminted htotals.checked (by omega)
    exact ⟨hle, by omega, by omega⟩
  · rintro ⟨hle, hused, hnone⟩
    have hexact := parts_of_handed_le hminted hle
    exact ⟨by omega, by omega⟩

lemma addsUp_compound_iff (hminted : s.inflationMinted params < u128Max)
    (hshare : s.treasuryShare params ≤ s.inflationMinted params)
    (hmode : config.autoCompound = true)
    (hloop : payAll config (s.distributable params) s.totalStaked (.start kv s params) s.active =
      (.ok (), acc)) :
    AddsUp kv s params acc ↔ Accounted kv s params config := by
  obtain ⟨hrest, hgained, -⟩ := creditBalance_spec kv treasuryAddr (s.treasuryShare params)
  have hrange : (Acc.start kv s params).InRange := inRange_start
  obtain ⟨hacc, hchecked⟩ := payAll_ok s.fresh_active hloop
  have htotals : Totals _ acc (s.paidSlots params) := hacc ▸ totals_foldl config hrange hchecked
  obtain ⟨hkv, hstaking, hdust⟩ := foldl_pay_compound hmode hrange (s.paidSlots params)
  change acc = (s.paidSlots params).foldl (Acc.pay config) (.start kv s params) at hacc
  rw [← hacc] at hkv hstaking hdust
  change acc.kv = (creditBalance kv treasuryAddr (s.treasuryShare params)).2 at hkv
  have hbonded : acc.staking.bonded = s.bonded + ((s.paidSlots params).map Slot.grown).sum :=
    hstaking ▸ bonded_foldl_compound s.fresh_active (s.distributable params) s.totalStaked
  have hpool : s.distributable params = s.inflationMinted params - s.treasuryShare params := rfl
  have hdust' : acc.dust = min (((s.paidSlots params).map Slot.dust).sum +
      (creditBalance kv treasuryAddr (s.treasuryShare params)).1) u128Max := by
    rw [hdust]
    change satAdd128 (satAdd128 0 _) ((s.paidSlots params).map Slot.dust).sum = _
    simp only [satAdd128]
    omega
  have hgrowth : ((s.paidSlots params).map fun v => v.grown + (v.valTotalReward - v.handed)).sum =
      ((s.paidSlots params).map Slot.grown).sum + ((s.paidSlots params).map Slot.dust).sum := by
    rw [← sum_map_add]
    refine congrArg List.sum (map_congr_left fun v hv => ?_)
    rw [Slot.dust_eq (distributable_le hminted v hv)]
  simp only [AddsUp, Accounted, hmode, if_true]
  rw [hdust', hgrowth, ← hrest, hbonded, hkv, htotals.reported rfl rfl hminted]
  constructor
  · rintro ⟨hsum, hgrown⟩
    obtain ⟨hle, hexact⟩ := parts_of_sum_le hminted htotals.checked (by omega)
    exact ⟨hle, by omega, by omega⟩
  · rintro ⟨hle, hused, hgrown⟩
    have hexact := parts_of_handed_le hminted hle
    exact ⟨by omega, by omega⟩

lemma accounted_of_zero (hzero : s.totalStaked = 0) : Accounted kv s params config := by
  have hminted : s.inflationMinted params = 0 := by
    simp [StakingState.inflationMinted, mulDivU128, hzero]
  have hshare : s.treasuryShare params = 0 := by
    simp [StakingState.treasuryShare, mulDivU128, hminted]
  have hpool : s.distributable params = 0 := by
    simp [StakingState.distributable, hminted]
  have hslots : s.paidSlots params = [] := by
    refine map_eq_nil_iff.mpr (filter_eq_nil_iff.mpr fun v hv => ?_)
    have := s.stake_le_totalStaked hv
    rw [decide_eq_true_eq, not_not]
    omega
  have hbalance := balance_le kv treasuryAddr
  unfold Accounted
  rw [hslots, hshare, hpool]
  refine ⟨by simp, ?_⟩
  split
  · exact ⟨by simp only [map_nil, sum_nil]; omega, rfl⟩
  · refine ⟨rfl, fun addr => ?_⟩
    simp [received_cons, balance_le]

end Modes

/-- **Epoch rewards** are paid in full and no more, exactly if no validator hands out more than its
part and the parts and what they leave make up the pool. -/
theorem rewards_accounted_iff {height : UInt64} {kv kv' : KvState} {s s' : StakingState}
    {params : EconomicsParams} {config : RewardConfig} {report : EpochReward}
    (hinflation : params.baseInflationBps.toNat ≤ maxBps)
    (htreasury : params.treasuryBps.toNat ≤ maxBps)
    (h : tryDistributeEpochRewards height kv s params config = (.ok report, kv', s')) :
    (report.treasuryShare + report.operatorTotal + report.delegatorTotal + report.dust =
        report.inflationMinted ∧
      ((balances kv' : ℤ) - balances kv) + ((s'.bonded : ℤ) - s.bonded) =
        report.inflationMinted - report.dust) ↔
      Accounted kv s params config := by
  have hminted := StakingState.inflationMinted_lt (s := s) hinflation
  have hshare := StakingState.treasuryShare_le (s := s) htreasury
  unfold tryDistributeEpochRewards at h
  split at h
  · rename_i hzero
    cases h
    exact iff_of_true ⟨rfl, by simp [emptyReward]⟩ (accounted_of_zero hzero)
  · split at h
    · cases h
    · rename_i acc hloop
      cases h
      cases hmode : config.autoCompound with
      | false => exact addsUp_cash_iff hminted hshare hmode hloop
      | true => exact addsUp_compound_iff hminted hshare hmode hloop

def alone : StakingState where
  validators := (∅ : BTreeMap String Validator).insert "alice"
    { operator := "alice", stake := 15000000000000, commissionBps := 1000 }
  delegations := (∅ : BTreeMap (String × String) U128).insert ("carol", "alice") 5000000000000

lemma accounted_alone : Accounted {} alone {} {} := by
  have hfits := (uncredited_eq_zero_iff {} ((treasuryAddr, alone.treasuryShare {}) ::
    (alone.paidSlots {}).flatMap Slot.credits)).mp (by decide +kernel)
  refine ⟨by decide +kernel, ?_⟩
  rw [if_neg (by decide)]
  exact ⟨by decide +kernel, hfits⟩

theorem rewards_accounted_alone : ∃ report kv' s',
    tryDistributeEpochRewards 100 {} alone {} {} = (.ok report, kv', s') ∧
      0 < report.inflationMinted ∧
      report.treasuryShare + report.operatorTotal + report.delegatorTotal + report.dust =
        report.inflationMinted :=
  ⟨_, _, _, rfl, by decide +kernel,
    ((rewards_accounted_iff (by decide) (by decide) rfl).mpr accounted_alone).1⟩

def thirds : StakingState where
  validators := ((∅ : BTreeMap String Validator).insert "alice"
      { operator := "alice", stake := 1000000000000, commissionBps := 0 }).insert "bob"
      { operator := "bob", stake := 1000000000000, commissionBps := 0 } |>.insert "carol"
      { operator := "carol", stake := 1000000000000, commissionBps := 0 }

/-- **A third is 3333 basis points**: one part in ten thousand of the pool is minted, paid to nobody
and reported nowhere. -/
theorem third_of_pool_unreported : ∃ report kv' s',
    tryDistributeEpochRewards 100 {} thirds {} {} = (.ok report, kv', s') ∧
      report.dust = 0 ∧
      report.treasuryShare + report.operatorTotal + report.delegatorTotal + report.dust + 273 =
        report.inflationMinted :=
  ⟨_, _, _, rfl, by decide +kernel⟩

end Iona.Rewards
