import Iona.Staking.State
import Iona.Lib.Floats
import Iona.Lib.Trace

/-!
# The liquid staking pool

`LstPool` of `lst.rs`.
-/

namespace Iona.Lst

open Std Machine MapSum List

variable {F : Type}

def rateScalingFactor : ℕ := 10 ^ 18

structure LstConfig (F : Type) where
  minStake : UInt64 := 1000
  tunnelingCoefficient : F
  operationDecoherence : F
  minCoherence : F

inductive LstError (F : Type) where
  | amountTooSmall (min got : UInt64)
  | insufficientShares (have_ need : ℕ)
  | zeroShares
  | decoherence (coherence threshold : F)
  | integerOverflow
  deriving DecidableEq

abbrev Withdrawal := String × UInt64 × UInt64

structure LstPool (F : Type) where
  totalStaked : UInt64
  totalShares : ℕ
  balances : BTreeMap String ℕ
  pendingWithdrawals : List Withdrawal
  coherence : F
  entanglementEntropy : F
  totalRewardsDistributed : UInt64
  totalStakeOperations : UInt64
  totalUnstakeOperations : UInt64

namespace LstPool

def exchangeRate (p : LstPool F) : ℕ :=
  if p.totalShares = 0 ∨ p.totalStaked = 0 then rateScalingFactor
  else min (p.totalStaked.toNat * rateScalingFactor) u128Max / p.totalShares

def balanceOf (p : LstPool F) (addr : String) : ℕ := p.balances.getD addr 0

/-- `shares_to_iona`; the cast to `u64` drops the high bits. -/
def sharesToIona (p : LstPool F) (shares : ℕ) : UInt64 :=
  .ofNat (min (shares * p.exchangeRate) u128Max / rateScalingFactor)

/-! ### What a share is worth -/

def assets (p : LstPool F) : ℕ :=
  p.totalStaked.toNat + (p.pendingWithdrawals.map fun w => w.2.1.toNat).sum

structure Sound (p : LstPool F) : Prop where
  books : sumBy id p.balances = p.totalShares
  price : p.totalShares ≤ p.totalStaked.toNat

variable {p : LstPool F}

lemma share_balances (p : LstPool F) (a : String) :
    share id p.balances[a]? = p.balanceOf a :=
  share_getD id p.balances a rfl

lemma scale_pos : 0 < rateScalingFactor := by decide

lemma scaled_le (n : UInt64) : n.toNat * rateScalingFactor ≤ u128Max := by
  have := n.toNat_lt
  unfold rateScalingFactor u128Max
  omega

namespace Sound

variable {p : LstPool F}

variable {shares : ℕ}

lemma balanceOf_le (h : p.Sound) (a : String) : p.balanceOf a ≤ p.totalShares := by
  rw [← share_balances, ← h.books]
  exact share_le_sumBy id p.balances a

lemma rate_ge (h : p.Sound) : rateScalingFactor ≤ p.exchangeRate := by
  unfold exchangeRate
  split
  · exact le_rfl
  · rename_i hzero
    rw [Nat.min_eq_left (scaled_le _), Nat.le_div_iff_mul_le (by omega), Nat.mul_comm]
    exact Nat.mul_le_mul_right _ h.price

lemma rate_le (h : p.Sound) :
    p.totalShares * p.exchangeRate ≤ p.totalStaked.toNat * rateScalingFactor := by
  unfold exchangeRate
  split
  · exact Nat.mul_le_mul_right _ h.price
  · rw [Nat.min_eq_left (scaled_le _)]
    exact Nat.mul_div_le _ _

lemma toNat_sharesToIona (h : p.Sound) (hle : shares ≤ p.totalShares) :
    (p.sharesToIona shares).toNat = shares * p.exchangeRate / rateScalingFactor := by
  have hworth : shares * p.exchangeRate ≤ p.totalStaked.toNat * rateScalingFactor :=
    (Nat.mul_le_mul_right _ hle).trans h.rate_le
  have hfit : shares * p.exchangeRate / rateScalingFactor ≤ p.totalStaked.toNat :=
    (Nat.div_le_div_right hworth).trans (Nat.mul_div_cancel _ scale_pos).le
  rw [sharesToIona, Nat.min_eq_left (hworth.trans (scaled_le _)),
    toNat_ofNat (hfit.trans (toNat_le _))]

lemma sharesToIona_add_le (h : p.Sound) (hle : shares ≤ p.totalShares) :
    (p.sharesToIona shares).toNat + (p.totalShares - shares) ≤ p.totalStaked.toNat := by
  refine Nat.le_of_mul_le_mul_right ?_ scale_pos
  rw [h.toNat_sharesToIona hle]
  calc (shares * p.exchangeRate / rateScalingFactor + (p.totalShares - shares)) * rateScalingFactor
      = shares * p.exchangeRate / rateScalingFactor * rateScalingFactor +
          (p.totalShares - shares) * rateScalingFactor := Nat.add_mul _ _ _
    _ ≤ shares * p.exchangeRate + (p.totalShares - shares) * p.exchangeRate :=
        Nat.add_le_add (Nat.div_mul_le_self _ _) (Nat.mul_le_mul_left _ h.rate_ge)
    _ = p.totalShares * p.exchangeRate := by rw [← Nat.add_mul, Nat.add_sub_cancel' hle]
    _ ≤ p.totalStaked.toNat * rateScalingFactor := h.rate_le

lemma solvent (h : p.Sound) :
    sumBy (fun bal => (p.sharesToIona bal).toNat) p.balances ≤ p.totalStaked.toNat := by
  have hfloor : ∀ bal, (p.sharesToIona bal).toNat * rateScalingFactor ≤ bal * p.exchangeRate := by
    intro bal
    have hcast : (p.sharesToIona bal).toNat ≤ bal * p.exchangeRate / rateScalingFactor :=
      (Nat.mod_le _ _).trans (Nat.div_le_div_right (Nat.min_le_left _ _))
    exact (Nat.mul_le_mul_right _ hcast).trans (Nat.div_mul_le_self _ _)
  have hsum : ∀ l : List (String × ℕ),
      (l.map fun e => (p.sharesToIona e.2).toNat).sum * rateScalingFactor ≤
        (l.map fun e => id e.2).sum * p.exchangeRate := by
    intro l
    induction l with
    | nil => simp
    | cons e l ih =>
      rw [map_cons, sum_cons, map_cons, sum_cons, Nat.add_mul, Nat.add_mul]
      exact Nat.add_le_add (hfloor e.2) ih
  refine Nat.le_of_mul_le_mul_right ?_ scale_pos
  calc sumBy (fun bal => (p.sharesToIona bal).toNat) p.balances * rateScalingFactor
      ≤ sumBy id p.balances * p.exchangeRate := hsum p.balances.toList
    _ = p.totalShares * p.exchangeRate := by rw [h.books]
    _ ≤ p.totalStaked.toNat * rateScalingFactor := h.rate_le

lemma sub_books (h : p.Sound) {staker : String} (hle : shares ≤ p.balanceOf staker) :
    sumBy id (p.balances.insert staker (p.balanceOf staker - shares)) =
      p.totalShares - shares := by
  have hins := sumBy_insert id p.balances staker (p.balanceOf staker - shares)
  have hbal := h.balanceOf_le staker
  rw [share_balances, h.books] at hins
  simp only [id_eq] at hins
  omega

lemma add_books (h : sumBy id p.balances = p.totalShares) (staker : String) (shares : ℕ) :
    sumBy id (p.balances.insert staker (p.balanceOf staker + shares)) =
      p.totalShares + shares := by
  have hins := sumBy_insert id p.balances staker (p.balanceOf staker + shares)
  rw [share_balances, h] at hins
  simp only [id_eq] at hins
  omega

end Sound

variable [F64 F]

/-! ### The calls -/

def empty : LstPool F where
  totalStaked := 0
  totalShares := 0
  balances := ∅
  pendingWithdrawals := []
  coherence := F64.lit 1
  entanglementEntropy := F64.lit 0
  totalRewardsDistributed := 0
  totalStakeOperations := 0
  totalUnstakeOperations := 0

def applyDecoherence (p : LstPool F) (config : LstConfig F) : LstPool F :=
  let coherence := max (p.coherence * (F64.lit 1 - config.operationDecoherence)) (F64.lit 0)
  { p with
    coherence := coherence
    entanglementEntropy := -coherence * max (F64.ln coherence) (F64.lit 0) }

def mint (p : LstPool F) (staker : String) (shares : ℕ) (config : LstConfig F) :
    Except (LstError F) ℕ × LstPool F :=
  match checkedAdd128 p.totalShares shares with
  | none => (.error .integerOverflow, p)
  | some totalShares =>
    match checkedAdd128 (p.balanceOf staker) shares with
    | none => (.error .integerOverflow, { p with totalShares := totalShares })
    | some bal =>
      let p := { p with totalShares := totalShares, balances := p.balances.insert staker bal }
      match checked (p.totalStakeOperations.toNat + 1) with
      | none => (.error .integerOverflow, p)
      | some n => (.ok shares, applyDecoherence { p with totalStakeOperations := n } config)

def stake (p : LstPool F) (staker : String) (ionaAmount : UInt64) (config : LstConfig F) :
    Except (LstError F) ℕ × LstPool F :=
  if ionaAmount < config.minStake then (.error (.amountTooSmall config.minStake ionaAmount), p)
  else if F64.lt p.coherence config.minCoherence then
    (.error (.decoherence p.coherence config.minCoherence), p)
  else if u128Max < ionaAmount.toNat * rateScalingFactor ∨ p.exchangeRate = 0 then
    (.error .integerOverflow, p)
  else if ionaAmount.toNat * rateScalingFactor / p.exchangeRate = 0 then (.error .zeroShares, p)
  else match checked (p.totalStaked.toNat + ionaAmount.toNat) with
    | none => (.error .integerOverflow, p)
    | some totalStaked =>
      mint { p with totalStaked := totalStaked } staker
        (ionaAmount.toNat * rateScalingFactor / p.exchangeRate) config

def effectiveUnbonding (p : LstPool F) (unbondingBlocks : UInt64) (config : LstConfig F) : UInt64 :=
  let tunneling :=
    config.tunnelingCoefficient * max (F64.lit 1 - p.entanglementEntropy) (F64.lit 0)
  F64.toU64 (F64.ofNat unbondingBlocks.toNat * max tunneling (F64.lit (1 / 2)))

def enqueue (p : LstPool F) (staker : String) (ionaAmount currentHeight unbondingBlocks : UInt64)
    (config : LstConfig F) : Except (LstError F) UInt64 × LstPool F :=
  match checked
      (currentHeight.toNat + (p.effectiveUnbonding unbondingBlocks config).toNat + 1) with
  | none => (.error .integerOverflow, p)
  | some completionHeight =>
    let p := { p with
      pendingWithdrawals := p.pendingWithdrawals ++ [(staker, ionaAmount, completionHeight)] }
    match checked (p.totalUnstakeOperations.toNat + 1) with
    | none => (.error .integerOverflow, p)
    | some n => (.ok ionaAmount, applyDecoherence { p with totalUnstakeOperations := n } config)

def requestUnstake (p : LstPool F) (staker : String) (shares : ℕ)
    (currentHeight unbondingBlocks : UInt64) (config : LstConfig F) :
    Except (LstError F) UInt64 × LstPool F :=
  if p.balanceOf staker < shares then
    (.error (.insufficientShares (p.balanceOf staker) shares), p)
  else if F64.lt p.coherence config.minCoherence then
    (.error (.decoherence p.coherence config.minCoherence), p)
  else
    let ionaAmount := p.sharesToIona shares
    let balances := p.balances.insert staker (p.balanceOf staker - shares)
    if p.totalShares < shares then (.error .integerOverflow, { p with balances := balances })
    else if p.totalStaked < ionaAmount then
      (.error .integerOverflow,
        { p with balances := balances, totalShares := p.totalShares - shares })
    else
      enqueue
        { p with
          balances := balances
          totalShares := p.totalShares - shares
          totalStaked := p.totalStaked - ionaAmount }
        staker ionaAmount currentHeight unbondingBlocks config

def processWithdrawals (p : LstPool F) (currentHeight : UInt64) (config : LstConfig F) :
    List (String × UInt64) × LstPool F :=
  let ready := p.pendingWithdrawals.filter fun w => currentHeight ≥ w.2.2
  let p := { p with
    pendingWithdrawals := p.pendingWithdrawals.filter fun w => ¬ currentHeight ≥ w.2.2 }
  (ready.map fun w => (w.1, w.2.1), if ready.isEmpty then p else p.applyDecoherence config)

def addRewards (p : LstPool F) (rewardIona : UInt64) : Except (LstError F) Unit × LstPool F :=
  match checked (p.totalStaked.toNat + rewardIona.toNat) with
  | none => (.error .integerOverflow, p)
  | some totalStaked =>
    let p := { p with totalStaked := totalStaked }
    match checked (p.totalRewardsDistributed.toNat + rewardIona.toNat) with
    | none => (.error .integerOverflow, p)
    | some n => (.ok (),
      { p with
        totalRewardsDistributed := n
        coherence := min (p.coherence * F64.lit 1.0001) (F64.lit 1)
        entanglementEntropy := max (p.entanglementEntropy * F64.lit 0.9999) (F64.lit 0) })

def transfer (p : LstPool F) (src dst : String) (shares : ℕ) (config : LstConfig F) :
    Except (LstError F) Unit × LstPool F :=
  if src = dst then (.ok (), p)
  else if p.balanceOf src < shares then
    (.error (.insufficientShares (p.balanceOf src) shares), p)
  else
    let balances := p.balances.insert src (p.balanceOf src - shares)
    match checkedAdd128 (balances.getD dst 0) shares with
    | none => (.error .integerOverflow, { p with balances := balances })
    | some bal => (.ok (), applyDecoherence { p with balances := balances.insert dst bal } config)

/-! ### What each call does -/

@[simp] lemma assets_applyDecoherence (p : LstPool F) (config : LstConfig F) :
    (p.applyDecoherence config).assets = p.assets := rfl

def paid {ε α : Type} (result : Except ε α) (amount : UInt64) : ℕ :=
  match result with
  | .ok _ => amount.toNat
  | .error _ => 0

lemma mint_spec (hbooks : sumBy id p.balances = p.totalShares) {shares : ℕ}
    (hprice : p.totalShares + shares ≤ p.totalStaked.toNat) (staker : String) (config : LstConfig F) :
    (p.mint staker shares config).2.Sound ∧ (p.mint staker shares config).2.assets = p.assets ∧
      (p.totalStakeOperations.toNat < u64Max →
        ∃ n, (p.mint staker shares config).1 = .ok n) := by
  -- the shares never outgrow the stake, so neither 128-bit sum overflows
  have hbal : p.balanceOf staker ≤ p.totalShares := by
    rw [← share_balances, ← hbooks]
    exact share_le_sumBy id p.balances staker
  have hmax := toNat_le p.totalStaked
  have hroom : u64Max ≤ u128Max := by decide
  have hshares : checkedAdd128 p.totalShares shares = some (p.totalShares + shares) :=
    if_pos (by omega)
  have hbalance : checkedAdd128 (p.balanceOf staker) shares = some (p.balanceOf staker + shares) :=
    if_pos (by omega)
  have hsound : Sound { p with
      totalShares := p.totalShares + shares
      balances := p.balances.insert staker (p.balanceOf staker + shares) } :=
    ⟨Sound.add_books hbooks staker shares, hprice⟩
  unfold mint
  rw [hshares]
  simp only [hbalance]
  cases hops : checked (p.totalStakeOperations.toNat + 1) with
  | none =>
    refine ⟨hsound, rfl, fun hlt => ?_⟩
    exact absurd (show p.totalStakeOperations.toNat + 1 ≤ u64Max by omega)
      (Nat.not_lt.mpr (Nat.le_of_lt_succ (checked_eq_none_iff.mp hops)))
  | some n => exact ⟨⟨hsound.books, hsound.price⟩, rfl, fun _ => ⟨shares, rfl⟩⟩

lemma stake_spec (h : p.Sound) (staker : String) (ionaAmount : UInt64) (config : LstConfig F) :
    (p.stake staker ionaAmount config).2.Sound ∧
      (p.totalStakeOperations.toNat < u64Max →
        (p.stake staker ionaAmount config).2.assets =
          p.assets + paid (p.stake staker ionaAmount config).1 ionaAmount) := by
  unfold stake
  split
  · exact ⟨h, fun _ => rfl⟩
  split
  · exact ⟨h, fun _ => rfl⟩
  split
  · exact ⟨h, fun _ => rfl⟩
  split
  · exact ⟨h, fun _ => rfl⟩
  cases hsum : checked (p.totalStaked.toNat + ionaAmount.toNat) with
  | none => exact ⟨h, fun _ => rfl⟩
  | some totalStaked =>
    have htotal := checked_eq_some_iff.mp hsum
    -- the rate is at least one, so no more shares are minted than IONA is staked
    have hshares : ionaAmount.toNat * rateScalingFactor / p.exchangeRate ≤ ionaAmount.toNat := by
      refine Nat.div_le_of_le_mul ?_
      rw [Nat.mul_comm p.exchangeRate]
      exact Nat.mul_le_mul_left _ h.rate_ge
    have hprice := h.price
    generalize ionaAmount.toNat * rateScalingFactor / p.exchangeRate = shares at hshares ⊢
    obtain ⟨hsound, hassets, hok⟩ := mint_spec (p := { p with totalStaked := totalStaked })
      h.books (show p.totalShares + shares ≤ totalStaked.toNat by omega) staker config
    refine ⟨hsound, fun hops => ?_⟩
    obtain ⟨n, hn⟩ := hok hops
    rw [hassets, hn]
    simp only [paid, assets]
    omega

lemma enqueue_spec (h : p.Sound) (staker : String)
    (ionaAmount currentHeight unbondingBlocks : UInt64) (config : LstConfig F) :
    (p.enqueue staker ionaAmount currentHeight unbondingBlocks config).2.Sound ∧
      (currentHeight.toNat + (p.effectiveUnbonding unbondingBlocks config).toNat + 1 ≤
          u64Max →
        (p.enqueue staker ionaAmount currentHeight unbondingBlocks config).2.assets =
          p.assets + ionaAmount.toNat) := by
  have hassets : ∀ height, p.totalStaked.toNat +
      ((p.pendingWithdrawals ++ [(staker, ionaAmount, height)]).map
        fun w : Withdrawal => w.2.1.toNat).sum =
        p.assets + ionaAmount.toNat := by
    intro height
    rw [map_append, sum_append, map_singleton, sum_singleton, ← Nat.add_assoc,
      assets]
  unfold enqueue
  cases hheight : checked
      (currentHeight.toNat + (p.effectiveUnbonding unbondingBlocks config).toNat + 1) with
  | none =>
    refine ⟨h, fun hfit => ?_⟩
    exact absurd hfit (Nat.not_le.mpr (checked_eq_none_iff.mp hheight))
  | some completionHeight =>
    simp only
    cases checked (p.totalUnstakeOperations.toNat + 1) with
    | none => exact ⟨⟨h.books, h.price⟩, fun _ => hassets completionHeight⟩
    | some n => exact ⟨⟨h.books, h.price⟩, fun _ => hassets completionHeight⟩

lemma requestUnstake_spec (h : p.Sound) (staker : String) (shares : ℕ)
    (currentHeight unbondingBlocks : UInt64) (config : LstConfig F) :
    (p.requestUnstake staker shares currentHeight unbondingBlocks config).2.Sound ∧
      (currentHeight.toNat + (p.effectiveUnbonding unbondingBlocks config).toNat + 1 ≤
          u64Max →
        (p.requestUnstake staker shares currentHeight unbondingBlocks config).2.assets =
          p.assets) := by
  unfold requestUnstake
  split
  · exact ⟨h, fun _ => rfl⟩
  rename_i hbal
  split
  · exact ⟨h, fun _ => rfl⟩
  have hle : shares ≤ p.totalShares := (Nat.not_lt.mp hbal).trans (h.balanceOf_le staker)
  have hcover := h.sharesToIona_add_le hle
  have hstaked : p.sharesToIona shares ≤ p.totalStaked := UInt64.le_iff_toNat_le.mpr (by omega)
  have hsub := UInt64.toNat_sub_of_le _ _ hstaked
  simp only [if_neg (Nat.not_lt.mpr hle), if_neg (UInt64.not_lt.mpr hstaked)]
  obtain ⟨hsound, hassets⟩ := enqueue_spec (p := { p with
      balances := p.balances.insert staker (p.balanceOf staker - shares)
      totalShares := p.totalShares - shares
      totalStaked := p.totalStaked - p.sharesToIona shares })
    ⟨h.sub_books (Nat.not_lt.mp hbal), by simp only [hsub]; omega⟩ staker (p.sharesToIona shares)
    currentHeight unbondingBlocks config
  refine ⟨hsound, fun hfit => ?_⟩
  rw [hassets hfit]
  simp only [assets, hsub]
  omega

def released (ws : List (String × UInt64)) : ℕ := (ws.map fun w => w.2.toNat).sum

lemma processWithdrawals_spec (h : p.Sound) (currentHeight : UInt64) (config : LstConfig F) :
    (p.processWithdrawals currentHeight config).2.Sound ∧
      (p.processWithdrawals currentHeight config).2.assets +
        released (p.processWithdrawals currentHeight config).1 = p.assets := by
  have hsplit : ∀ ws : List Withdrawal,
      ((ws.filter fun w => ¬ currentHeight ≥ w.2.2).map fun w => w.2.1.toNat).sum +
        ((ws.filter fun w => currentHeight ≥ w.2.2).map fun w => w.2.1.toNat).sum =
        (ws.map fun w => w.2.1.toNat).sum := by
    intro ws
    induction ws with
    | nil => rfl
    | cons w ws ih =>
      by_cases hw : currentHeight ≥ w.2.2
      · simp only [filter_cons, hw, decide_true, decide_false, not_true_eq_false, if_true,
          Bool.false_eq_true, if_false, map_cons, sum_cons]
        omega
      · simp only [filter_cons, hw, decide_true, decide_false, not_false_eq_true, if_true,
          Bool.false_eq_true, if_false, map_cons, sum_cons]
        omega
  have hall := hsplit p.pendingWithdrawals
  unfold processWithdrawals
  simp only
  split
  · refine ⟨⟨h.books, h.price⟩, ?_⟩
    simp only [assets, released, map_map, Function.comp_def]
    omega
  · refine ⟨⟨h.books, h.price⟩, ?_⟩
    rw [assets_applyDecoherence]
    simp only [assets, released, map_map, Function.comp_def]
    omega

lemma addRewards_spec (h : p.Sound) (rewardIona : UInt64) :
    (p.addRewards rewardIona).2.Sound ∧
      (p.totalRewardsDistributed.toNat + rewardIona.toNat ≤ u64Max →
        (p.addRewards rewardIona).2.assets =
          p.assets + paid (p.addRewards rewardIona).1 rewardIona) := by
  unfold addRewards
  cases hsum : checked (p.totalStaked.toNat + rewardIona.toNat) with
  | none => exact ⟨h, fun _ => rfl⟩
  | some totalStaked =>
    have htotal := checked_eq_some_iff.mp hsum
    have hprice := h.price
    simp only
    cases hrewards : checked (p.totalRewardsDistributed.toNat + rewardIona.toNat) with
    | none =>
      refine ⟨⟨h.books, by simp only; omega⟩, fun hfit => ?_⟩
      exact absurd hfit (Nat.not_le.mpr (checked_eq_none_iff.mp hrewards))
    | some n =>
      refine ⟨⟨h.books, by simp only; omega⟩, fun _ => ?_⟩
      simp only [assets, paid]
      omega

lemma transfer_spec (h : p.Sound) (src dst : String) (shares : ℕ) (config : LstConfig F) :
    (p.transfer src dst shares config).2.Sound ∧
      (p.transfer src dst shares config).2.assets = p.assets := by
  unfold transfer
  split
  · exact ⟨h, rfl⟩
  rename_i hne
  split
  · exact ⟨h, rfl⟩
  rename_i hbal
  have hle := Nat.not_lt.mp hbal
  -- the shares in transit belong to nobody: the books are short by them until they arrive
  set q : LstPool F := { p with
    balances := p.balances.insert src (p.balanceOf src - shares)
    totalShares := p.totalShares - shares } with hq
  have hbooks : sumBy id q.balances = q.totalShares := h.sub_books hle
  have hdst : q.balanceOf dst ≤ q.totalShares := by
    rw [← share_balances, ← hbooks]
    exact share_le_sumBy id q.balances dst
  have hsrc := h.balanceOf_le src
  have hroom : p.totalShares ≤ u128Max :=
    h.price.trans ((toNat_le _).trans (by decide))
  have hadd : checkedAdd128 (q.balances.getD dst 0) shares = some (q.balanceOf dst + shares) := by
    refine if_pos ?_
    change q.balanceOf dst + shares ≤ u128Max
    have hshares : q.totalShares = p.totalShares - shares := rfl
    omega
  have hsum := Sound.add_books hbooks dst shares
  have hback := Nat.sub_add_cancel (hle.trans hsrc)
  simp only [hq] at hadd
  simp only [hadd]
  exact ⟨⟨hsum.trans hback, h.price⟩, rfl⟩

end LstPool

/-! ### Runs of calls -/

variable [F64 F]

inductive Call (F : Type) where
  | stake (staker : String) (ionaAmount : UInt64) (config : LstConfig F)
  | requestUnstake (staker : String) (shares : ℕ) (currentHeight unbondingBlocks : UInt64)
      (config : LstConfig F)
  | transfer (src dst : String) (shares : ℕ) (config : LstConfig F)
  | addRewards (rewardIona : UInt64)
  | processWithdrawals (currentHeight : UInt64) (config : LstConfig F)

structure Book (F : Type) where
  pool : LstPool F
  staked : ℕ := 0
  rewarded : ℕ := 0
  released : ℕ := 0

def Book.next (b : Book F) : Call F → Book F
  | .stake staker ionaAmount config => { b with
      pool := (b.pool.stake staker ionaAmount config).2
      staked := b.staked + LstPool.paid (b.pool.stake staker ionaAmount config).1 ionaAmount }
  | .requestUnstake staker shares currentHeight unbondingBlocks config => { b with
      pool := (b.pool.requestUnstake staker shares currentHeight unbondingBlocks config).2 }
  | .transfer src dst shares config => { b with
      pool := (b.pool.transfer src dst shares config).2 }
  | .addRewards rewardIona => { b with
      pool := (b.pool.addRewards rewardIona).2
      rewarded := b.rewarded + LstPool.paid (b.pool.addRewards rewardIona).1 rewardIona }
  | .processWithdrawals currentHeight config => { b with
      pool := (b.pool.processWithdrawals currentHeight config).2
      released :=
        b.released + LstPool.released (b.pool.processWithdrawals currentHeight config).1 }

def Book.step (b : Book F) (call : Call F) : Option (Book F) := some (b.next call)

def Fits (b : Book F) : Call F → Prop
  | .stake _ _ _ => b.pool.totalStakeOperations.toNat < u64Max
  | .requestUnstake _ _ currentHeight unbondingBlocks config =>
    currentHeight.toNat + (b.pool.effectiveUnbonding unbondingBlocks config).toNat + 1 ≤
      u64Max
  | .addRewards rewardIona =>
    b.pool.totalRewardsDistributed.toNat + rewardIona.toNat ≤ u64Max
  | .transfer _ _ _ _ => True
  | .processWithdrawals _ _ => True

instance (b : Book F) : DecidablePred (Fits b)
  | .stake _ _ _ => inferInstanceAs (Decidable (_ < _))
  | .requestUnstake _ _ _ _ _ => inferInstanceAs (Decidable (_ ≤ _))
  | .addRewards _ => inferInstanceAs (Decidable (_ ≤ _))
  | .transfer _ _ _ _ => inferInstanceAs (Decidable True)
  | .processWithdrawals _ _ => inferInstanceAs (Decidable True)

def Book.Balanced (b : Book F) : Prop := b.pool.assets + b.released = b.staked + b.rewarded

lemma sound_empty : (LstPool.empty : LstPool F).Sound := ⟨rfl, Nat.le_refl 0⟩

lemma next_spec {b : Book F} (h : b.pool.Sound) (call : Call F) :
    (b.next call).pool.Sound ∧ (Fits b call → b.Balanced → (b.next call).Balanced) := by
  cases call with
  | stake staker ionaAmount config =>
    obtain ⟨hsound, hassets⟩ := LstPool.stake_spec h staker ionaAmount config
    refine ⟨hsound, fun hfit hbal => ?_⟩
    have hgrown := hassets hfit
    simp only [Book.Balanced, Book.next] at hbal ⊢
    omega
  | requestUnstake staker shares currentHeight unbondingBlocks config =>
    obtain ⟨hsound, hassets⟩ :=
      LstPool.requestUnstake_spec h staker shares currentHeight unbondingBlocks config
    refine ⟨hsound, fun hfit hbal => ?_⟩
    have hsame := hassets hfit
    simp only [Book.Balanced, Book.next] at hbal ⊢
    omega
  | transfer src dst shares config =>
    obtain ⟨hsound, hassets⟩ := LstPool.transfer_spec h src dst shares config
    refine ⟨hsound, fun _ hbal => ?_⟩
    simp only [Book.Balanced, Book.next] at hbal ⊢
    omega
  | addRewards rewardIona =>
    obtain ⟨hsound, hassets⟩ := LstPool.addRewards_spec h rewardIona
    refine ⟨hsound, fun hfit hbal => ?_⟩
    have hgrown := hassets hfit
    simp only [Book.Balanced, Book.next] at hbal ⊢
    omega
  | processWithdrawals currentHeight config =>
    obtain ⟨hsound, hassets⟩ := LstPool.processWithdrawals_spec h currentHeight config
    refine ⟨hsound, fun _ hbal => ?_⟩
    simp only [Book.Balanced, Book.next] at hbal ⊢
    omega

lemma run_sound {calls : List (Call F)} {b : Book F}
    (h : Trace.run Book.step { pool := LstPool.empty } calls = some b) : b.pool.Sound :=
  Trace.run_invariant (P := fun b : Book F => b.pool.Sound)
    (fun _ call _ hs hstep => Option.some.inj hstep ▸ (next_spec hs call).1) sound_empty h

/-- **Solvency.** In every run of pool calls whose counters stay below their maximum, the balances
add up to the shares, what they are worth is covered by the stake, and what is staked, queued and
paid out adds up to what came in. -/
theorem run_solvent {calls : List (Call F)} {b : Book F}
    (hfits : Trace.Along Book.step Fits { pool := LstPool.empty } calls)
    (h : Trace.run Book.step { pool := LstPool.empty } calls = some b) :
    sumBy id b.pool.balances = b.pool.totalShares ∧
      sumBy (fun bal => (b.pool.sharesToIona bal).toNat) b.pool.balances ≤
        b.pool.totalStaked.toNat ∧
      b.pool.totalStaked.toNat + (b.pool.pendingWithdrawals.map fun w => w.2.1.toNat).sum +
        b.released = b.staked + b.rewarded := by
  have hsound := run_sound h
  have hbalanced : b.pool.Sound ∧ b.Balanced :=
    Trace.run_history (P := fun _ b => b.pool.Sound ∧ b.Balanced) ⟨sound_empty, rfl⟩
      (fun _ _ call _ hs hfit hstep =>
        have hspec := next_spec hs.1 call
        Option.some.inj hstep ▸ ⟨hspec.1, hspec.2 hfit hs.2⟩)
      hfits h
  exact ⟨hsound.books, hsound.solvent, hbalanced.2⟩

def calm : LstConfig ℚ where
  minStake := 1000
  tunnelingCoefficient := 1
  operationDecoherence := 0
  minCoherence := 1 / 2

def quietRun : List (Call ℚ) :=
  [.stake "alice" 1000 calm, .addRewards 500, .requestUnstake "alice" 400 10 2 calm,
    .transfer "alice" "bob" 100 calm, .processWithdrawals 13 calm, .stake "carol" 10 calm]

theorem run_solvent_quiet : ∃ b : Book ℚ,
    Trace.run Book.step { pool := LstPool.empty } quietRun = some b ∧
      b.pool.totalStaked.toNat + (b.pool.pendingWithdrawals.map fun w => w.2.1.toNat).sum +
        b.released = b.staked + b.rewarded := by
  have htest : Trace.alongTest Book.step (fun b call => decide (Fits b call))
      { pool := LstPool.empty } quietRun = true := by decide +kernel
  have hfits : Trace.Along Book.step Fits { pool := LstPool.empty } quietRun :=
    Trace.along_of_alongTest (fun _ _ h => of_decide_eq_true h) htest
  exact ⟨_, rfl, (run_solvent hfits rfl).2.2⟩

def lateRun : List (Call ℚ) :=
  [.stake "alice" 1000 calm, .requestUnstake "alice" 1000 0xFFFFFFFFFFFFFFFF 1 calm]

/-- **An unstake request whose unlocking height overflows** takes the shares and the stake, fails,
and queues nothing: the thousand staked is gone. -/
theorem failed_unstake_burns_stake : ∃ b : Book ℚ,
    Trace.run Book.step { pool := LstPool.empty } lateRun = some b ∧
      b.pool.balanceOf "alice" = 0 ∧
      b.pool.totalStaked.toNat + (b.pool.pendingWithdrawals.map fun w => w.2.1.toNat).sum +
        b.released = 0 ∧
      b.staked + b.rewarded = 1000 :=
  ⟨_, rfl, by decide +kernel⟩

end Iona.Lst
