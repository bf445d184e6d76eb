import Iona.Lst

/-!
# Rounding of the exchange rate

The exchange rate is rounded down to 18 digits before a stake is divided by it, so a stake may mint
more shares than it is worth; an unstake request rounds in favour of the pool.
-/

namespace Iona.Lst

open Std

variable {F : Type}

namespace LstPool

variable {p p' : LstPool F}

def KeepsValue (before after : LstPool F) : Prop :=
  before.totalStaked.toNat * after.totalShares ≤ after.totalStaked.toNat * before.totalShares

instance (before after : LstPool F) : Decidable (KeepsValue before after) :=
  inferInstanceAs (Decidable (_ ≤ _))

def RateSuffices (p : LstPool F) (ionaAmount : UInt64) : Prop :=
  p.totalStaked.toNat * rateScalingFactor % p.totalShares *
      (ionaAmount.toNat * p.totalShares / p.totalStaked.toNat + 1) <
    rateScalingFactor *
      (p.totalStaked.toNat - ionaAmount.toNat * p.totalShares % p.totalStaked.toNat)

variable {config : LstConfig F} {staker : String} {shares : ℕ} {ionaAmount : UInt64}

lemma Sound.exchangeRate_eq (h : p.Sound) (hshares : 0 < p.totalShares) :
    p.exchangeRate = p.totalStaked.toNat * rateScalingFactor / p.totalShares := by
  have hprice := h.price
  have hstaked : p.totalStaked ≠ 0 := by
    intro hzero
    rw [hzero, UInt64.toNat_zero] at hprice
    omega
  rw [exchangeRate, if_neg (not_or_intro (by omega) hstaked), Nat.min_eq_left (scaled_le _)]

variable [F64 F]

lemma checkedAdd128_eq_some {a b n : ℕ} (h : checkedAdd128 a b = some n) : n = a + b := by
  unfold checkedAdd128 at h
  split at h
  · exact (Option.some.inj h).symm
  · cases h

lemma mint_ok {minted : ℕ} (h : p.mint staker minted config = (.ok shares, p')) :
    shares = minted ∧ p'.totalStaked = p.totalStaked ∧ p'.totalShares = p.totalShares + minted := by
  unfold mint at h
  cases hshares : checkedAdd128 p.totalShares minted with
  | none =>
    rw [hshares] at h
    cases h
  | some totalShares =>
    cases hbal : checkedAdd128 (p.balanceOf staker) minted with
    | none =>
      simp only [hshares, hbal] at h
      cases h
    | some bal =>
      simp only [hshares, hbal] at h
      split at h
      · cases h
      · cases h
        exact ⟨rfl, rfl, checkedAdd128_eq_some hshares⟩

lemma stake_ok (h : p.stake staker ionaAmount config = (.ok shares, p')) :
    shares = ionaAmount.toNat * rateScalingFactor / p.exchangeRate ∧
      p'.totalStaked.toNat = p.totalStaked.toNat + ionaAmount.toNat ∧
      p'.totalShares = p.totalShares + shares := by
  unfold stake at h
  generalize ionaAmount.toNat * rateScalingFactor / p.exchangeRate = minted at h ⊢
  split at h
  · cases h
  split at h
  · cases h
  split at h
  · cases h
  split at h
  · cases h
  split at h
  · cases h
  rename_i totalStaked hstaked
  obtain ⟨rfl, hsame, hshares⟩ := mint_ok h
  exact ⟨rfl, hsame ▸ Machine.checked_eq_some_iff.mp hstaked, hshares⟩

lemma requestUnstake_ok {currentHeight unbondingBlocks : UInt64}
    (h : p.requestUnstake staker shares currentHeight unbondingBlocks config = (.ok ionaAmount, p')) :
    ionaAmount = p.sharesToIona shares ∧ shares ≤ p.totalShares ∧
      p'.totalStaked.toNat + ionaAmount.toNat = p.totalStaked.toNat ∧
      p'.totalShares + shares = p.totalShares := by
  unfold requestUnstake at h
  generalize p.sharesToIona shares = worth at h ⊢
  split at h
  · cases h
  split at h
  · cases h
  simp only at h
  split at h
  · cases h
  rename_i hshares
  split at h
  · cases h
  rename_i hstaked
  unfold enqueue at h
  split at h
  · cases h
  simp only at h
  split at h
  · cases h
  cases h
  have hle := UInt64.not_lt.mp hstaked
  have hsub := UInt64.toNat_sub_of_le _ _ hle
  have hcover := UInt64.le_iff_toNat_le.mp hle
  refine ⟨rfl, Nat.not_lt.mp hshares, ?_, Nat.sub_add_cancel (Nat.not_lt.mp hshares)⟩
  change (p.totalStaked - ionaAmount).toNat + _ = _
  omega

lemma minted_le_iff {t s w a : ℕ} (ht : 0 < t) (hs : 0 < s) (hrate : 0 < t * w / s) :
    t * (a * w / (t * w / s)) ≤ a * s ↔ t * w % s * (a * s / t + 1) < w * (t - a * s % t) := by
  have hfloor := Nat.div_add_mod (t * w) s
  have hworth := Nat.div_add_mod (a * s) t
  have hpart := Nat.mod_lt (a * s) ht
  generalize t * w / s = r at hfloor hrate ⊢
  generalize t * w % s = lost at hfloor ⊢
  generalize a * s / t = q at hworth ⊢
  generalize a * s % t = part at hworth hpart ⊢
  obtain ⟨short, rfl⟩ := Nat.exists_eq_add_of_lt hpart
  rw [show part + short + 1 - part = short + 1 by omega]
  -- no more than `q` whole shares are covered by the stake
  have hminted : (part + short + 1) * (a * w / r) ≤ a * s ↔ a * w < (q + 1) * r := by
    rw [← Nat.div_lt_iff_lt_mul hrate]
    constructor
    · intro hle
      by_contra! hmore
      have := Nat.mul_le_mul_left (part + short + 1) hmore
      nlinarith
    · intro hlt
      have := Nat.mul_le_mul_left (part + short + 1) (Nat.le_of_lt_succ hlt)
      omega
  rw [hminted, ← Nat.mul_lt_mul_right hs]
  have hleft : a * w * s = ((part + short + 1) * q + part) * w := by
    rw [hworth]
    ring
  have hright : (q + 1) * r * s + lost * (q + 1) = (part + short + 1) * w * (q + 1) := by
    rw [← hfloor]
    ring
  have hsplit : (part + short + 1) * w * (q + 1) =
      ((part + short + 1) * q + part) * w + w * (short + 1) := by ring
  omega

end LstPool

variable [F64 F] {calls : List (Call F)} {b : Book F}

/-- **When a share keeps its value**: an unstake request never lowers the rate, and a stake keeps it
exactly if the two roundings do not carry. -/
theorem share_value_kept_iff
    (h : Trace.run Book.step { pool := LstPool.empty } calls = some b)
    (hshares : 0 < b.pool.totalShares) :
    (∀ staker ionaAmount config shares p',
      b.pool.stake staker ionaAmount config = (.ok shares, p') →
        (b.pool.KeepsValue p' ↔ b.pool.RateSuffices ionaAmount)) ∧
    ∀ staker shares currentHeight unbondingBlocks config ionaAmount p',
      b.pool.requestUnstake staker shares currentHeight unbondingBlocks config =
          (.ok ionaAmount, p') → b.pool.KeepsValue p' := by
  have hsound := run_sound h
  have hprice := hsound.price
  have hscale := LstPool.scale_pos
  constructor
  · intro staker ionaAmount config shares p' hstake
    obtain ⟨rfl, hstaked, htotal⟩ := LstPool.stake_ok hstake
    have hrate := hscale.trans_le hsound.rate_ge
    rw [hsound.exchangeRate_eq hshares] at htotal hrate
    rw [LstPool.KeepsValue, hstaked, htotal, Nat.mul_add, Nat.add_mul, Nat.add_le_add_iff_left]
    exact LstPool.minted_le_iff (by omega) hshares hrate
  · intro staker shares currentHeight unbondingBlocks config ionaAmount p' hunstake
    obtain ⟨rfl, hle, hstaked, htotal⟩ := LstPool.requestUnstake_ok hunstake
    have hworth := hsound.toNat_sharesToIona hle
    -- both roundings are down
    have hfloor : (b.pool.sharesToIona shares).toNat * b.pool.totalShares ≤
        shares * b.pool.totalStaked.toNat := by
      refine Nat.le_of_mul_le_mul_right ?_ hscale
      have hpaid := Nat.div_mul_le_self (shares * b.pool.exchangeRate) rateScalingFactor
      rw [← hworth] at hpaid
      have hall := Nat.mul_le_mul_left shares hsound.rate_le
      nlinarith
    rw [LstPool.KeepsValue]
    nlinarith

def rewardedRun : List (Call ℚ) := [.stake "alice" 3000 calm, .addRewards 1000]

def rewardedBook : Book ℚ := rewardedRun.foldl Book.next { pool := LstPool.empty }

lemma rewardedBook_run :
    Trace.run Book.step { pool := LstPool.empty } rewardedRun = some rewardedBook := rfl

theorem share_value_kept_rewarded :
    (rewardedBook.pool.stake "bob" 4000 calm).1 = .ok 3000 ∧
      rewardedBook.pool.KeepsValue (rewardedBook.pool.stake "bob" 4000 calm).2 := by
  have hok : (rewardedBook.pool.stake "bob" 4000 calm).1 = .ok 3000 := by decide +kernel
  have hstake : rewardedBook.pool.stake "bob" 4000 calm =
      (.ok 3000, (rewardedBook.pool.stake "bob" 4000 calm).2) := by rw [← hok]
  refine ⟨hok, ?_⟩
  refine ((share_value_kept_iff rewardedBook_run (by decide +kernel)).1 _ _ _ _ _ hstake).mpr ?_
  unfold LstPool.RateSuffices
  decide +kernel

/-- **A stake dilutes the holders.** -/
theorem stake_dilutes :
    (rewardedBook.pool.stake "bob" 1333333333333333333 calm).1 = .ok (10 ^ 18) ∧
      ¬ rewardedBook.pool.KeepsValue
        (rewardedBook.pool.stake "bob" 1333333333333333333 calm).2 := by
  decide +kernel

/-- **No profit from a round trip**: shares bought and given back at once return at most what was
paid. -/
theorem no_profit_from_round_trip
    (h : Trace.run Book.step { pool := LstPool.empty } calls = some b)
    (hshares : 0 < b.pool.totalShares) {staker : String} {ionaAmount returned : UInt64}
    {config config' : LstConfig F} {shares : ℕ} {currentHeight unbondingBlocks : UInt64}
    {p₁ p₂ : LstPool F} (hstake : b.pool.stake staker ionaAmount config = (.ok shares, p₁))
    (hunstake : p₁.requestUnstake staker shares currentHeight unbondingBlocks config' =
      (.ok returned, p₂)) : returned ≤ ionaAmount := by
  have hsound := run_sound h
  have hsound₁ : p₁.Sound := by
    have := (LstPool.stake_spec hsound staker ionaAmount config).1
    rwa [hstake] at this
  obtain ⟨hminted, hstaked, htotal⟩ := LstPool.stake_ok hstake
  obtain ⟨rfl, hle, -, -⟩ := LstPool.requestUnstake_ok hunstake
  have hrate := hsound.exchangeRate_eq hshares
  have hall := hsound₁.rate_le
  rw [htotal, hstaked] at hall
  have hpaid : shares * b.pool.exchangeRate ≤ ionaAmount.toNat * rateScalingFactor := by
    rw [hminted]
    exact Nat.div_mul_le_self _ _
  have hworth : shares * p₁.exchangeRate ≤ ionaAmount.toNat * rateScalingFactor := by
    rcases Nat.lt_or_ge b.pool.exchangeRate p₁.exchangeRate with hraised | hkept
    · have hbefore : b.pool.totalStaked.toNat * rateScalingFactor <
          b.pool.totalShares * p₁.exchangeRate := by
        rw [hrate, Nat.div_lt_iff_lt_mul hshares] at hraised
        rwa [Nat.mul_comm b.pool.totalShares]
      nlinarith
    · exact (Nat.mul_le_mul_left shares hkept).trans hpaid
  rw [UInt64.le_iff_toNat_le, hsound₁.toNat_sharesToIona hle]
  exact Nat.div_le_of_le_mul (by rwa [Nat.mul_comm rateScalingFactor])

theorem no_profit_rewarded :
    let p₁ := (rewardedBook.pool.stake "bob" 5000 calm).2
    (p₁.requestUnstake "bob" 3750 10 2 calm).1 = .ok 4999 ∧ (4999 : UInt64) ≤ 5000 := by
  have hstake : (rewardedBook.pool.stake "bob" 5000 calm).1 = .ok 3750 := by decide +kernel
  have hunstake : ((rewardedBook.pool.stake "bob" 5000 calm).2.requestUnstake "bob" 3750 10 2
      calm).1 = .ok 4999 := by decide +kernel
  have hboth {α β : Type} {res : α × β} {a : α} (h : res.1 = a) : res = (a, res.2) := by rw [← h]
  exact ⟨hunstake, no_profit_from_round_trip rewardedBook_run (by decide +kernel) (hboth hstake)
    (hboth hunstake)⟩

end Iona.Lst
