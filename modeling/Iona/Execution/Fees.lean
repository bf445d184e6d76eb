import Iona.Execution.Apply
import Iona.Lib.Trace

/-! # The base fee, and what a transaction pays -/

namespace Iona

open Machine

/-! ### The base fee -/

def feeStep (base gap target : ℕ) : ℕ := max (base * gap / target / elasticityDenom) 1

lemma one_le_feeStep (base gap target : ℕ) : 1 ≤ feeStep base gap target := le_max_right _ _

lemma feeStep_mono (base target : ℕ) {gap gap' : ℕ} (h : gap ≤ gap') :
    feeStep base gap target ≤ feeStep base gap' target := by
  unfold feeStep
  have hmul : base * gap ≤ base * gap' := Nat.mul_le_mul_left base h
  exact max_le_max_right 1 (Nat.div_le_div_right (Nat.div_le_div_right hmul))

def FeeFits (prevBase gasUsed gasTarget : UInt64) : Prop :=
  let base := max prevBase.toNat 1
  if gasTarget < gasUsed then
    base * (gasUsed.toNat - gasTarget.toNat) ≤ u64Max ∧
      base + feeStep base (gasUsed.toNat - gasTarget.toNat) gasTarget.toNat ≤ u64Max
  else base * (gasTarget.toNat - gasUsed.toNat) ≤ u64Max

def nextFee (prevBase gasUsed gasTarget : UInt64) : ℕ :=
  let base := max prevBase.toNat 1
  if gasTarget < gasUsed then
    base + feeStep base (gasUsed.toNat - gasTarget.toNat) gasTarget.toNat
  else max (base - feeStep base (gasTarget.toNat - gasUsed.toNat) gasTarget.toNat) 1

lemma toNat_max_one (a : UInt64) : (max a 1).toNat = max a.toNat 1 := by
  have hmax : max a 1 = if a ≤ 1 then 1 else a := rfl
  by_cases h : a ≤ 1
  · rw [hmax, if_pos h]
    exact (max_eq_right (UInt64.le_iff_toNat_le.mp h)).symm
  · rw [hmax, if_neg h]
    exact (max_eq_left (UInt64.le_iff_toNat_le.mp (UInt64.le_of_lt (UInt64.not_le.mp h)))).symm

lemma toNat_min_eq (a b : UInt64) : (min a b).toNat = min a.toNat b.toNat := by
  have hmin : min a b = if a ≤ b then a else b := rfl
  rw [hmin, Nat.min_def, apply_ite UInt64.toNat]
  simp only [UInt64.le_iff_toNat_le]

section BaseFee

variable {prevBase gasUsed gasTarget fee : UInt64}

lemma toNat_scaled {base gap : ℕ} {scaled : UInt64} (target : ℕ)
    (h : Machine.checked (base * gap) = some scaled) :
    max (scaled.toNat / target / elasticityDenom) 1 = feeStep base gap target := by
  rw [checked_eq_some_iff.mp h, feeStep]

lemma feeStep_le {base gap target : ℕ} (h : base * gap ≤ u64Max) :
    feeStep base gap target ≤ u64Max := by
  refine max_le ?_ (by decide)
  exact (Nat.div_le_self _ _).trans ((Nat.div_le_self _ _).trans h)

lemma nextBaseFee_eq_some_iff (htarget : gasTarget ≠ 0) :
    nextBaseFee prevBase gasUsed gasTarget = some fee ↔
      FeeFits prevBase gasUsed gasTarget ∧ fee.toNat = nextFee prevBase gasUsed gasTarget := by
  unfold nextBaseFee FeeFits nextFee
  rw [if_neg htarget]
  simp only [gt_iff_lt, toNat_max_one]
  by_cases habove : gasTarget < gasUsed
  · simp only [if_pos habove]
    -- above the target two operations are checked: the product, then the sum
    cases hscaled : Machine.checked (max prevBase.toNat 1 * (gasUsed.toNat - gasTarget.toNat)) with
    | none =>
      have hover := checked_eq_none_iff.mp hscaled
      simp [Nat.not_le.mpr hover]
    | some scaled =>
      have hfit := checked_eq_some_iff.mp hscaled ▸ toNat_le scaled
      simp only [Option.bind_eq_bind, Option.bind_some, toNat_scaled _ hscaled, hfit, true_and]
      cases hraised : Machine.checked (max prevBase.toNat 1 +
          feeStep (max prevBase.toNat 1) (gasUsed.toNat - gasTarget.toNat) gasTarget.toNat) with
      | none =>
        have hover := checked_eq_none_iff.mp hraised
        simp [Nat.not_le.mpr hover]
      | some raised =>
        have hvalue := checked_eq_some_iff.mp hraised
        have hraise : 1 ≤ raised.toNat := by
          have := one_le_feeStep (max prevBase.toNat 1) (gasUsed.toNat - gasTarget.toNat)
            gasTarget.toNat
          omega
        have hmax : max raised 1 = raised := by
          apply UInt64.toNat_inj.mp
          rw [toNat_max_one]
          exact max_eq_left hraise
        simp only [Option.bind_some, pure, Option.some.injEq, hmax, ← hvalue, toNat_le,
          true_and, ← UInt64.toNat_inj]
        exact eq_comm
  · simp only [if_neg habove]
    cases hscaled : Machine.checked (max prevBase.toNat 1 * (gasTarget.toNat - gasUsed.toNat)) with
    | none =>
      have hover := checked_eq_none_iff.mp hscaled
      simp [Nat.not_le.mpr hover]
    | some scaled =>
      have hfit := checked_eq_some_iff.mp hscaled ▸ toNat_le scaled
      simp only [Option.bind_eq_bind, Option.bind_some, pure, Option.some.injEq,
        toNat_scaled _ hscaled, hfit, true_and, ← UInt64.toNat_inj, toNat_max_one,
        toNat_satSub, toNat_ofNat (feeStep_le hfit)]
      exact eq_comm

lemma nextFee_le (h : FeeFits prevBase gasUsed gasTarget) :
    nextFee prevBase gasUsed gasTarget ≤ u64Max := by
  unfold FeeFits at h
  unfold nextFee
  by_cases habove : gasTarget < gasUsed
  · simp only [if_pos habove] at h ⊢
    exact h.2
  · have hbase := toNat_le prevBase
    have hone : 1 ≤ u64Max := by decide
    simp only [if_neg habove]
    omega

lemma one_le_nextFee : 1 ≤ nextFee prevBase gasUsed gasTarget := by
  unfold nextFee
  simp only
  split
  · exact (one_le_feeStep _ _ _).trans (Nat.le_add_left _ _)
  · exact le_max_right _ _

lemma nextFee_mono {gasUsed' : UInt64} (h : gasUsed ≤ gasUsed') :
    nextFee prevBase gasUsed gasTarget ≤ nextFee prevBase gasUsed' gasTarget := by
  rw [UInt64.le_iff_toNat_le] at h
  have hbase : 1 ≤ max prevBase.toNat 1 := le_max_right _ _
  unfold nextFee
  simp only [UInt64.lt_iff_toNat_lt]
  generalize max prevBase.toNat 1 = base at hbase ⊢
  by_cases habove : gasTarget.toNat < gasUsed.toNat
  · rw [if_pos habove, if_pos (habove.trans_le h)]
    have hstep := feeStep_mono base gasTarget.toNat
      (show gasUsed.toNat - gasTarget.toNat ≤ gasUsed'.toNat - gasTarget.toNat by omega)
    omega
  · rw [if_neg habove]
    have hdown := one_le_feeStep base (gasTarget.toNat - gasUsed.toNat) gasTarget.toNat
    by_cases habove' : gasTarget.toNat < gasUsed'.toNat
    · rw [if_pos habove']
      omega
    · rw [if_neg habove']
      have hstep := feeStep_mono base gasTarget.toNat
        (show gasTarget.toNat - gasUsed'.toNat ≤ gasTarget.toNat - gasUsed.toNat by omega)
      omega

lemma nextFee_target : nextFee prevBase gasTarget gasTarget = max (max prevBase.toNat 1 - 1) 1 := by
  simp [nextFee, feeStep, elasticityDenom]

end BaseFee

/-- **The base fee law**: when the next fee can be computed, that it is at least 1 and monotone in
the gas used, and when it stays. -/
theorem nextBaseFee_law (prevBase gasTarget : UInt64) (htarget : 0 < gasTarget) :
    (∀ gasUsed, (nextBaseFee prevBase gasUsed gasTarget).isSome = true ↔
      FeeFits prevBase gasUsed gasTarget) ∧
    (∀ gasUsed fee, nextBaseFee prevBase gasUsed gasTarget = some fee → 1 ≤ fee) ∧
    (1 ≤ prevBase →
      (nextBaseFee prevBase gasTarget gasTarget = some prevBase ↔ prevBase = 1)) ∧
    ∀ gasUsed gasUsed' fee fee', gasUsed ≤ gasUsed' →
      nextBaseFee prevBase gasUsed gasTarget = some fee →
      nextBaseFee prevBase gasUsed' gasTarget = some fee' → fee ≤ fee' := by
  have hne : gasTarget ≠ 0 := UInt64.pos_iff_ne_zero.mp htarget
  refine ⟨?_, ?_, ?_, ?_⟩
  · intro gasUsed
    rw [Option.isSome_iff_exists]
    constructor
    · rintro ⟨fee, hfee⟩
      exact ((nextBaseFee_eq_some_iff hne).mp hfee).1
    · intro hfits
      exact ⟨.ofNat _, (nextBaseFee_eq_some_iff hne).mpr
        ⟨hfits, toNat_ofNat (nextFee_le hfits)⟩⟩
  · intro gasUsed fee hfee
    rw [UInt64.le_iff_toNat_le, ((nextBaseFee_eq_some_iff hne).mp hfee).2]
    exact one_le_nextFee
  · intro hbase
    rw [UInt64.le_iff_toNat_le, UInt64.toNat_one] at hbase
    rw [nextBaseFee_eq_some_iff hne, nextFee_target, ← UInt64.toNat_inj, UInt64.toNat_one]
    have hfits : FeeFits prevBase gasTarget gasTarget := by simp [FeeFits]
    constructor
    · rintro ⟨-, hvalue⟩
      omega
    · intro hone
      exact ⟨hfits, by omega⟩
  · intro gasUsed gasUsed' fee fee' hle hfee hfee'
    rw [UInt64.le_iff_toNat_le, ((nextBaseFee_eq_some_iff hne).mp hfee).2,
      ((nextBaseFee_eq_some_iff hne).mp hfee').2]
    exact nextFee_mono hle

theorem nextBaseFee_law_default : FeeFits 1 30000000 43000000 ∧
    (nextBaseFee 1 30000000 43000000).isSome = true := by
  have hfits : FeeFits 1 30000000 43000000 := by
    unfold FeeFits
    decide +kernel
  exact ⟨hfits, ((nextBaseFee_law 1 43000000 (by decide)).1 30000000).mpr hfits⟩

/-- With the default target: a fee of 10 falls to 9 in a block that meets the target, and an empty
block after a fee of 10^12 overflows. -/
theorem nextBaseFee_off_target : nextBaseFee 10 43000000 43000000 = some 9 ∧
    nextBaseFee 1000000000000 0 43000000 = none := by
  decide +kernel

/-! ### Gas and fee of a transaction -/

variable (C : Crypto) (H : Handlers)

/-- The gas that the handler of the payload asks for, on top of the intrinsic gas. -/
def payloadGas (working : KvState) (payload «from» : String) : UInt64 :=
  match Text.stripPrefix "staking:" payload with
  | some staking =>
    match (H.tryApplyStakingTx working.kv staking «from»).1 with
    | .ok () => 1000
    | .error _ => 0
  | none =>
    match Text.stripPrefix "vm " (Text.trimStart payload) with
    | some vm =>
      match H.parseVmPayload vm with
      | .ok (.deploy code params) => (H.vmDeploy working.vm code params).2.1
      | .ok (.call contract method args) => (H.vmCall working.vm contract method args).2.1
      | .error _ => 0
    | none => 0

def Receipt.SameCharge (r receipt : Receipt) : Prop :=
  r.intrinsicGasUsed = receipt.intrinsicGasUsed ∧
    r.effectiveGasPrice = receipt.effectiveGasPrice ∧ r.burned = receipt.burned ∧
    r.tip = receipt.tip

lemma vmReceipt_charge (receipt : Receipt) (label : String)
    (result : Except String (List UInt8)) (gasUsed : UInt64) :
    (vmReceipt receipt label result gasUsed).SameCharge receipt ∧
      (vmReceipt receipt label result gasUsed).gasUsed =
        satAdd receipt.gasUsed gasUsed := by
  cases result <;> exact ⟨⟨rfl, rfl, rfl, rfl⟩, rfl⟩

lemma satAdd_zero (a : UInt64) : satAdd a 0 = a := by
  have ha := toNat_le a
  apply UInt64.toNat_inj.mp
  rw [toNat_satAdd, UInt64.toNat_zero]
  omega

lemma applyPayload_receipt {receipt r : Receipt} {working st : KvState} {payload «from» : String}
    (h : applyPayload H receipt working payload «from» = some (r, st)) :
    r.SameCharge receipt ∧
      r.gasUsed = satAdd receipt.gasUsed (payloadGas H working payload «from») := by
  have hzero := (satAdd_zero receipt.gasUsed).symm
  unfold applyPayload at h
  unfold payloadGas
  cases hstaking : Text.stripPrefix "staking:" payload with
  | some staking =>
    simp only [hstaking] at h ⊢
    cases hcall : H.tryApplyStakingTx working.kv staking «from» with
    | mk result kv =>
      cases result with
      | ok =>
        simp only [hcall] at h
        cases h
        exact ⟨⟨rfl, rfl, rfl, rfl⟩, rfl⟩
      | error e =>
        simp only [hcall] at h
        cases h
        exact ⟨⟨rfl, rfl, rfl, rfl⟩, hzero⟩
  | none =>
    simp only [hstaking] at h ⊢
    cases hvm : Text.stripPrefix "vm " (Text.trimStart payload) with
    | some vm =>
      simp only [hvm] at h ⊢
      cases hparse : H.parseVmPayload vm with
      | ok kind =>
        cases kind with
        | deploy code params =>
          simp only [hparse] at h ⊢
          cases h
          exact vmReceipt_charge _ _ _ _
        | call contract method args =>
          simp only [hparse] at h ⊢
          cases h
          exact vmReceipt_charge _ _ _ _
      | error e =>
        simp only [hparse] at h ⊢
        cases h
        exact ⟨⟨rfl, rfl, rfl, rfl⟩, hzero⟩
    | none =>
      simp only [hvm] at h ⊢
      obtain ⟨res, -, h⟩ := Option.bind_eq_some_iff.mp h
      cases res with
      | ok kv =>
        cases h
        exact ⟨⟨rfl, rfl, rfl, rfl⟩, hzero⟩
      | error e =>
        cases h
        exact ⟨⟨rfl, rfl, rfl, rfl⟩, hzero⟩

/-- What a unit of gas pays beyond the base fee. -/
def priorityFee (tx : Tx) (baseFee : UInt64) : ℕ :=
  min tx.maxPriorityFeePerGas.toNat (tx.maxFeePerGas.toNat - baseFee.toNat)

lemma admitTx_charge {tx : Tx} {baseFee expected bal : UInt64} {receipt : Receipt}
    (h : admitTx C tx baseFee expected bal = some (.ok receipt)) :
    intrinsicGas tx.payload = some receipt.intrinsicGasUsed ∧
      receipt.gasUsed = receipt.intrinsicGasUsed ∧ receipt.intrinsicGasUsed ≤ tx.gasLimit ∧
      receipt.effectiveGasPrice.toNat = baseFee.toNat + priorityFee tx baseFee ∧
      receipt.burned.toNat = min (baseFee.toNat * receipt.intrinsicGasUsed.toNat) u64Max ∧
      receipt.tip.toNat = min (priorityFee tx baseFee * receipt.intrinsicGasUsed.toNat) u64Max := by
  unfold admitTx at h
  simp only [] at h
  split at h
  · simp at h
  · split at h
    · simp at h
    · obtain ⟨intrinsic, hintrinsic, h⟩ := Option.bind_eq_some_iff.mp h
      split at h
      · simp at h
      rename_i hlimit
      split at h
      · simp at h
      rename_i hfee
      split at h
      · simp at h
      · obtain rfl : _ = receipt := by simpa using h
        have hpriority : (min tx.maxPriorityFeePerGas (satSub tx.maxFeePerGas baseFee)).toNat =
            priorityFee tx baseFee := by
          rw [priorityFee, toNat_min_eq, toNat_satSub]
        refine ⟨hintrinsic, rfl, UInt64.not_lt.mp hlimit, ?_, toNat_satMul _ _, ?_⟩
        · -- the priority fee is capped by what the maximal fee leaves above the base fee
          have hmax := toNat_le tx.maxFeePerGas
          have hbase := UInt64.le_iff_toNat_le.mp (UInt64.not_lt.mp hfee)
          have hcap : priorityFee tx baseFee ≤ tx.maxFeePerGas.toNat - baseFee.toNat := Nat.min_le_right _ _
          rw [toNat_satAdd, hpriority]
          omega
        · rw [← hpriority]
          exact toNat_satMul _ _

lemma charge_from {state : KvState} {«from» : String} (proposer : String) {burned tip : UInt64}
    (nonce : UInt64) (hbal : satAdd burned tip ≤ state.balances.getD «from» 0) :
    ((charge state «from» proposer burned tip nonce).balances.getD «from» 0).toNat +
        (satAdd burned tip).toNat =
      (state.balances.getD «from» 0).toNat + if proposer = «from» then tip.toNat else 0 := by
  have hsub := UInt64.toNat_sub_of_le _ _ hbal
  have hmax := toNat_le (state.balances.getD «from» 0)
  have htip := toNat_le tip
  rw [UInt64.le_iff_toNat_le] at hbal
  unfold charge
  by_cases hown : proposer = «from»
  · -- the tip is added to the balance that was just debited, so it cannot saturate
    subst hown
    simp only [Std.ExtTreeMap.getD_insert_self, if_true, toNat_satAdd] at hbal hsub ⊢
    omega
  · have hne : compare proposer «from» ≠ .eq := fun heq => hown (Std.LawfulEqOrd.eq_of_compare heq)
    simp only [Std.ExtTreeMap.getD_insert, if_neg hne, if_neg hown,
      Std.ReflCmp.compare_self, if_true]
    omega

lemma charge_proposer (state : KvState) {«from» proposer : String} (burned tip nonce : UInt64)
    (hother : proposer ≠ «from») :
    ((charge state «from» proposer burned tip nonce).balances.getD proposer 0).toNat =
      min ((state.balances.getD proposer 0).toNat + tip.toNat) u64Max := by
  have hne : compare «from» proposer ≠ .eq :=
    fun heq => hother (Std.LawfulEqOrd.eq_of_compare heq).symm
  unfold charge
  simp only [Std.ExtTreeMap.getD_insert_self, Std.ExtTreeMap.getD_insert, if_neg hne,
    toNat_satAdd]

structure FeeLaw (pre post : KvState) (tx : Tx) (proposer : String) (r : Receipt) : Prop where
  within : r.gasUsed ≤ tx.gasLimit
  debited : (post.balances.getD tx.from 0).toNat + r.gasUsed.toNat * r.effectiveGasPrice.toNat =
    (pre.balances.getD tx.from 0).toNat + if proposer = tx.from then r.tip.toNat else 0
  tipped : proposer ≠ tx.from →
    (post.balances.getD proposer 0).toNat = (pre.balances.getD proposer 0).toNat + r.tip.toNat
  split : post.burned.toNat + r.tip.toNat =
    pre.burned.toNat + r.gasUsed.toNat * r.effectiveGasPrice.toNat

/-- When the whole cost of a transaction is taken, in what the node is given: its handler asks for no gas
beyond the intrinsic gas, or gas is free and the limit covers what it asks for; and neither the cost, nor
what has been burned, nor the balance of the proposer reaches the end of `u64`. -/
structure ChargedInFull (pre : KvState) (tx : Tx) (baseFee : UInt64) (proposer : String) (gas : UInt64) :
    Prop where
  charged : payloadGas H pre tx.payload tx.from = 0 ∧
      gas.toNat * (baseFee.toNat + priorityFee tx baseFee) ≤ u64Max ∨
    baseFee.toNat + priorityFee tx baseFee = 0 ∧
      min (gas.toNat + (payloadGas H pre tx.payload tx.from).toNat) u64Max ≤ tx.gasLimit.toNat
  burnable : pre.burned.toNat + baseFee.toNat * gas.toNat ≤ u64Max
  payable : proposer ≠ tx.from →
    (pre.balances.getD proposer 0).toNat + priorityFee tx baseFee * gas.toNat ≤ u64Max

/-- Ten a byte on top of 21000 is not the largest word. -/
lemma intrinsicGas_lt {payload : String} {gas : UInt64} (h : intrinsicGas payload = some gas) :
    gas.toNat < u64Max := by
  have hgas := checked_eq_some_iff.mp h
  have hle := toNat_le gas
  rw [toNat_satMul, show gasPerByte.toNat = 10 from rfl] at hgas
  unfold intrinsicGasBase at hgas
  unfold u64Max at hgas hle ⊢
  omega

lemma price_mul {base priority price : ℕ} (gas : ℕ) (hprice : price = base + priority) :
    gas * price = base * gas + priority * gas := by
  rw [hprice]
  ring

section Amounts

variable {base priority price gas reported burned tip : ℕ} (hprice : price = base + priority)
  (hburned : burned = min (base * gas) u64Max)
  (htip : tip = min (priority * gas) u64Max)
include hprice hburned htip

lemma total_eq : min (burned + tip) u64Max = min (gas * price) u64Max := by
  have hsum := price_mul gas hprice
  omega

lemma amounts_agree_iff (hle : gas ≤ reported) :
    reported * price = min (burned + tip) u64Max ↔
      price = 0 ∨ reported = gas ∧ gas * price ≤ u64Max := by
  rw [total_eq hprice hburned htip]
  constructor
  · intro h
    by_cases hfree : price = 0
    · exact .inl hfree
    · -- the reported gas costs at least the charged gas, and at most its capped price
      have hmono : gas * price ≤ reported * price := Nat.mul_le_mul_right price hle
      have heq : reported * price = gas * price := by omega
      exact .inr ⟨Nat.eq_of_mul_eq_mul_right (Nat.pos_of_ne_zero hfree) heq, by omega⟩
  · rintro (hfree | ⟨rfl, hfit⟩)
    · simp [hfree]
    · omega

lemma amounts_fit (h : price = 0 ∨ reported = gas ∧ gas * price ≤ u64Max) :
    burned + tip ≤ u64Max := by
  have hsum := price_mul gas hprice
  obtain hfree | ⟨-, hfit⟩ := h
  · rw [hfree, Nat.mul_zero] at hsum
    omega
  · omega

end Amounts

lemma applyTx_charged {state st : KvState} {tx : Tx} {baseFee : UInt64} {proposer : String}
    {receipt r : Receipt}
    (hadmitted : admitTx C tx baseFee (state.nonces.getD tx.from 0)
      (state.balances.getD tx.from 0) = some (.ok receipt))
    (h : applyTx C H state tx baseFee proposer = some (r, st)) :
    intrinsicGas tx.payload = some r.intrinsicGasUsed ∧ r.intrinsicGasUsed ≤ tx.gasLimit ∧
      r.gasUsed = satAdd r.intrinsicGasUsed (payloadGas H state tx.payload tx.from) ∧
      (r.effectiveGasPrice.toNat = baseFee.toNat + priorityFee tx baseFee ∧
        r.burned.toNat = min (baseFee.toNat * r.intrinsicGasUsed.toNat) u64Max ∧
        r.tip.toNat = min (priorityFee tx baseFee * r.intrinsicGasUsed.toNat) u64Max) ∧
      ∃ nonce,
        st.balances = (charge state tx.from proposer r.burned r.tip nonce).balances ∧
        st.burned = satAdd state.burned r.burned ∧
        satAdd r.burned r.tip ≤ state.balances.getD tx.from 0 := by
  obtain ⟨-, hrejected⟩ | ⟨receipt', nonce, hadmitted', -, hpay⟩ := applyTx_cases C H h
  · rw [hadmitted] at hrejected
    simp at hrejected
  obtain rfl : receipt = receipt' := by
    rw [hadmitted] at hadmitted'
    simpa using hadmitted'
  obtain ⟨hpayload, hgas, hlimit, hamounts⟩ := admitTx_charge C hadmitted
  obtain ⟨-, hcovered, -⟩ := admitTx_spec C hadmitted
  obtain ⟨⟨hintrinsic, heffective, hburned, htip⟩, hreported⟩ := applyPayload_receipt H hpay
  obtain ⟨hbalances, -, hburn⟩ := applyPayload_frame H hpay
  rw [← hintrinsic, ← heffective, ← hburned, ← htip] at hamounts
  rw [← hburned, ← htip] at hcovered hbalances hburn
  rw [← hintrinsic] at hpayload hlimit
  -- the fee moves balances only, and no handler reads them
  refine ⟨hpayload, hlimit, ?_, hamounts, nonce, hbalances, hburn, hcovered⟩
  rw [hreported, hgas, ← hintrinsic]
  rfl

/-- **Gas and fee law.** For every state and transaction that is charged a fee: the reported gas is within
the limit, the sender pays for exactly that gas, and what is paid is what is burned and what the proposer
gets, if and only if the transaction is charged in full. -/
theorem feeLaw_iff {state st : KvState} {tx : Tx} {baseFee : UInt64} {proposer : String}
    {receipt r : Receipt} {gas : UInt64} (hgas : intrinsicGas tx.payload = some gas)
    (hadmitted : admitTx C tx baseFee (state.nonces.getD tx.from 0)
      (state.balances.getD tx.from 0) = some (.ok receipt))
    (h : applyTx C H state tx baseFee proposer = some (r, st)) :
    FeeLaw state st tx proposer r ↔ ChargedInFull H state tx baseFee proposer gas := by
  obtain ⟨hpayload, hlimit, hreported, ⟨hprice, hburned, htip⟩, nonce, hbalances, hburn, hcovered⟩ :=
    applyTx_charged C H hadmitted h
  obtain rfl : gas = r.intrinsicGasUsed := Option.some.inj (hgas.symm.trans hpayload)
  rw [UInt64.le_iff_toNat_le] at hlimit
  have hlt := intrinsicGas_lt hgas
  have hused := congrArg UInt64.toNat hreported
  rw [toNat_satAdd] at hused
  have hagree := amounts_agree_iff hprice hburned htip (show _ ≤ r.gasUsed.toNat by omega)
  have hfit := fun hcharged => @amounts_fit _ _ _ _ r.gasUsed.toNat _ _ hprice hburned htip hcharged
  have hsum := price_mul r.intrinsicGasUsed.toNat hprice
  have hfrom := charge_from proposer nonce hcovered
  rw [← hbalances, toNat_satAdd] at hfrom
  have hproposer : proposer ≠ tx.from → (st.balances.getD proposer 0).toNat =
      min ((state.balances.getD proposer 0).toNat + r.tip.toNat) u64Max := by
    intro hother
    rw [hbalances]
    exact charge_proposer state r.burned r.tip nonce hother
  have hpost := congrArg UInt64.toNat hburn
  rw [toNat_satAdd] at hpost
  have hnone : payloadGas H state tx.payload tx.from = 0 ↔
      (payloadGas H state tx.payload tx.from).toNat = 0 := by
    rw [← UInt64.toNat_inj, UInt64.toNat_zero]
  -- gas is free exactly if both its parts are
  have hzero : r.effectiveGasPrice.toNat = 0 → r.intrinsicGasUsed.toNat * r.effectiveGasPrice.toNat = 0 :=
    fun hfree => by rw [hfree, Nat.mul_zero]
  constructor
  · intro law
    -- the debit and the split each name the total, so the reported gas costs what was taken
    have hwithin := UInt64.le_iff_toNat_le.mp law.within
    have hdebited := law.debited
    have hsplit := law.split
    have htotal : r.gasUsed.toNat * r.effectiveGasPrice.toNat =
        min (r.burned.toNat + r.tip.toNat) u64Max := by omega
    have hcharged := hagree.mp htotal
    have hparts := hfit hcharged
    refine ⟨?_, by omega, ?_⟩
    · rw [hnone, ← hprice]
      omega
    · intro hother
      have htipped := law.tipped hother
      rw [hproposer hother] at htipped
      omega
  · rintro ⟨hcharged, hburnable, hpayable⟩
    rw [hnone, ← hprice] at hcharged
    have hfull : r.effectiveGasPrice.toNat = 0 ∨ r.gasUsed.toNat = r.intrinsicGasUsed.toNat ∧
        r.intrinsicGasUsed.toNat * r.effectiveGasPrice.toNat ≤ u64Max := by omega
    have htotal := hagree.mpr hfull
    have hparts := hfit hfull
    refine ⟨UInt64.le_iff_toNat_le.mpr (by omega), by omega, ?_, by omega⟩
    intro hother
    have hpay := hpayable hother
    rw [hproposer hother]
    omega

theorem feeLaw_iff_set :
    ∃ r st, applyTx .demo .reject demoState (demoTx 1 0 "set k v") 2 (demoAddress 2) = some (r, st) ∧
      FeeLaw demoState st (demoTx 1 0 "set k v") (demoAddress 2) r := by
  have hadmit : ((admitTx .demo (demoTx 1 0 "set k v") 2 (demoState.nonces.getD (demoAddress 1) 0)
      (demoState.balances.getD (demoAddress 1) 0)).bind Except.toOption).isSome = true := by
    decide +kernel
  obtain ⟨receipt, hreceipt⟩ := Trace.exists_some_ok hadmit
  have hrun : (applyTx .demo .reject demoState (demoTx 1 0 "set k v") 2 (demoAddress 2)).isSome = true := by
    decide +kernel
  obtain ⟨⟨r, st⟩, h⟩ := Option.isSome_iff_exists.mp hrun
  have hgas : intrinsicGas (demoTx 1 0 "set k v").payload = some 21070 := by decide +kernel
  have hfull : ChargedInFull .reject demoState (demoTx 1 0 "set k v") 2 (demoAddress 2) 21070 := by
    refine ⟨.inl ⟨?_, ?_⟩, ?_, fun _ => ?_⟩ <;> decide +kernel
  exact ⟨r, st, h, (feeLaw_iff .demo .reject hgas hreceipt h).mpr hfull⟩

def demoTxLimit (n : UInt8) (nonce gasLimit : UInt64) (payload : String) : Tx :=
  let tx : Tx := { demoTx n nonce payload with gasLimit := gasLimit }
  { tx with signature := demoKey n ++ txSignBytes .demo tx }

def Handlers.acceptStaking : Handlers :=
  { Handlers.reject with tryApplyStakingTx := fun kv _ _ => (.ok (), kv) }

/-- The limit is the intrinsic gas. -/
theorem applyTx_uncharged_gas :
    (applyTx .demo .acceptStaking demoState (demoTxLimit 1 0 21090 "staking:x") 2
      (demoAddress 2)).map (fun res => (res.1.success, res.1.gasUsed, res.1.effectiveGasPrice,
        res.2.balances.getD (demoAddress 1) 0, res.2.burned, res.1.tip)) =
      some (true, 22090, 3, 1000000 - 21090 * 3, 21090 * 2, 21090) := by
  decide +kernel

end Iona
