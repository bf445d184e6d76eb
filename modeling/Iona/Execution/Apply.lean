import Iona.Execution.State
import Iona.Lib.MapSum

/-! # Applying one transaction -/

namespace Iona

open Machine

inductive VmTxPayload where
  | deploy (code params : List UInt8)
  | call (contract method args : List UInt8)

structure Handlers where
  tryApplyStakingTx : BTreeMap String String → String → String →
    Except String Unit × BTreeMap String String
  parseVmPayload : String → Except String VmTxPayload
  vmDeploy : VmStorage → List UInt8 → List UInt8 → Except String (List UInt8) × UInt64 × VmStorage
  vmCall : VmStorage → List UInt8 → List UInt8 → List UInt8 →
    Except String (List UInt8) × UInt64 × VmStorage

def Handlers.reject : Handlers where
  tryApplyStakingTx kv _ _ := (.error "unsupported", kv)
  parseVmPayload _ := .error "unsupported"
  vmDeploy vm _ _ := (.error "unsupported", 0, vm)
  vmCall vm _ _ _ := (.error "unsupported", 0, vm)

variable (C : Crypto) (H : Handlers)

def deriveAddress (pubkey : PublicKeyBytes) : Option String :=
  if pubkey.length ≠ 32 then none
  else some (Bytes.hexEncode ((C.blake3 pubkey).toList.take 20))

def txSignBytes (tx : Tx) : List UInt8 :=
  C.jsonTuple "iona-tx-v1" tx.chainId tx.pubkey tx.nonce tx.maxFeePerGas tx.maxPriorityFeePerGas
    tx.gasLimit tx.payload

def verifyTxSignature (tx : Tx) : Except ExecutionError String :=
  if deriveAddress C tx.pubkey ≠ some tx.from then .error (.invalidTx "from != derived address")
  else if C.verify tx.pubkey (txSignBytes C tx) tx.signature then .ok tx.from
  else .error .invalidSignature

def admitTx (tx : Tx) (baseFee expected bal : UInt64) : Option (Except Receipt Receipt) :=
  let receipt : Receipt := { txHash := txHash C tx }
  match verifyTxSignature C tx with
  | .error e => some (.error { receipt with error := some e.text })
  | .ok _ => do
    if tx.nonce ≠ expected then
      return .error { receipt with
        error := some ("bad nonce: expected " ++ toString expected.toNat ++ ", got " ++
          toString tx.nonce.toNat) }
    let intrinsic ← intrinsicGas tx.payload
    let receipt := { receipt with intrinsicGasUsed := intrinsic, gasUsed := intrinsic }
    if tx.gasLimit < intrinsic then
      return .error { receipt with
        error := some ("gas limit " ++ toString tx.gasLimit.toNat ++ " < intrinsic " ++
          toString intrinsic.toNat) }
    if tx.maxFeePerGas < baseFee then
      return .error { receipt with
        error := some ("max fee " ++ toString tx.maxFeePerGas.toNat ++ " < base fee " ++
          toString baseFee.toNat) }
    let maxTip := satSub tx.maxFeePerGas baseFee
    let priorityFee := min tx.maxPriorityFeePerGas maxTip
    let burned := satMul baseFee intrinsic
    let tip := satMul priorityFee intrinsic
    let total := satAdd burned tip
    let receipt := { receipt with
      effectiveGasPrice := satAdd baseFee priorityFee, burned := burned, tip := tip }
    if bal < total then
      return .error { receipt with
        error := some ("insufficient balance: need " ++ toString total.toNat ++ ", have " ++
          toString bal.toNat) }
    return .ok receipt

def charge (state : KvState) («from» proposer : String) (burned tip nonce : UInt64) : KvState :=
  let balances := state.balances.insert «from»
    (state.balances.getD «from» 0 - satAdd burned tip)
  { state with
    balances := balances.insert proposer (satAdd (balances.getD proposer 0) tip)
    burned := satAdd state.burned burned
    nonces := state.nonces.insert «from» nonce }

def vmReceipt (receipt : Receipt) (label : String) (result : Except String (List UInt8))
    (gasUsed : UInt64) : Receipt :=
  let receipt := { receipt with
    vmGasUsed := gasUsed, gasUsed := satAdd receipt.gasUsed gasUsed }
  match result with
  | .ok data => { receipt with success := true, data := some (Bytes.hexEncode data) }
  | .error e => { receipt with error := some (label ++ e) }

def applyPayload (receipt : Receipt) (working : KvState) (payload «from» : String) :
    Option (Receipt × KvState) :=
  match Text.stripPrefix "staking:" payload with
  | some staking =>
    match H.tryApplyStakingTx working.kv staking «from» with
    | (.ok (), kv) =>
      some ({ receipt with
        success := true, gasUsed := satAdd receipt.gasUsed 1000, execGasUsed := 1000 },
        { working with kv := kv })
    | (.error e, kv) =>
      some ({ receipt with error := some ("staking error: " ++ e) }, { working with kv := kv })
  | none =>
    match Text.stripPrefix "vm " (Text.trimStart payload) with
    | some vm =>
      match H.parseVmPayload vm with
      | .ok (.deploy code params) =>
        let (result, gasUsed, vm) := H.vmDeploy working.vm code params
        some (vmReceipt receipt "vm deploy error: " result gasUsed, { working with vm := vm })
      | .ok (.call contract method args) =>
        let (result, gasUsed, vm) := H.vmCall working.vm contract method args
        some (vmReceipt receipt "vm call error: " result gasUsed, { working with vm := vm })
      | .error e => some ({ receipt with error := some ("vm payload parse error: " ++ e) }, working)
    | none => do
      match ← applyKvPayload working.kv payload with
      | .ok kv => return ({ receipt with success := true }, { working with kv := kv })
      | .error e => return ({ receipt with error := some e.text }, working)

def applyTx (state : KvState) (tx : Tx) (baseFee : UInt64) (proposer : String) :
    Option (Receipt × KvState) := do
  let expected := state.nonces.getD tx.from 0
  match ← admitTx C tx baseFee expected (state.balances.getD tx.from 0) with
  | .error receipt => return (receipt, state)
  | .ok receipt =>
    let nonce ← checked (expected.toNat + 1)
    let working := charge state tx.from proposer receipt.burned receipt.tip nonce
    applyPayload H receipt working tx.payload tx.from

/-! ### What admission and payload guarantee -/

lemma admitTx_spec {tx : Tx} {baseFee expected bal : UInt64} {receipt : Receipt}
    (h : admitTx C tx baseFee expected bal = some (.ok receipt)) :
    tx.nonce = expected ∧ satAdd receipt.burned receipt.tip ≤ bal ∧
      receipt.error = none := by
  unfold admitTx at h
  simp only [] at h
  split at h
  · simp at h
  · split at h
    · simp at h
    · rename_i hnonce
      obtain ⟨intrinsic, -, h⟩ := Option.bind_eq_some_iff.mp h
      split at h
      · simp at h
      split at h
      · simp at h
      split at h
      · simp at h
      · rename_i hbal
        obtain rfl : _ = receipt := by simpa using h
        exact ⟨not_not.mp hnonce, UInt64.not_lt.mp hbal, rfl⟩

lemma applyPayload_frame {receipt r : Receipt} {working st : KvState} {payload «from» : String}
    (h : applyPayload H receipt working payload «from» = some (r, st)) :
    st.balances = working.balances ∧ st.nonces = working.nonces ∧ st.burned = working.burned := by
  unfold applyPayload at h
  split at h
  · split at h
    all_goals
      cases h
      exact ⟨rfl, rfl, rfl⟩
  · split at h
    · split at h
      all_goals
        cases h
        exact ⟨rfl, rfl, rfl⟩
    · obtain ⟨res, -, h⟩ := Option.bind_eq_some_iff.mp h
      cases res with
      | ok kv =>
        cases h
        exact ⟨rfl, rfl, rfl⟩
      | error e =>
        cases h
        exact ⟨rfl, rfl, rfl⟩

lemma applyTx_cases {state st : KvState} {tx : Tx} {baseFee : UInt64} {proposer : String}
    {r : Receipt} (h : applyTx C H state tx baseFee proposer = some (r, st)) :
    (st = state ∧ admitTx C tx baseFee (state.nonces.getD tx.from 0)
        (state.balances.getD tx.from 0) = some (.error r)) ∨
      ∃ receipt nonce,
        admitTx C tx baseFee (state.nonces.getD tx.from 0) (state.balances.getD tx.from 0) =
          some (.ok receipt) ∧
        nonce.toNat = (state.nonces.getD tx.from 0).toNat + 1 ∧
        applyPayload H receipt (charge state tx.from proposer receipt.burned receipt.tip nonce)
          tx.payload tx.from = some (r, st) := by
  obtain ⟨res, hadmitted, h⟩ := Option.bind_eq_some_iff.mp h
  cases res with
  | error receipt =>
    cases h
    exact .inl ⟨rfl, hadmitted⟩
  | ok receipt =>
    obtain ⟨nonce, hnonce, h⟩ := Option.bind_eq_some_iff.mp h
    exact .inr ⟨receipt, nonce, hadmitted, checked_eq_some_iff.mp hnonce, h⟩

/-! ### Conservation -/

def KvState.supply (st : KvState) : ℕ := MapSum.sumBy UInt64.toNat st.balances + st.burned.toNat

lemma share_getElem? (m : BTreeMap String UInt64) (k : String) :
    MapSum.share UInt64.toNat m[k]? = (m.getD k 0).toNat :=
  MapSum.share_getD UInt64.toNat m k rfl

lemma charge_supply {state : KvState} {«from» : String} (proposer : String) {burned tip : UInt64}
    (nonce : UInt64) (hmax : state.supply < u64Max)
    (hbal : satAdd burned tip ≤ state.balances.getD «from» 0) :
    (charge state «from» proposer burned tip nonce).supply = state.supply := by
  have hdebit := MapSum.sumBy_insert UInt64.toNat state.balances «from»
    (state.balances.getD «from» 0 - satAdd burned tip)
  have hfrom := MapSum.share_le_sumBy UInt64.toNat state.balances «from»
  rw [share_getElem?] at hdebit hfrom
  rw [UInt64.toNat_sub_of_le _ _ hbal] at hdebit
  rw [UInt64.le_iff_toNat_le, toNat_satAdd] at hbal
  unfold KvState.supply charge at *
  simp only [toNat_satAdd] at hdebit ⊢
  generalize hb : state.balances.insert «from» _ = balances at hdebit ⊢
  have hcredit := MapSum.sumBy_insert UInt64.toNat balances proposer
    (satAdd (balances.getD proposer 0) tip)
  have hprop := MapSum.share_le_sumBy UInt64.toNat balances proposer
  rw [share_getElem?] at hcredit hprop
  rw [toNat_satAdd] at hcredit
  omega

/-- **Execution conserves tokens**: the supply stays what it was, as long as it is below the
maximum. -/
theorem applyTx_supply {state st : KvState} {tx : Tx} {baseFee : UInt64} {proposer : String}
    {r : Receipt} (hmax : state.supply < u64Max)
    (h : applyTx C H state tx baseFee proposer = some (r, st)) : st.supply = state.supply := by
  obtain ⟨rfl, -⟩ | ⟨receipt, nonce, hadmitted, -, hpay⟩ := applyTx_cases C H h
  · rfl
  · obtain ⟨hbalances, -, hburned⟩ := applyPayload_frame H hpay
    have hbal := (admitTx_spec C hadmitted).2.1
    rw [KvState.supply, hbalances, hburned]
    exact charge_supply proposer nonce hmax hbal

def demoKey (n : UInt8) : PublicKeyBytes := List.replicate 32 n

def demoAddress (n : UInt8) : String := (deriveAddress .demo (demoKey n)).getD ""

def demoTx (n : UInt8) (nonce : UInt64) (payload : String) : Tx :=
  let tx : Tx :=
    { pubkey := demoKey n, «from» := demoAddress n, nonce := nonce, maxFeePerGas := 3,
      maxPriorityFeePerGas := 1, gasLimit := 100000, payload := payload, signature := [],
      chainId := 1 }
  { tx with signature := demoKey n ++ txSignBytes .demo tx }

def demoState : KvState where
  balances := .ofList [(demoAddress 1, 1000000), (demoAddress 2, 1000000), (demoAddress 3, 1000000)]
    compare

/-- A proposer that sends a transaction pays itself the tip; the supply is what it was. -/
theorem applyTx_supply_own_block :
    ∃ r st, applyTx .demo .reject demoState (demoTx 1 0 "set k v") 2 (demoAddress 1) = some (r, st) ∧
      r.success = true ∧ st.supply = demoState.supply := by
  have hrun : ((applyTx .demo .reject demoState (demoTx 1 0 "set k v") 2 (demoAddress 1)).map
      fun res => res.1.success) = some true := by decide +kernel
  obtain ⟨⟨r, st⟩, h, hr⟩ := Option.map_eq_some_iff.mp hrun
  exact ⟨r, st, h, hr, applyTx_supply .demo .reject (by decide +kernel) h⟩

end Iona
