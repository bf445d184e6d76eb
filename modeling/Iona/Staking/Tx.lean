import Iona.Staking.State
import Iona.Execution.Apply

/-!
# Staking transactions

`try_apply_staking_tx` of `economics/staking_tx.rs`.
-/

namespace Iona

open Machine MapSum

structure EconomicsParams where
  minStake : ℕ := 10000000000
  unbondingEpochs : UInt64 := 14

inductive StakingTxError where
  | emptySender
  | missingArgument (name : String)
  | invalidArgument (name value : String)
  | unknownAction (action : String)
  | zeroAmount
  | insufficientBalance (have_ need : ℕ)
  | belowMinStake (have_ need : ℕ)
  | validatorExists (validator : String)
  | validatorMissing (validator : String)
  | commissionOutOfRange (bps : UInt64)
  | nothingToWithdraw (validator : String)
  | hasExternalDelegations (validator : String) (amount : ℕ)
  | overflow (op : String)
  | domain (e : StakingError)
  deriving DecidableEq

structure StakingTxResult where
  success : Bool
  error : Option StakingTxError
  gasUsed : UInt64
  deriving DecidableEq

structure Ledger where
  kv : KvState
  staking : StakingState
  deriving DecidableEq

def gasBase : UInt64 := 21000
def gasDelegate : UInt64 := gasBase + 5000
def gasUndelegate : UInt64 := gasBase + 5000
def gasWithdraw : UInt64 := gasBase
def gasRegister : UInt64 := gasBase + 10000
def gasDeregister : UInt64 := gasBase
def gasUnknownAction : UInt64 := gasBase

def gasForAction : String → UInt64
  | "delegate" => gasDelegate
  | "undelegate" => gasUndelegate
  | "withdraw" => gasWithdraw
  | "register" => gasRegister
  | "deregister" => gasDeregister
  | _ => gasUnknownAction

/-! ### Helpers -/

def parseU128 (s name : String) : Except StakingTxError ℕ :=
  match Text.parseUnsigned u128Max s with
  | some n => .ok n
  | none => .error (.invalidArgument name s)

def parseU64 (s name : String) : Except StakingTxError UInt64 :=
  match Text.parseUnsigned u64Max s with
  | some n => .ok (.ofNat n)
  | none => .error (.invalidArgument name s)

def readBalance (kv : KvState) (addr : String) : ℕ := (kv.balances.getD addr 0).toNat

def debitBalance (kv : KvState) (addr : String) (amount : ℕ) : Except StakingTxError KvState :=
  let balance := readBalance kv addr
  if balance < amount then .error (.overflow "debit_balance")
  else match checked (balance - amount) with
    | none => .error (.overflow "debit_balance")
    | some b => .ok { kv with balances := kv.balances.insert addr b }

def creditBalance (kv : KvState) (addr : String) (amount : ℕ) : Except StakingTxError KvState :=
  match (checkedAdd128 (readBalance kv addr) amount).bind checked with
  | none => .error (.overflow "credit_balance")
  | some b => .ok { kv with balances := kv.balances.insert addr b }

def parseAmountArgs : List String → Except StakingTxError (String × ℕ)
  | [] => .error (.missingArgument "validator")
  | [_] => .error (.missingArgument "amount")
  | validator :: amount :: _ => do
    let amount ← parseU128 amount "amount"
    if amount = 0 then .error .zeroAmount else .ok (validator, amount)

/-! ### Handlers -/

def applyDelegate (args : List String) («from» : String) (l : Ledger) :
    Except StakingTxError UInt64 × Ledger :=
  match parseAmountArgs args with
  | .error e => (.error e, l)
  | .ok (validator, amount) =>
    let balance := readBalance l.kv «from»
    if balance < amount then (.error (.insufficientBalance balance amount), l)
    else match l.staking.delegate «from» validator amount balance with
      | .error e => (.error (.domain e), l)
      | .ok staking => match debitBalance l.kv «from» amount with
        | .error e => (.error e, { l with staking := staking })
        | .ok kv => (.ok gasDelegate, { kv := kv, staking := staking })

def applyUndelegate (args : List String) («from» : String) (l : Ledger) (params : EconomicsParams)
    (epoch : UInt64) : Except StakingTxError UInt64 × Ledger :=
  match parseAmountArgs args with
  | .error e => (.error e, l)
  | .ok (validator, amount) =>
    match l.staking.undelegate «from» validator amount epoch params.unbondingEpochs with
    | (.error e, staking) => (.error (.domain e), { l with staking := staking })
    | (.ok _, staking) => (.ok gasUndelegate, { l with staking := staking })

def applyWithdraw (args : List String) («from» : String) (l : Ledger) (epoch : UInt64) :
    Except StakingTxError UInt64 × Ledger :=
  match args with
  | [] => (.error (.missingArgument "validator"), l)
  | validator :: _ => match l.staking.withdraw «from» validator epoch with
    | (.error e, staking) => (.error (.domain e), { l with staking := staking })
    | (.ok withdrawn, staking) =>
      let l := { l with staking := staking }
      if withdrawn = 0 then (.error (.nothingToWithdraw validator), l)
      else match creditBalance l.kv «from» withdrawn with
        | .error e => (.error e, l)
        | .ok kv => (.ok gasWithdraw, { l with kv := kv })

def applyRegister (args : List String) («from» : String) (l : Ledger) (params : EconomicsParams) :
    Except StakingTxError UInt64 × Ledger :=
  match args with
  | [] => (.error (.missingArgument "commission_bps"), l)
  | arg :: _ => match parseU64 arg "commission_bps" with
    | .error e => (.error e, l)
    | .ok commissionBps =>
      if commissionBps > maxBps then (.error (.commissionOutOfRange commissionBps), l)
      else if «from» ∈ l.staking.validators then (.error (.validatorExists «from»), l)
      else
        let balance := readBalance l.kv «from»
        if balance < params.minStake then (.error (.belowMinStake balance params.minStake), l)
        else match checked (balance - params.minStake) with
          | none => (.error (.overflow "register.debit"), l)
          | some newBalance =>
            match EconValidator.new «from» params.minStake commissionBps with
            | .error e => (.error (.domain e), l)
            | .ok validator => (.ok gasRegister,
              { kv := { l.kv with balances := l.kv.balances.insert «from» newBalance }
                staking := { l.staking with
                  validators := l.staking.validators.insert «from» validator } })

def externalDelegations (s : StakingState) (validator : String) : ℕ :=
  (s.delegations.toList.filter fun e => e.1.2 = validator ∧ e.1.1 ≠ validator).foldl
    (fun acc e => min (acc + e.2.amount) u128Max) 0

def dropSelfDelegation (s : StakingState) (validator : String) : StakingState :=
  match s.delegations[(validator, validator)]? with
  | none => s
  | some d =>
    if d.unbondings = [] then { s with delegations := s.delegations.erase (validator, validator) }
    else { s with delegations := s.delegations.insert (validator, validator) { d with amount := 0 } }

def applyDeregister («from» : String) (l : Ledger) : Except StakingTxError UInt64 × Ledger :=
  match l.staking.validators[«from»]? with
  | none => (.error (.validatorMissing «from»), l)
  | some validator =>
    let external := externalDelegations l.staking «from»
    if external > 0 then (.error (.hasExternalDelegations «from» external), l)
    else
      match (checkedAdd128 (readBalance l.kv «from») validator.selfStake).bind checked with
      | none => (.error (.overflow "deregister.credit"), l)
      | some newBalance =>
        let staking := { l.staking with validators := l.staking.validators.erase «from» }
        (.ok gasDeregister,
          { kv := { l.kv with balances := l.kv.balances.insert «from» newBalance }
            staking := dropSelfDelegation staking «from» })

/-! ### Entry point -/

def parseStakingPayload (payload : String) : Option (String × List String) := do
  let rest ← Text.stripPrefix "stake " (Text.trim payload)
  match Text.splitWhitespace rest with
  | [] => return ("", [])
  | action :: args => return (action, args)

def dispatch (action : String) (args : List String) («from» : String) (l : Ledger)
    (params : EconomicsParams) (epoch : UInt64) : Except StakingTxError UInt64 × Ledger :=
  match action with
  | "delegate" => applyDelegate args «from» l
  | "undelegate" => applyUndelegate args «from» l params epoch
  | "withdraw" => applyWithdraw args «from» l epoch
  | "register" => applyRegister args «from» l params
  | "deregister" => applyDeregister «from» l
  | other => (.error (.unknownAction other), l)

def tryApplyStakingTx (payload «from» : String) (l : Ledger) (params : EconomicsParams)
    (epoch : UInt64) : Option (StakingTxResult × Ledger) := do
  let (action, args) ← parseStakingPayload payload
  if «from» = "" then return (⟨false, some .emptySender, gasUnknownAction⟩, l)
  match dispatch action args «from» l params epoch with
  | (.ok gas, l) => return (⟨true, none, gas⟩, l)
  | (.error e, l) => return (⟨false, some e, gasForAction action⟩, l)

/-! ### Conservation -/

def Ledger.total (l : Ledger) : ℕ :=
  sumBy UInt64.toNat l.kv.balances + l.staking.bonded

variable {l : Ledger}

lemma readBalance_le (kv : KvState) (addr : String) :
    readBalance kv addr ≤ sumBy UInt64.toNat kv.balances := by
  rw [readBalance, ← share_getElem?]
  exact share_le_sumBy _ _ _

lemma sumBy_setBalance (kv : KvState) (addr : String) (b : UInt64) :
    sumBy UInt64.toNat (kv.balances.insert addr b) + readBalance kv addr =
      sumBy UInt64.toNat kv.balances + b.toNat := by
  rw [readBalance, ← share_getElem?]
  exact sumBy_insert _ _ _ _

lemma debitBalance_sum {kv : KvState} {addr : String} {amount : ℕ}
    (h : amount ≤ readBalance kv addr) :
    ∃ kv', debitBalance kv addr amount = .ok kv' ∧
      sumBy UInt64.toNat kv'.balances + amount = sumBy UInt64.toNat kv.balances := by
  have hfit : readBalance kv addr - amount ≤ u64Max :=
    (Nat.sub_le _ _).trans (toNat_le _)
  have hset := sumBy_setBalance kv addr (.ofNat (readBalance kv addr - amount))
  rw [toNat_ofNat hfit] at hset
  have hbal := readBalance_le kv addr
  simp only [debitBalance, checked, if_pos hfit, if_neg (not_lt.mpr h)]
  exact ⟨_, rfl, by simp only; omega⟩

lemma raise_balance (kv : KvState) (addr : String) (amount : ℕ)
    (h : readBalance kv addr + amount ≤ u64Max) :
    ∃ b, (checkedAdd128 (readBalance kv addr) amount).bind checked = some b ∧
      sumBy UInt64.toNat (kv.balances.insert addr b) =
        sumBy UInt64.toNat kv.balances + amount := by
  have h128 : readBalance kv addr + amount ≤ u128Max := h.trans (by decide)
  have hset := sumBy_setBalance kv addr (.ofNat (readBalance kv addr + amount))
  rw [toNat_ofNat h] at hset
  refine ⟨.ofNat (readBalance kv addr + amount), ?_, by omega⟩
  rw [checkedAdd128, if_pos h128, Option.bind_some, checked, if_pos h]

lemma applyDelegate_total (args : List String) («from» : String) (l : Ledger) :
    (applyDelegate args «from» l).2.total = l.total := by
  unfold applyDelegate
  split
  · rfl
  rename_i validator amount _
  simp only
  split
  · rfl
  split
  · rfl
  rename_i staking hdel
  obtain ⟨hle, hbonded⟩ := StakingState.delegate_bonded hdel
  obtain ⟨kv, hkv, hsum⟩ := debitBalance_sum hle
  simp only [hkv, Ledger.total, hbonded]
  omega

lemma applyUndelegate_total (args : List String) («from» : String) (l : Ledger)
    (params : EconomicsParams) (epoch : UInt64) :
    (applyUndelegate args «from» l params epoch).2.total = l.total := by
  unfold applyUndelegate
  split
  · rfl
  rename_i validator amount _
  have hbonded := l.staking.undelegate_bonded «from» validator amount epoch params.unbondingEpochs
  split
  all_goals
    rename_i heq
    rw [heq] at hbonded
    simp only [Ledger.total, hbonded]

lemma applyWithdraw_total (args : List String) («from» : String) (epoch : UInt64)
    (hfit : l.total ≤ u64Max) : (applyWithdraw args «from» l epoch).2.total = l.total := by
  have hfit128 : l.staking.bonded ≤ u128Max := by
    have : u64Max ≤ u128Max := by decide
    unfold Ledger.total at hfit
    omega
  unfold applyWithdraw
  split
  · rfl
  rename_i validator _
  split
  · rename_i e staking heq
    have hbonded := StakingState.withdraw_bonded hfit128 heq
    simp only [Ledger.total, Except.toOption, Option.getD_none] at hbonded ⊢
    omega
  · rename_i withdrawn staking heq
    have hbonded := StakingState.withdraw_bonded hfit128 heq
    simp only [Except.toOption, Option.getD_some] at hbonded
    simp only
    split
    · simp only [Ledger.total]
      omega
    · have hbal := readBalance_le l.kv «from»
      obtain ⟨b, hb, hsum⟩ := raise_balance l.kv «from» withdrawn
        (by unfold Ledger.total at hfit; omega)
      simp only [creditBalance, hb, Ledger.total, hsum]
      omega

lemma applyRegister_total (args : List String) («from» : String) (l : Ledger)
    (params : EconomicsParams) : (applyRegister args «from» l params).2.total = l.total := by
  unfold applyRegister
  split
  · rfl
  split
  · rfl
  split
  · rfl
  split
  · rfl
  rename_i hnew
  simp only
  split
  · rfl
  rename_i hmin
  split
  · rfl
  rename_i newBalance hchecked
  split
  · rfl
  rename_i validator hval
  have hself : validator.selfStake = params.minStake := by
    unfold EconValidator.new at hval
    split at hval <;> cases hval
    rfl
  have hset := sumBy_setBalance l.kv «from» newBalance
  rw [checked_eq_some_iff.mp hchecked] at hset
  have hins := sumBy_insert_of_none EconValidator.selfStake
    (Std.ExtTreeMap.getElem?_eq_none hnew) validator
  have hbal := readBalance_le l.kv «from»
  simp only [Ledger.total, StakingState.bonded, hins, hself]
  omega

def selfDelegated (s : StakingState) (validator : String) : ℕ :=
  (s.delegations.getD (validator, validator) {}).amount

lemma dropSelfDelegation_bonded (s : StakingState) (validator : String) :
    (dropSelfDelegation s validator).bonded + selfDelegated s validator = s.bonded := by
  unfold dropSelfDelegation selfDelegated
  rw [Std.ExtTreeMap.getD_eq_getD_getElem?]
  split
  · rename_i h
    simp [h]
  · rename_i d h
    split
    · rename_i hempty
      have := sumBy_erase Delegation.held s.delegations (validator, validator)
      rw [h, share_some, Delegation.held, hempty, pending_nil] at this
      simp only [h, StakingState.bonded, Option.getD_some]
      omega
    · have := sumBy_insert Delegation.held s.delegations (validator, validator)
        { d with amount := 0 }
      rw [h, share_some] at this
      simp only [h, StakingState.bonded, Option.getD_some, Delegation.held] at this ⊢
      omega

lemma applyDeregister_total («from» : String) (hfit : l.total ≤ u64Max) :
    (applyDeregister «from» l).2.total +
        (if «from» ∈ l.staking.validators ∧ externalDelegations l.staking «from» = 0
          then selfDelegated l.staking «from» else 0) = l.total := by
  unfold applyDeregister
  split
  · rename_i hnone
    have hnot : «from» ∉ l.staking.validators := by
      rw [Std.ExtTreeMap.mem_iff_isSome_getElem?, hnone]
      simp
    rw [if_neg fun h => hnot h.1]
    rfl
  rename_i v hv
  have hmem : «from» ∈ l.staking.validators := by
    rw [Std.ExtTreeMap.mem_iff_isSome_getElem?, hv]
    rfl
  simp only
  split
  · rename_i hext
    rw [if_neg fun h => hext.ne' h.2]
    rfl
  rename_i hext
  have hshare := sumBy_erase EconValidator.selfStake l.staking.validators «from»
  rw [hv, share_some] at hshare
  have hbal := readBalance_le l.kv «from»
  obtain ⟨b, hb, hsum⟩ := raise_balance l.kv «from» v.selfStake (by
    unfold Ledger.total StakingState.bonded at hfit
    omega)
  have hdrop := dropSelfDelegation_bonded
    { l.staking with validators := l.staking.validators.erase «from» } «from»
  rw [if_pos ⟨hmem, by omega⟩]
  simp only [hb, Ledger.total, hsum, StakingState.bonded, selfDelegated] at hdrop ⊢
  omega

structure StakingTx where
  payload : String
  «from» : String
  params : EconomicsParams
  epoch : UInt64

structure Forfeits (tx : StakingTx) (l : Ledger) : Prop where
  action : (parseStakingPayload tx.payload).map Prod.fst = some "deregister"
  sender : tx.from ≠ ""
  registered : tx.from ∈ l.staking.validators
  external : externalDelegations l.staking tx.from = 0
  bonded : 0 < selfDelegated l.staking tx.from

@[irreducible] def Ledger.apply (l : Ledger) (tx : StakingTx) : Ledger :=
  ((tryApplyStakingTx tx.payload tx.from l tx.params tx.epoch).map Prod.snd).getD l

lemma apply_eq (l : Ledger) (tx : StakingTx) :
    l.apply tx = match parseStakingPayload tx.payload with
      | none => l
      | some (action, args) =>
        if tx.from = "" then l else (dispatch action args tx.from l tx.params tx.epoch).2 := by
  unfold Ledger.apply tryApplyStakingTx
  cases parseStakingPayload tx.payload with
  | none => rfl
  | some res =>
    by_cases hfrom : tx.from = ""
    · simp [hfrom]
    · simp only [hfrom, bind, Option.bind, if_false]
      split <;> simp_all

lemma dispatch_total {action : String} (hne : action ≠ "deregister") (args : List String)
    («from» : String) (params : EconomicsParams) (epoch : UInt64) (hfit : l.total ≤ u64Max) :
    (dispatch action args «from» l params epoch).2.total = l.total := by
  unfold dispatch
  split
  · exact applyDelegate_total args «from» l
  · exact applyUndelegate_total args «from» l params epoch
  · exact applyWithdraw_total args «from» epoch hfit
  · exact applyRegister_total args «from» l params
  · exact absurd rfl hne
  · rfl

lemma apply_total_of_forfeits {tx : StakingTx} (hfit : l.total ≤ u64Max)
    (h : Forfeits tx l) : (l.apply tx).total + selfDelegated l.staking tx.from = l.total := by
  obtain ⟨⟨action, args⟩, hparse, haction⟩ := Option.map_eq_some_iff.mp h.action
  obtain rfl : action = "deregister" := haction
  have hder := applyDeregister_total tx.from hfit
  rw [if_pos ⟨h.registered, h.external⟩] at hder
  simpa only [apply_eq, hparse, if_neg h.sender, dispatch] using hder

lemma apply_total_of_not_forfeits {tx : StakingTx} (hfit : l.total ≤ u64Max)
    (h : ¬ Forfeits tx l) : (l.apply tx).total = l.total := by
  rw [apply_eq]
  split
  · rfl
  rename_i action args hparse
  split
  · rfl
  rename_i hfrom
  by_cases haction : action = "deregister"
  · subst haction
    have hder := applyDeregister_total tx.from hfit
    split at hder
    · rename_i hreg
      have hzero : selfDelegated l.staking tx.from = 0 := by
        by_contra hpos
        exact h ⟨by rw [hparse, Option.map_some], hfrom, hreg.1, hreg.2, Nat.pos_of_ne_zero hpos⟩
      rw [hzero] at hder
      exact hder
    · exact hder
  · exact dispatch_total haction args tx.from tx.params tx.epoch hfit

lemma apply_total_le (tx : StakingTx) (hfit : l.total ≤ u64Max) :
    (l.apply tx).total ≤ l.total := by
  by_cases h : Forfeits tx l
  · have := apply_total_of_forfeits hfit h
    omega
  · exact (apply_total_of_not_forfeits hfit h).le

def Ledger.run (l : Ledger) : List StakingTx → Ledger
  | [] => l
  | tx :: txs => (l.apply tx).run txs

lemma run_cons (l : Ledger) (tx : StakingTx) (txs : List StakingTx) :
    l.run (tx :: txs) = (l.apply tx).run txs := by
  rw [Ledger.run]

lemma run_total_le (txs : List StakingTx) (hfit : l.total ≤ u64Max) :
    (l.run txs).total ≤ l.total := by
  induction txs generalizing l with
  | nil => exact le_rfl
  | cons tx txs ih =>
    have hstep := apply_total_le tx hfit
    rw [run_cons]
    exact (ih (hstep.trans hfit)).trans hstep

/-- **When staking conserves tokens**: along a run exactly if no validator with a stake of its own
deregisters. -/
theorem run_total_eq_iff (txs : List StakingTx) {l : Ledger} (hfit : l.total ≤ u64Max) :
    (l.run txs).total = l.total ↔
      ∀ pre tx post, txs = pre ++ tx :: post → ¬ Forfeits tx (l.run pre) := by
  induction txs generalizing l with
  | nil => simp [Ledger.run]
  | cons tx txs ih =>
    have hstep := apply_total_le tx hfit
    have hrest := run_total_le txs (hstep.trans hfit)
    rw [run_cons]
    constructor
    · intro heq pre t post hsplit
      cases pre with
      | nil =>
        obtain ⟨rfl, rfl⟩ := List.cons.inj hsplit
        intro hforfeit
        have hloss := apply_total_of_forfeits hfit hforfeit
        have hpos : 0 < selfDelegated l.staking tx.from := hforfeit.bonded
        omega
      | cons p pre =>
        obtain ⟨rfl, rfl⟩ := List.cons.inj hsplit
        rw [run_cons]
        exact (ih (hstep.trans hfit)).mp (by omega) pre t post rfl
    · intro hall
      have hkeep := apply_total_of_not_forfeits hfit (hall [] tx txs rfl)
      rw [← hkeep]
      refine (ih (hstep.trans hfit)).mpr fun pre t post hsplit => ?_
      rw [← run_cons]
      exact hall (tx :: pre) t post (by rw [hsplit, List.cons_append])

def selfDelegator : Ledger where
  kv := { balances := .ofList [("alice", 1000)] compare }
  staking := { validators := .ofList [("alice", ⟨"alice", 500, 500, false, 0⟩)] compare }

def selfDelegatorTxs : List StakingTx :=
  [⟨"stake delegate alice 400", "alice", {}, 0⟩, ⟨"stake deregister", "alice", {}, 0⟩]

/-- Deregistering, it gets its own bond back and loses the delegation. -/
theorem run_total_self_delegator :
    selfDelegator.total = 1500 ∧ (selfDelegator.run selfDelegatorTxs).total = 1100 := by
  decide +kernel

/-- The first of the two transactions alone keeps the total. -/
theorem run_total_eq_iff_delegate :
    (selfDelegator.run (selfDelegatorTxs.take 1)).total = selfDelegator.total ↔
      ∀ pre tx post, selfDelegatorTxs.take 1 = pre ++ tx :: post →
        ¬ Forfeits tx (selfDelegator.run pre) :=
  run_total_eq_iff (selfDelegatorTxs.take 1) (by decide +kernel)

end Iona
