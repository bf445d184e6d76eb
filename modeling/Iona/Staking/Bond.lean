import Iona.Staking.Slash

/-!
# The bond invariant

From `economics/staking.rs`.
-/

namespace Iona

open MapSum Std.ExtTreeMap Option

def towards (validator : String) (key : String × String) (d : Delegation) : ℕ :=
  if key.2 = validator then d.amount else 0

def delegatedTo (delegations : BTreeMap (String × String) Delegation) (validator : String) : ℕ :=
  sumOn (towards validator) delegations

variable {other validator : String} {key : String × String} {bps : UInt64}

@[simp] lemma towards_self (delegator validator : String) (d : Delegation) :
    towards validator (delegator, validator) d = d.amount := if_pos rfl

lemma towards_of_ne (h : key.2 ≠ validator) (d : Delegation) :
    towards validator key d = 0 := if_neg h

lemma share_towards_of_ne (h : key.2 ≠ validator) (d : Option Delegation) :
    share (towards validator key) d = 0 := by
  cases d with
  | none => rfl
  | some d => exact towards_of_ne h d

section Sums

variable {delegations : BTreeMap (String × String) Delegation}

lemma amount_le_delegatedTo {d : Delegation} (h : delegations[key]? = some d) :
    d.amount ≤ delegatedTo delegations key.2 := by
  have hle := share_le_sumOn (towards key.2) delegations key
  rw [h, share_some] at hle
  rwa [towards, if_pos rfl] at hle

lemma delegatedTo_insert_of_ne (h : key.2 ≠ validator) (d : Delegation) :
    delegatedTo (delegations.insert key d) validator = delegatedTo delegations validator := by
  have hins := sumOn_insert (towards validator) delegations key d
  rw [share_towards_of_ne h, towards_of_ne h] at hins
  exact hins

lemma delegatedTo_erase_of_ne (h : key.2 ≠ validator) :
    delegatedTo (delegations.erase key) validator = delegatedTo delegations validator := by
  have herase := sumOn_erase (towards validator) delegations key
  rw [share_towards_of_ne h] at herase
  exact herase

variable (delegations) in
lemma delegatedTo_insert (delegator validator : String) (d : Delegation) :
    delegatedTo (delegations.insert (delegator, validator) d) validator +
        (delegations.getD (delegator, validator) {}).amount =
      delegatedTo delegations validator + d.amount := by
  have hins := sumOn_insert (towards validator) delegations (delegator, validator) d
  rw [towards_self] at hins
  rw [← delegatedTo] at hins
  rw [getD_eq_getD_getElem?]
  cases hd : delegations[(delegator, validator)]? with
  | none => simpa [hd, delegatedTo] using hins
  | some d' => simpa [hd, delegatedTo] using hins

lemma delegatedTo_insert_of_amount {d d' : Delegation} (hd : delegations[key]? = some d)
    (h : d'.amount = d.amount) (validator : String) :
    delegatedTo (delegations.insert key d') validator = delegatedTo delegations validator := by
  have hins := sumOn_insert (towards validator) delegations key d'
  have hsame : towards validator key d' = towards validator key d := by
    unfold towards
    rw [h]
  rw [hd, share_some, hsame] at hins
  exact Nat.add_right_cancel hins

lemma delegatedTo_erase_of_zero {d : Delegation} (hd : delegations[key]? = some d)
    (h : d.amount = 0) (validator : String) :
    delegatedTo (delegations.erase key) validator = delegatedTo delegations validator := by
  have herase := sumOn_erase (towards validator) delegations key
  have hzero : towards validator key d = 0 := by
    unfold towards
    split
    · exact h
    · rfl
  rw [hd, share_some, hzero] at herase
  exact herase

lemma delegatedTo_eq_zero
    (h : ∀ (key : String × String) (d : Delegation), delegations[key]? = some d → key.2 = validator
      → d.amount = 0) : delegatedTo delegations validator = 0 := by
  have hzero : delegatedTo delegations validator = sumOn (fun _ _ => 0) delegations := by
    refine sumOn_congr fun key d hd => ?_
    unfold towards
    split
    · rename_i hkey
      exact h key d hd hkey
    · rfl
  rw [hzero, sumOn]
  simp

end Sums

/-! ### The slashing loops -/

def cut (bps : UInt64) (a : ℕ) : ℕ := a * bps.toNat / 10000

lemma mulDivBps_eq_cut (a : ℕ) (bps : UInt64) : mulDivBps a bps = cut bps a := mulDivBps_eq a bps

lemma cut_le (hbps : bps ≤ maxBps) (a : ℕ) : cut bps a ≤ a := by
  rw [← mulDivBps_eq_cut]
  exact mulDivBps_le a hbps

def queueCut (bps : UInt64) (entries : List UnbondingEntry) : ℕ :=
  (entries.map fun entry => cut bps entry.amount).sum

@[simp] lemma queueCut_nil (bps : UInt64) : queueCut bps [] = 0 := rfl

@[simp] lemma queueCut_cons (bps : UInt64) (entry : UnbondingEntry)
    (entries : List UnbondingEntry) :
    queueCut bps (entry :: entries) = cut bps entry.amount + queueCut bps entries := by
  simp [queueCut]

def bondedCut (validator : String) (bps : UInt64) (key : String × String) (d : Delegation) : ℕ :=
  if key.2 = validator then cut bps d.amount else 0

def pendingCut (validator : String) (bps : UInt64) (key : String × String) (d : Delegation) : ℕ :=
  if key.2 = validator then queueCut bps d.unbondings else 0

lemma checkedAdd128_of_le {a b : ℕ} (h : a + b ≤ u128Max) : checkedAdd128 a b = some (a + b) :=
  if_pos h

lemma checkedAdd128_of_lt {a b : ℕ} (h : u128Max < a + b) : checkedAdd128 a b = none :=
  if_neg (not_le.mpr h)

lemma slashedUnbondings_eq (bps : UInt64) (entries : List UnbondingEntry) {lost : ℕ}
    (hlost : lost ≤ u128Max) :
    slashedUnbondings bps lost entries =
      if lost + queueCut bps entries ≤ u128Max then some (lost + queueCut bps entries)
      else none := by
  induction entries generalizing lost with
  | nil => simp [slashedUnbondings, hlost]
  | cons entry entries ih =>
    rw [slashedUnbondings, mulDivBps_eq_cut, queueCut_cons, ← Nat.add_assoc]
    by_cases hfit : lost + cut bps entry.amount ≤ u128Max
    · rw [checkedAdd128_of_le hfit, bind_eq_bind, bind_some]
      exact ih hfit
    · rw [checkedAdd128_of_lt (not_le.mp hfit), bind_eq_bind, bind_none, if_neg]
      omega

lemma slashedDelegations_eq (validator : String) (bps : UInt64)
    (entries : List ((String × String) × Delegation)) {d u : ℕ} (hd : d ≤ u128Max)
    (hu : u ≤ u128Max) :
    slashedDelegations validator bps (d, u) entries =
      if d + (entries.map fun e => bondedCut validator bps e.1 e.2).sum ≤ u128Max ∧
          u + (entries.map fun e => pendingCut validator bps e.1 e.2).sum ≤ u128Max then
        some (d + (entries.map fun e => bondedCut validator bps e.1 e.2).sum,
          u + (entries.map fun e => pendingCut validator bps e.1 e.2).sum)
      else none := by
  induction entries generalizing d u with
  | nil => simp [slashedDelegations, hd, hu]
  | cons e entries ih =>
    obtain ⟨key, deleg⟩ := e
    rw [slashedDelegations, List.map_cons, List.map_cons, List.sum_cons, List.sum_cons]
    dsimp only
    by_cases hkey : key.2 = validator
    · rw [if_neg (not_not.mpr hkey), bondedCut, if_pos hkey, pendingCut, if_pos hkey,
        mulDivBps_eq_cut, slashedUnbondings_eq bps deleg.unbondings hu, ← Nat.add_assoc,
        ← Nat.add_assoc]
      by_cases hbonded : d + cut bps deleg.amount ≤ u128Max
      · by_cases hqueue : u + queueCut bps deleg.unbondings ≤ u128Max
        · simp only [checkedAdd128_of_le hbonded, if_pos hqueue, bind_eq_bind,
            bind_some]
          exact ih hbonded hqueue
        · simp only [checkedAdd128_of_le hbonded, if_neg hqueue, bind_eq_bind,
            bind_some, bind_none]
          rw [if_neg]
          omega
      · rw [checkedAdd128_of_lt (not_le.mp hbonded), bind_eq_bind, bind_none, if_neg]
        omega
    · rw [if_pos hkey, bondedCut, if_neg hkey, pendingCut, if_neg hkey, Nat.zero_add, Nat.zero_add]
      exact ih hd hu

namespace StakingState

def bondedCuts (s : StakingState) (validator : String) (bps : UInt64) : ℕ :=
  sumOn (bondedCut validator bps) s.delegations

def pendingCuts (s : StakingState) (validator : String) (bps : UInt64) : ℕ :=
  sumOn (pendingCut validator bps) s.delegations

lemma slashedDelegations_toList (s : StakingState) (validator : String) (bps : UInt64) :
    slashedDelegations validator bps (0, 0) s.delegations.toList =
      if s.bondedCuts validator bps ≤ u128Max ∧ s.pendingCuts validator bps ≤ u128Max then
        some (s.bondedCuts validator bps, s.pendingCuts validator bps)
      else none := by
  have hloop := slashedDelegations_eq validator bps s.delegations.toList (Nat.zero_le u128Max)
    (Nat.zero_le u128Max)
  simp only [Nat.zero_add] at hloop
  exact hloop

lemma delegatedTo_slashDelegations (s : StakingState) (validator : String) {bps : UInt64}
    (hbps : bps ≤ maxBps) :
    delegatedTo (s.slashDelegations validator bps) validator + s.bondedCuts validator bps =
      delegatedTo s.delegations validator := by
  have hadd := sumOn_add
    (fun key d => towards validator key (if key.2 = validator then d.slash bps else d))
    (bondedCut validator bps) s.delegations
  rw [delegatedTo, slashDelegations, sumOn_map]
  refine hadd.symm.trans (sumOn_congr fun key d _ => ?_)
  unfold towards bondedCut
  split
  · rw [Delegation.slash, mulDivBps_eq_cut]
    exact Nat.sub_add_cancel (cut_le hbps d.amount)
  · rfl

end StakingState

lemma delegatedTo_slash {s : StakingState} (hbps : bps ≤ maxBps) {lost : ℕ × ℕ}
    (h : slashedDelegations validator bps (0, 0) s.delegations.toList = some lost) :
    delegatedTo (s.slashDelegations validator bps) validator + lost.1 =
      delegatedTo s.delegations validator := by
  rw [s.slashedDelegations_toList] at h
  split at h
  · cases h
    exact s.delegatedTo_slashDelegations validator hbps
  · cases h

lemma delegatedTo_slash_of_ne (s : StakingState) (bps : UInt64) (h : other ≠ validator) :
    delegatedTo (s.slashDelegations validator bps) other = delegatedTo s.delegations other := by
  rw [delegatedTo, StakingState.slashDelegations, sumOn_map]
  refine sumOn_congr fun key d _ => ?_
  unfold towards
  split
  · rename_i hkey
    rw [if_neg (hkey ▸ h)]
  · rfl

lemma slashDelegations_getElem? {s : StakingState} {d : Delegation}
    (h : (s.slashDelegations validator bps)[key]? = some d) :
    ∃ d', s.delegations[key]? = some d' ∧ d.amount ≤ d'.amount := by
  rw [StakingState.slashDelegations, getElem?_map] at h
  obtain ⟨d', hd', rfl⟩ := map_eq_some_iff.mp h
  refine ⟨d', hd', ?_⟩
  split
  · exact Nat.sub_le _ _
  · exact le_rfl

/-! ### Deregistration -/

lemma dropSelfDelegation_delegatedTo (s : StakingState) (h : other ≠ validator) :
    delegatedTo (dropSelfDelegation s validator).delegations other =
      delegatedTo s.delegations other := by
  unfold dropSelfDelegation
  split
  · rfl
  split
  · exact delegatedTo_erase_of_ne h.symm
  · exact delegatedTo_insert_of_ne h.symm _

/-! ### The invariant -/

structure StakingState.Bond (s : StakingState) : Prop where
  total : ∀ (addr : String) (v : EconValidator), s.validators[addr]? = some v →
    v.totalStake = v.selfStake + delegatedTo s.delegations addr
  registered : ∀ (key : String × String) (d : Delegation), s.delegations[key]? = some d →
    0 < d.amount → key.2 ∈ s.validators
  fits : ∀ (addr : String) (v : EconValidator), s.validators[addr]? = some v →
    v.totalStake ≤ u128Max

namespace StakingState.Bond

variable {s : StakingState}

variable {delegations : BTreeMap (String × String) Delegation}

lemma empty : StakingState.Bond {} where
  total := by
    intro addr v h
    simp at h
  registered := by
    intro key d h
    simp at h
  fits := by
    intro addr v h
    simp at h

lemma write (hs : s.Bond) {addr : String} {v : EconValidator} (nextId : UInt64)
    (htotal : v.totalStake = v.selfStake + delegatedTo delegations addr)
    (hfit : v.totalStake ≤ u128Max)
    (hothers : ∀ other, other ≠ addr → delegatedTo delegations other = delegatedTo s.delegations
      other)
    (hreg : ∀ (key : String × String) (d : Delegation), delegations[key]? = some d → 0 < d.amount →
      key.2 = addr ∨ key.2 ∈ s.validators) :
    StakingState.Bond ⟨s.validators.insert addr v, delegations, nextId⟩ where
  total := by
    intro other w hw
    rcases getElem?_insert_eq_some_iff.mp hw with ⟨rfl, rfl⟩ | ⟨hne, hw⟩
    · exact htotal
    · rw [hothers other hne]
      exact hs.total other w hw
  registered := by
    intro key d hd hpos
    rw [mem_insert]
    rcases hreg key d hd hpos with hkey | hmem
    · exact .inl (hkey ▸ Std.ReflCmp.compare_self)
    · exact .inr hmem
  fits := by
    intro other w hw
    rcases getElem?_insert_eq_some_iff.mp hw with ⟨_, rfl⟩ | ⟨_, hw⟩
    · exact hfit
    · exact hs.fits other w hw

lemma writeDelegations (hs : s.Bond)
    (hsame : ∀ addr, delegatedTo delegations addr = delegatedTo s.delegations addr)
    (hreg : ∀ (key : String × String) (d : Delegation), delegations[key]? = some d → 0 < d.amount →
      key.2 ∈ s.validators) : StakingState.Bond { s with delegations := delegations } where
  total := by
    intro addr v hv
    rw [hsame]
    exact hs.total addr v hv
  registered := hreg
  fits := hs.fits

lemma amount_le (hs : s.Bond) {d : Delegation} {v : EconValidator}
    (hd : s.delegations[key]? = some d) (hv : s.validators[key.2]? = some v) :
    v.selfStake + d.amount ≤ v.totalStake := by
  have htotal := hs.total key.2 v hv
  have hle := amount_le_delegatedTo hd
  omega

lemma delegatedTo_of_unregistered (hs : s.Bond) {addr : String} (h : addr ∉ s.validators) :
    delegatedTo s.delegations addr = 0 := by
  refine delegatedTo_eq_zero fun key d hd hkey => ?_
  by_contra hpos
  exact h (hkey ▸ hs.registered key d hd (Nat.pos_of_ne_zero hpos))

lemma effect {l : Ledger} {op : StakingOp} {s' : StakingState} (hs : l.staking.Bond)
    (h : op.Effect l s') : s'.Bond := by
  cases h with
  | keep => exact hs
  | @delegate delegator validator v d amount hv hd hfit =>
    have hins := delegatedTo_insert l.staking.delegations delegator validator
      { d with amount := d.amount + amount }
    have htotal := hs.total validator v hv
    rw [hd] at hins
    simp only at hins
    refine hs.write _ (by simp only; omega) hfit
      (fun other hne => delegatedTo_insert_of_ne hne.symm _) fun key d' hd' hpos => ?_
    rcases getElem?_insert_eq_some_iff.mp hd' with ⟨rfl, _⟩ | ⟨_, hd'⟩
    · exact .inl rfl
    · exact .inr (hs.registered key d' hd' hpos)
  | @unbond delegator validator v d amount epoch period nextId entry validators hop hv hd hle hentry
      htotal =>
    have hcover := hs.amount_le hd hv
    rcases htotal with ⟨hge, rfl⟩ | ⟨hshort, _⟩
    · have hins := delegatedTo_insert l.staking.delegations delegator validator
        { amount := d.amount - amount, unbondings := d.unbondings ++ [entry] }
      rw [getD_eq_getD_getElem?, hd, getD_some] at hins
      have htotal := hs.total validator v hv
      have hfit := hs.fits validator v hv
      simp only at hins
      refine hs.write _ (by simp only; omega) (by simp only; omega)
        (fun other hne => delegatedTo_insert_of_ne hne.symm _) fun key d' hd' hpos => ?_
      rcases getElem?_insert_eq_some_iff.mp hd' with ⟨rfl, _⟩ | ⟨_, hd'⟩
      · exact .inl rfl
      · exact .inr (hs.registered key d' hd' hpos)
    · -- the total covers the delegation, so it is never too small
      omega
  | @release key d retained hd hsub =>
    refine hs.writeDelegations (fun addr => delegatedTo_insert_of_amount hd (by rfl) addr)
      fun key' d' hd' hpos => ?_
    rcases getElem?_insert_eq_some_iff.mp hd' with ⟨rfl, rfl⟩ | ⟨_, hd'⟩
    · exact hs.registered _ d hd hpos
    · exact hs.registered key' d' hd' hpos
  | @remove key d hd hzero =>
    refine hs.writeDelegations (fun addr => delegatedTo_erase_of_zero hd hzero addr)
      fun key' d' hd' hpos => ?_
    exact hs.registered key' d' (getElem?_erase_eq_some_iff.mp hd').2 hpos
  | @register tx addr v hop hreg hjailed hself htotal =>
    have hnone := hs.delegatedTo_of_unregistered hreg.unregistered
    have hbal : readBalance l.kv addr ≤ u128Max := (Machine.toNat_le _).trans (by decide)
    have hfunded := hreg.funded
    refine hs.write _ (by omega) (by omega) (fun _ _ => rfl) fun key d hd hpos => ?_
    exact .inr (hs.registered key d hd hpos)
  | @deregister tx addr hop hdereg =>
    have hvals := dropSelfDelegation_validators
      { l.staking with validators := l.staking.validators.erase addr } addr
    refine ⟨fun other v hv => ?_, fun key d hd hpos => ?_, fun other v hv => ?_⟩
    · rw [hvals] at hv
      obtain ⟨hne, hv⟩ := getElem?_erase_eq_some_iff.mp hv
      rw [dropSelfDelegation_delegatedTo _ hne]
      exact hs.total other v hv
    · obtain ⟨d', hd', _, hcase⟩ := dropSelfDelegation_getElem? hd
      rcases hcase with ⟨_, hzero⟩ | ⟨hself, rfl⟩
      · omega
      · rw [hvals, mem_erase]
        refine ⟨fun heq => ?_, hs.registered key d hd' hpos⟩
        -- what others had delegated to the validator adds up to nothing
        obtain ⟨delegator, validator⟩ := key
        obtain rfl : addr = validator := Std.LawfulEqCmp.eq_of_compare heq
        have hne : delegator ≠ addr := fun h => hself (by rw [h])
        exact hpos.ne' (externalDelegations_eq_zero hdereg.external hd' hne)
    · rw [hvals] at hv
      exact hs.fits other v (getElem?_erase_eq_some_iff.mp hv).2
  | @slash validator v v' bps lost hop hbps hv hlost hself htotal =>
    have hsum := hs.total validator v hv
    have hfit := hs.fits validator v hv
    have hcut := delegatedTo_slash hbps hlost
    have hown := mulDivBps_le v.selfStake hbps
    have htotal' : v'.totalStake + (mulDivBps v.selfStake bps + lost.1) = v.totalStake := by
      rcases htotal with ⟨h, _⟩ | ⟨h | h, _⟩ <;> omega
    refine hs.write _ (by omega) (by omega)
      (fun other hne => delegatedTo_slash_of_ne _ bps hne) fun key d hd hpos => ?_
    obtain ⟨d', hd', hle⟩ := slashDelegations_getElem? hd
    exact .inr (hs.registered key d' hd' (by omega))
  | @unjail validator v hop hv =>
    exact hs.write _ (hs.total validator v hv) (hs.fits validator v hv) (fun _ _ => rfl)
      fun key d hd hpos => .inr (hs.registered key d hd hpos)

end StakingState.Bond

/-- **The bond invariant**: along every run a validator's total is its own stake and what is
delegated to it, and whoever has a delegation to it is registered. -/
theorem run_bond (kv : KvState) (ops : List StakingOp) {l : Ledger}
    (h : Trace.run Ledger.step ⟨kv, {}⟩ ops = some l) :
    (∀ (addr : String) (v : EconValidator), l.staking.validators[addr]? = some v →
      v.totalStake = v.selfStake + delegatedTo l.staking.delegations addr) ∧
    ∀ (key : String × String) (d : Delegation), l.staking.delegations[key]? = some d →
      0 < d.amount → key.2 ∈ l.staking.validators := by
  have hbond : l.staking.Bond := by
    refine Trace.run_invariant (P := fun l => l.staking.Bond) ?_ StakingState.Bond.empty h
    intro l op l' hl hstep
    exact hl.effect (step_effect hstep)
  exact ⟨hbond.total, hbond.registered⟩

def slashedHistory : List StakingOp :=
  [.tx ⟨"stake register 500", "val", { minStake := 100 }, 0⟩,
    .tx ⟨"stake delegate val 45", "bob", {}, 1⟩,
    .tx ⟨"stake undelegate val 20", "bob", {}, 1⟩,
    .slash "val" 1000,
    .tx ⟨"stake deregister", "val", {}, 2⟩]

def slashedAccounts : KvState := { balances := .ofList [("bob", 50), ("val", 150)] compare }

def slashedLedger : Ledger where
  kv := { balances := .ofList [("bob", 5), ("val", 50)] compare }
  staking :=
    { validators := .ofList [("val", ⟨"val", 90, 113, true, 500⟩)] compare
      delegations := .ofList [(("bob", "val"), ⟨23, [⟨0, 18, 15⟩]⟩)] compare
      nextUnbondingId := 1 }

theorem run_bond_slashed :
    Trace.run Ledger.step ⟨slashedAccounts, {}⟩ slashedHistory = some slashedLedger ∧
      (∀ (addr : String) (v : EconValidator), slashedLedger.staking.validators[addr]? = some v →
        v.totalStake = v.selfStake + delegatedTo slashedLedger.staking.delegations addr) ∧
      ∀ (key : String × String) (d : Delegation),
        slashedLedger.staking.delegations[key]? = some d → 0 < d.amount →
          key.2 ∈ slashedLedger.staking.validators := by
  have hrun : Trace.run Ledger.step ⟨slashedAccounts, {}⟩ slashedHistory = some slashedLedger := by
    decide +kernel
  exact ⟨hrun, run_bond slashedAccounts slashedHistory hrun⟩

end Iona
