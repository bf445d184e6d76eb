import Iona.Governance.Manager

/-!
# The state lock of the governance manager

`submit`, `vote` and `apply_ready` of `governance.rs` still hold the mutex of the state when they
refresh the metrics, and `update_metrics` locks it once more. The mutex is not reentrant, so a call
that comes that far waits for itself.

## Main definitions

* `Guarded`: the manager behind its mutex, with the ledger and the validator set of the caller.
* `Guarded.step`: one call; `none` if it does not come back.
* `GovernanceManager.Refuses`: the calls that are turned down before the metrics are refreshed.

## Main results

* `Guarded.run_eq_some_iff`: a run of calls comes back exactly if every call is turned down.
* `applyReady_never_returns` and `coupled_after_iff`: no proposal is ever put to effect by a call
  that comes back.
-/

namespace Iona.Governance

/-- A call of the manager. `apply_ready` works on the ledger and the validator set of its caller. -/
inductive Act where
  | submit (action : GovAction) (proposer : String) (height : Height) (deposit : UInt64)
  | vote (id : UInt64) (voter : String) (yes : Bool) (height : Height)
  | applyReady (currentHeight : Height)

/-- The manager behind its mutex, and what `apply_ready` is given to change. -/
structure Guarded where
  manager : GovernanceManager
  powers : Powers
  held : Bool := false

namespace Guarded

/-- `state.lock()` by the thread that makes the calls: `none` if it has the lock already. -/
def lock (s : Guarded) : Option Guarded :=
  if s.held then none else some { s with held := true }

/-- The guard goes out of scope. -/
def unlock (s : Guarded) : Guarded := { s with held := false }

/-- `update_metrics`. The gauges it sets are read by nothing. -/
def updateMetrics (s : Guarded) : Option Guarded := s.lock.map unlock

/-- What `submit` and `vote` do with the result of their checks: an error returns at once and drops
the guard, success refreshes the metrics under it. -/
def conclude {α : Type} (s : Guarded) : Except GovError α → Option (Except GovError α × Guarded)
  | .error e => some (.error e, s.unlock)
  | .ok a => s.updateMetrics.map fun s => (.ok a, s.unlock)

def submit (s : Guarded) (action : GovAction) (proposer : String) (height : Height)
    (deposit : UInt64) : Option (Except GovError UInt64 × Guarded) := do
  let s ← s.lock
  let (result, manager) := s.manager.submit action proposer height deposit
  conclude { s with manager := manager } result

def vote (s : Guarded) (id : UInt64) (voter : String) (yes : Bool) (height : Height) :
    Option (Except GovError Unit × Guarded) := do
  let s ← s.lock
  let (result, manager) := s.manager.vote id voter yes height
  conclude { s with manager := manager } result

variable (C : Crypto)

/-- `apply_ready`. It does not come back either if an action overflows a stake. -/
def applyReady (s : Guarded) (currentHeight : Height) : Option (List GovAction × Guarded) := do
  let s ← s.lock
  let o ← s.manager.applyReady C s.powers currentHeight
  let s ← updateMetrics { s with manager := o.manager, powers := o.powers }
  return (o.applied, s.unlock)

def step (s : Guarded) : Act → Option Guarded
  | .submit action proposer height deposit =>
    (s.submit action proposer height deposit).map Prod.snd
  | .vote id voter yes height => (s.vote id voter yes height).map Prod.snd
  | .applyReady currentHeight => (s.applyReady C currentHeight).map Prod.snd

end Guarded

/-- The calls that a manager turns down: a submission over the limit of the block, with a deposit
out of range, a malformed action or no identifier left, and a vote on a proposal that is absent or
over, or by nobody. -/
def GovernanceManager.Refuses (m : GovernanceManager) : Act → Prop
  | .submit action _ _ deposit => maxProposalsPerBlock ≤ m.proposalsThisBlock ∨
      (deposit < m.config.minDeposit ∨ maxDeposit < deposit) ∨ validateAction action ≠ .ok () ∨
      m.nextId.toNat = Machine.u64Max
  | .vote id voter _ height => ∀ p, m.pending[id]? = some p →
      p.isActive height m.proposalTtl = true → voter.isEmpty = true
  | .applyReady _ => False

namespace GovernanceManager

variable (m : GovernanceManager)

lemma submit_cases (action : GovAction) (proposer : String) (height : Height) (deposit : UInt64) :
    (m.Refuses (.submit action proposer height deposit) ∧
        ∃ e, m.submit action proposer height deposit = (.error e, m)) ∨
      (¬ m.Refuses (.submit action proposer height deposit) ∧
        ∃ id m', m.submit action proposer height deposit = (.ok id, m')) := by
  unfold submit
  split
  · rename_i hfull
    exact .inl ⟨.inl hfull, _, rfl⟩
  rename_i hfull
  split
  · rename_i hdeposit
    exact .inl ⟨.inr (.inl hdeposit), _, rfl⟩
  rename_i hdeposit
  split
  · rename_i e haction
    refine .inl ⟨.inr (.inr (.inl fun hok => ?_)), _, rfl⟩
    rw [haction] at hok
    cases hok
  rename_i haction
  split
  · rename_i hnext
    refine .inl ⟨.inr (.inr (.inr ?_)), _, rfl⟩
    have hover := Machine.checked_eq_none_iff.mp hnext
    have hle := Machine.toNat_le m.nextId
    omega
  · rename_i next hnext
    refine .inr ⟨?_, _, _, rfl⟩
    have hfits := Machine.checked_eq_some_iff.mp hnext
    have hle := Machine.toNat_le next
    rintro (h | h | h | h)
    · exact hfull h
    · exact hdeposit h
    · exact h haction
    · omega

lemma vote_cases (id : UInt64) (voter : String) (yes : Bool) (height : Height) :
    (m.Refuses (.vote id voter yes height) ∧ ∃ e, m.vote id voter yes height = (.error e, m)) ∨
      (¬ m.Refuses (.vote id voter yes height) ∧
        ∃ m', m.vote id voter yes height = (.ok (), m')) := by
  unfold vote
  split
  · rename_i hnone
    refine .inl ⟨fun p hp => ?_, _, rfl⟩
    rw [hnone] at hp
    cases hp
  rename_i p hp
  split
  · rename_i hover
    refine .inl ⟨fun q hq hactive => ?_, _, rfl⟩
    cases hp.symm.trans hq
    rw [hover] at hactive
    cases hactive
  rename_i hactive
  unfold GovProposal.vote
  by_cases hvoter : voter.isEmpty = true
  · rw [if_pos hvoter]
    exact .inl ⟨fun _ _ _ => hvoter, _, rfl⟩
  · rw [if_neg hvoter]
    exact .inr ⟨fun h => hvoter (h p hp (by simpa using hactive)), _, rfl⟩

end GovernanceManager

namespace Guarded

open GovernanceManager (submit_cases vote_cases)

variable {C : Crypto} {s s' : Guarded}

/-- Under the lock the metrics cannot be refreshed. -/
@[simp] lemma updateMetrics_eq_none (h : s.held = true) : s.updateMetrics = none := by
  rw [updateMetrics, lock, if_pos h, Option.map_none]

lemma applyReady_eq_none (s : Guarded) (currentHeight : Height) :
    s.applyReady C currentHeight = none := by
  simp only [applyReady, lock]
  split
  · rfl
  · simp

lemma step_eq_some_iff {act : Act} (hfree : s.held = false) :
    s.step C act = some s' ↔ s.manager.Refuses act ∧ s = s' := by
  obtain ⟨m, w, held⟩ := s
  cases hfree
  cases act with
  | submit action proposer height deposit =>
    rcases submit_cases m action proposer height deposit with ⟨h, e, he⟩ | ⟨h, id, m', hok⟩
    · simp [step, submit, lock, conclude, unlock, he, h]
    · simp [step, submit, lock, conclude, hok, h]
  | vote id voter yes height =>
    rcases vote_cases m id voter yes height with ⟨h, e, he⟩ | ⟨h, m', hok⟩
    · simp [step, vote, lock, conclude, unlock, he, h]
    · simp [step, vote, lock, conclude, hok, h]
  | applyReady currentHeight =>
    simp [step, applyReady_eq_none, GovernanceManager.Refuses]

/-- **A run of calls comes back exactly if every call is turned down**, and then nothing has
changed. -/
lemma run_eq_some_iff {acts : List Act} (hfree : s.held = false) :
    Trace.run (step C) s acts = some s' ↔ (∀ act ∈ acts, s.manager.Refuses act) ∧ s = s' := by
  induction acts with
  | nil => simp
  | cons act acts ih =>
    rw [Trace.run_cons, Option.bind_eq_some_iff, List.forall_mem_cons, and_assoc, ← ih]
    constructor
    · rintro ⟨t, ht, hrun⟩
      obtain ⟨hrefused, rfl⟩ := (step_eq_some_iff hfree).mp ht
      exact ⟨hrefused, hrun⟩
    · rintro ⟨hrefused, hrun⟩
      exact ⟨s, (step_eq_some_iff hfree).mpr ⟨hrefused, rfl⟩, hrun⟩

end Guarded

/-- **No action is ever applied by a call of `apply_ready` that comes back.** A history of calls
comes back exactly if every one of them is turned down; the manager is then as it was, and the
call of `apply_ready` that follows waits for the lock it holds. -/
theorem applyReady_never_returns (C : Crypto) (m : GovernanceManager) (w : Powers)
    (acts : List Act) (currentHeight : Height) :
    ((∃ s, Trace.run (Guarded.step C) { manager := m, powers := w } acts = some s) ↔
      ∀ act ∈ acts, m.Refuses act) ∧
    ∀ s, Trace.run (Guarded.step C) { manager := m, powers := w } acts = some s →
      s.manager = m ∧ s.applyReady C currentHeight = none := by
  refine ⟨?_, fun s hs => ?_⟩
  · simp [Guarded.run_eq_some_iff]
  · obtain ⟨-, rfl⟩ := (Guarded.run_eq_some_iff rfl).mp hs
    exact ⟨rfl, Guarded.applyReady_eq_none _ _⟩

/-- A ledger of three validators: two active ones with a stake of 100, and a jailed one. -/
def oneJailed : Powers where
  stakes :=
    { validators := (((∅ : BTreeMap PublicKeyBytes ValidatorRecord).insert [1] { stake := 100 }).insert
        [2] { stake := 50, status := .jailed 1 1 }).insert [3] { stake := 100 } }
  vset := { vals := [] }

/-- The first proposal of a new manager is never submitted. Without the lock, the active validator
that proposes and the jailed one that votes for it carry it, with 100 of an active stake of 200. -/
theorem first_submit_never_returns :
    Guarded.submit { manager := {}, powers := oneJailed } (.setParam "fee" "3")
        (GovProposal.addressOf .demo [1]) 1 1000000 = none ∧
      oneJailed.stakes.totalPower = some 200 ∧
      ((((({} : GovernanceManager).submit (.setParam "fee" "3") (GovProposal.addressOf .demo [1]) 1
          1000000).2.vote 0 (GovProposal.addressOf .demo [2]) true 1).2.applyReady .demo oneJailed
          2).map Outcome.applied) = some [.setParam "fee" "3"] := by
  decide +kernel

/-! ### Ledger and validator set -/

namespace Powers

def stakeOf (w : Powers) (pk : PublicKeyBytes) : Option UInt64 :=
  (w.stakes.validators[pk]?).map ValidatorRecord.stake

/-- The ledger and the validator set have the same members, with the same power. -/
structure Coupled (w : Powers) : Prop where
  power_eq : ∀ v ∈ w.vset.vals, w.stakeOf v.pk = some v.power
  member : ∀ pk, (w.stakeOf pk).isSome → ∃ v ∈ w.vset.vals, v.pk = pk

end Powers

/-- **A sequence of calls comes back with the ledger and the validator set in step exactly if they
were in step and every call is turned down**: none with a call of `apply_ready` does. -/
theorem coupled_after_iff (C : Crypto) (m : GovernanceManager) (w : Powers) (acts : List Act) :
    (∃ s, Trace.run (Guarded.step C) { manager := m, powers := w } acts = some s ∧
      s.powers.Coupled) ↔ w.Coupled ∧ ∀ act ∈ acts, m.Refuses act := by
  constructor
  · rintro ⟨s, hs, hcoupled⟩
    obtain ⟨hrefused, rfl⟩ := (Guarded.run_eq_some_iff rfl).mp hs
    exact ⟨hcoupled, hrefused⟩
  · rintro ⟨hcoupled, hrefused⟩
    exact ⟨_, (Guarded.run_eq_some_iff rfl).mpr ⟨hrefused, rfl⟩, hcoupled⟩

def plainKey (b : UInt8) : PublicKeyBytes := List.replicate 32 b

def oneValidator : Powers where
  stakes := { validators :=
    (∅ : BTreeMap PublicKeyBytes ValidatorRecord).insert (plainKey 1) { stake := 100 } }
  vset := { vals := [⟨plainKey 1, 100⟩] }

lemma oneValidator_coupled : oneValidator.Coupled := by
  refine ⟨by decide +kernel, fun pk hpk => ⟨⟨plainKey 1, 100⟩, List.mem_singleton.mpr rfl, ?_⟩⟩
  have hfound : pk ∈ oneValidator.stakes.validators := by
    simpa [Powers.stakeOf] using hpk
  simpa [oneValidator] using hfound

/-- `apply_ready` does not come back even if nothing is pending. Without the lock, adding a member
once more raises its stake and leaves its power. -/
theorem empty_applyReady_never_returns :
    oneValidator.Coupled ∧
      Guarded.step .demo { manager := {}, powers := oneValidator } (.applyReady 2) = none ∧
      ((({} : GovernanceManager).submit (.addValidator (Bytes.hexEncode (plainKey 1)) 50)
          (GovProposal.addressOf .demo (plainKey 1)) 1 1000000).2.applyReady .demo oneValidator
          2).map (fun o => (o.powers.stakeOf (plainKey 1), o.powers.vset.vals)) =
        some (some 150, [⟨plainKey 1, 100⟩]) :=
  ⟨oneValidator_coupled, by decide +kernel⟩

end Iona.Governance
