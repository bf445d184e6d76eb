import Iona.Staking.Slash

/-! # Leaving jail -/

namespace Iona

def StakingState.isActive (s : StakingState) (addr : String) : Bool :=
  s.validators[addr]?.any fun v => !v.jailed

variable {addr : String}

lemma isActive_eq_false_iff {s : StakingState} :
    s.isActive addr = false ↔ ∀ v, s.validators[addr]? = some v → v.jailed = true := by
  unfold StakingState.isActive
  cases s.validators[addr]? with
  | none => simp
  | some v => simp

lemma isActive_insert {s : StakingState} {validator : String} {v' : EconValidator}
    {delegations : BTreeMap (String × String) Delegation} {nextId : UInt64}
    (hs : s.isActive addr = false)
    (h : validator = addr → ∃ v, s.validators[validator]? = some v ∧ (v.jailed = true → v'.jailed =
      true)) :
    StakingState.isActive ⟨s.validators.insert validator v', delegations, nextId⟩ addr = false := by
  rw [isActive_eq_false_iff] at hs ⊢
  intro w hw
  rcases MapSum.getElem?_insert_eq_some_iff.mp hw with ⟨rfl, rfl⟩ | ⟨_, hw⟩
  · obtain ⟨v, hv, hkeep⟩ := h rfl
    exact hkeep (hs v hv)
  · exact hs w hw

def StakingOp.Enters (addr : String) (l : Ledger) (op : StakingOp) : Prop :=
  ∃ tx, op = .tx tx ∧ Registers tx addr l

lemma not_active_step {l l' : Ledger} {op : StakingOp} (hl : l.staking.isActive addr = false)
    (hunjail : op ≠ .unjail addr) (henter : ¬ op.Enters addr l) (h : l.step op = some l') :
    l'.staking.isActive addr = false := by
  have heff := step_effect h
  generalize l'.staking = s' at heff
  cases heff with
  | keep => exact hl
  | delegate hv hd hfit => exact isActive_insert hl fun _ => ⟨_, hv, id⟩
  | unbond hop hv hd hle hentry htotal =>
    rcases htotal with ⟨_, rfl⟩ | ⟨_, rfl⟩
    · exact isActive_insert hl fun _ => ⟨_, hv, id⟩
    · exact hl
  | release hd hsub => exact hl
  | remove hd hzero => exact hl
  | @register tx other v hop hreg hjailed hself htotal =>
    refine isActive_insert hl ?_
    rintro rfl
    exact absurd ⟨tx, hop, hreg⟩ henter
  | deregister hop hdereg =>
    rw [isActive_eq_false_iff] at hl ⊢
    intro v hv
    rw [dropSelfDelegation_validators] at hv
    exact hl v (MapSum.getElem?_erase_eq_some_iff.mp hv).2
  | slash hop hbps hv hlost hself htotal =>
    refine isActive_insert hl fun _ => ⟨_, hv, fun hjailed => ?_⟩
    rcases htotal with ⟨_, hjail⟩ | ⟨_, hkeep⟩
    · exact hjail
    · exact hkeep.trans hjailed
  | @unjail validator v hop hv =>
    refine isActive_insert hl ?_
    rintro rfl
    exact absurd hop hunjail

lemma active_of_registers {l : Ledger} {tx : StakingTx} (h : Registers tx addr l) :
    (l.apply tx).staking.isActive addr = true := by
  obtain ⟨rfl, hsender⟩ := h.sender
  obtain ⟨arg, args, haction, _⟩ := h.action
  have happly : l.apply tx = (applyRegister (arg :: args) tx.from l tx.params).2 := by
    rw [apply_eq, haction]
    simp only [if_neg hsender, dispatch]
  rcases applyRegister_cases haction hsender with ⟨hnot, _⟩ | ⟨_, b, v, _, hjailed, _, _, heq⟩
  · exact absurd h hnot
  · rw [happly, heq, StakingState.isActive]
    simp [hjailed]

/-- **Who stays in jail**: a jailed validator stays jailed until it is released exactly if it does
not register again. -/
theorem jailed_stays_iff {l : Ledger} {addr : String} {v : EconValidator}
    (hv : l.staking.validators[addr]? = some v) (hjailed : v.jailed = true) {ops : List StakingOp}
    (hops : ∀ op ∈ ops, op ≠ .unjail addr) :
    (∀ pre post l', ops = pre ++ post → Trace.run Ledger.step l pre = some l' →
        l'.staking.isActive addr = false) ↔
      Trace.Along Ledger.step (fun l op => ¬ op.Enters addr l) l ops := by
  constructor
  · rintro h pre op post rfl l' hrun ⟨tx, rfl, hreg⟩
    have hnext : Trace.run Ledger.step l (pre ++ [.tx tx]) = some (l'.apply tx) := by
      rw [Trace.run_snoc, hrun]
      rfl
    have hinactive := h (pre ++ [.tx tx]) post _ (by simp) hnext
    rw [active_of_registers hreg] at hinactive
    cases hinactive
  · rintro h pre post l' rfl hrun
    have hinit : l.staking.isActive addr = false := by
      rw [isActive_eq_false_iff, hv]
      rintro w ⟨⟩
      exact hjailed
    -- the operations of a prefix avoid `unjail` because those of the whole list do
    have hpre : (∀ op ∈ pre, op ≠ .unjail addr) → l'.staking.isActive addr = false := by
      refine Trace.run_history (C := fun l op => ¬ op.Enters addr l)
        (P := fun pre l => (∀ op ∈ pre, op ≠ .unjail addr) → l.staking.isActive addr = false)
        (fun _ => hinit) ?_ h.append hrun
      intro pre l op l' ih henter hstep hall
      refine not_active_step (ih fun op hop => hall op (by simp [hop])) (hall op (by simp)) henter hstep
    exact hpre fun op hop => hops op (List.mem_append_left _ hop)

def jailedLedger : Ledger where
  kv := { balances := .ofList [("val", 20000000000)] compare }
  staking := { validators := .ofList [("val", ⟨"val", 500, 500, true, 0⟩)] compare }

def reentry : List StakingOp :=
  [.tx ⟨"stake deregister", "val", {}, 0⟩, .tx ⟨"stake register 0", "val", {}, 0⟩]

/-- Two transactions of its own, and the jailed validator is active again. -/
theorem jailed_reenters :
    jailedLedger.staking.validators["val"]?.map EconValidator.jailed = some true ∧
      (∀ op ∈ reentry, op ≠ .unjail "val") ∧
      ((Trace.run Ledger.step jailedLedger reentry).map fun l => l.staking.isActive "val") =
        some true := by
  refine ⟨by decide +kernel, ?_, by decide +kernel⟩
  intro op hop
  simp only [reentry, List.mem_cons, List.not_mem_nil, or_false] at hop
  rcases hop with rfl | rfl <;> exact fun h => nomatch h

/-- Deregistering alone does not bring it back. -/
theorem jailed_stays_deregister :
    (∀ pre post l', reentry.take 1 = pre ++ post →
        Trace.run Ledger.step jailedLedger pre = some l' → l'.staking.isActive "val" = false) ↔
      Trace.Along Ledger.step (fun l op => ¬ op.Enters "val" l) jailedLedger (reentry.take 1) := by
  refine jailed_stays_iff (v := ⟨"val", 500, 500, true, 0⟩) (by decide +kernel) rfl ?_
  intro op hop
  simp only [reentry, List.take_succ_cons, List.take_zero, List.mem_singleton] at hop
  rw [hop]
  exact fun h => nomatch h

end Iona
