import Iona.Staking.Slash

/-! # The way out of a bond -/

namespace Iona

open List

def queue (s : StakingState) (key : String × String) : List UnbondingEntry :=
  (s.delegations.getD key {}).unbondings

variable {key : String × String} {op : StakingOp} {e : UnbondingEntry} {ops : List StakingOp}
  {s : StakingState}

lemma queue_eq {d : Delegation} (h : s.delegations[key]? = some d) :
    queue s key = d.unbondings := by
  rw [queue, Std.ExtTreeMap.getD_eq_getD_getElem?, h, Option.getD_some]

lemma mem_queue_iff : e ∈ queue s key ↔ ∃ d, s.delegations[key]? = some d ∧ e ∈ d.unbondings := by
  rw [queue, Std.ExtTreeMap.getD_eq_getD_getElem?]
  cases s.delegations[key]? with
  | none => simp
  | some d => simp

/-! ### Where a pending entry comes from -/

structure UnbondingEntry.Remains (e e' : UnbondingEntry) : Prop where
  id : e'.id = e.id
  unlockEpoch : e'.unlockEpoch = e.unlockEpoch
  amount : e'.amount ≤ e.amount

lemma UnbondingEntry.Remains.refl (e : UnbondingEntry) : e.Remains e := ⟨rfl, rfl, le_rfl⟩

lemma queue_step {l l' : Ledger} (h : l.step op = some l') (he : e ∈ queue l'.staking key) :
    (∃ e₀ ∈ queue l.staking key, e₀.Remains e) ∨
      ∃ epoch period, op.Undelegates key e.amount epoch period ∧
        e.unlockEpoch = Machine.satAdd epoch period := by
  obtain ⟨d, hd, he⟩ := mem_queue_iff.mp he
  have heff := step_effect h
  generalize l'.staking = s' at heff hd
  -- an entry of a delegation that was there before
  have hold : ∀ d₀, l.staking.delegations[key]? = some d₀ → e ∈ d₀.unbondings →
      ∃ e₀ ∈ queue l.staking key, e₀.Remains e := by
    intro d₀ hd₀ hmem
    exact ⟨e, mem_queue_iff.mpr ⟨d₀, hd₀, hmem⟩, .refl e⟩
  cases heff with
  | keep => exact .inl (hold d hd he)
  | @delegate delegator validator v d₀ amount hv hd₀ hfit =>
    rcases MapSum.getElem?_insert_eq_some_iff.mp hd with ⟨rfl, rfl⟩ | ⟨_, hd⟩
    · refine .inl ⟨e, ?_, .refl e⟩
      rw [queue, hd₀]
      exact he
    · exact .inl (hold d hd he)
  | @unbond delegator validator v d₀ amount epoch period nextId entry validators hop hv hd₀ hle hentry
      htotal =>
    rcases MapSum.getElem?_insert_eq_some_iff.mp hd with ⟨rfl, rfl⟩ | ⟨_, hd⟩
    · rcases mem_append.mp he with he | he
      · exact .inl (hold d₀ hd₀ he)
      · rw [mem_singleton.mp he, hentry]
        exact .inr ⟨epoch, period, hop, rfl⟩
    · exact .inl (hold d hd he)
  | @release key' d₀ retained hd₀ hsub =>
    rcases MapSum.getElem?_insert_eq_some_iff.mp hd with ⟨rfl, rfl⟩ | ⟨_, hd⟩
    · exact .inl (hold d₀ hd₀ (hsub.subset he))
    · exact .inl (hold d hd he)
  | remove hd₀ hzero => exact .inl (hold d (MapSum.getElem?_erase_eq_some_iff.mp hd).2 he)
  | register hop hreg hjailed hself htotal => exact .inl (hold d hd he)
  | deregister hop hdereg =>
    obtain ⟨d₀, hd₀, hqueue, _⟩ := dropSelfDelegation_getElem? hd
    exact .inl (hold d₀ hd₀ (hqueue ▸ he))
  | @slash validator v v' bps lost hop hbps hv hlost hself htotal =>
    simp only [StakingState.slashDelegations, Std.ExtTreeMap.getElem?_map] at hd
    obtain ⟨d₀, hd₀, rfl⟩ := Option.map_eq_some_iff.mp hd
    split at he
    · obtain ⟨e₀, he₀, rfl⟩ := mem_map.mp he
      exact .inl ⟨e₀, mem_queue_iff.mpr ⟨d₀, hd₀, he₀⟩, rfl, rfl, Nat.sub_le _ _⟩
    · exact .inl (hold d₀ hd₀ he)
  | unjail hop hv => exact .inl (hold d hd he)

def PendingSince (l₀ : Ledger) (ops : List StakingOp) (key : String × String) (e : UnbondingEntry)
    (epoch period : UInt64) : Prop :=
  ∃ pre op post amount, ops = pre ++ op :: post ∧ op.Undelegates key amount epoch period ∧
    ∀ between after l, post = between ++ after →
      Trace.run Ledger.step l₀ (pre ++ op :: between) = some l →
        ∃ e₀ ∈ queue l.staking key, e₀.Remains e

lemma PendingSince.step {l₀ l' : Ledger} {e' : UnbondingEntry} {epoch period : UInt64}
    (h : PendingSince l₀ ops key e epoch period) (hrem : e.Remains e')
    (hrun : Trace.run Ledger.step l₀ (ops ++ [op]) = some l') (he' : e' ∈ queue l'.staking key) :
    PendingSince l₀ (ops ++ [op]) key e' epoch period := by
  obtain ⟨pre, op₀, post, amount, rfl, hop₀, hbetween⟩ := h
  refine ⟨pre, op₀, post ++ [op], amount, by simp, hop₀, fun between after l hsplit hl => ?_⟩
  rcases eq_nil_or_concat after with rfl | ⟨after, last, rfl⟩
  · -- up to the present state
    rw [append_nil] at hsplit
    subst hsplit
    have hl' : l' = l := by
      rw [append_assoc, cons_append, hl] at hrun
      exact (Option.some.inj hrun).symm
    exact ⟨e', hl' ▸ he', .refl e'⟩
  · rw [concat_eq_append, ← append_assoc] at hsplit
    obtain ⟨rfl, _⟩ := append_inj' hsplit rfl
    obtain ⟨e₀, he₀, hrem₀⟩ := hbetween between after l rfl hl
    exact ⟨e₀, he₀, hrem.id.trans hrem₀.id, hrem.unlockEpoch.trans hrem₀.unlockEpoch,
      hrem.amount.trans hrem₀.amount⟩

lemma PendingSince.enter {l₀ l' : Ledger} {epoch period : UInt64}
    (hop : op.Undelegates key e.amount epoch period)
    (hrun : Trace.run Ledger.step l₀ (ops ++ [op]) = some l') (he : e ∈ queue l'.staking key) :
    PendingSince l₀ (ops ++ [op]) key e epoch period := by
  refine ⟨ops, op, [], e.amount, rfl, hop, fun between after l hsplit hl => ?_⟩
  obtain ⟨rfl, rfl⟩ := append_eq_nil_iff.mp hsplit.symm
  have hl' : l' = l := Option.some.inj (hrun.symm.trans hl)
  exact ⟨e, hl' ▸ he, .refl e⟩

/-! ### How a balance grows -/

lemma readBalance_insert (kv : KvState) (addr a : String) (b : UInt64) :
    readBalance { kv with balances := kv.balances.insert addr b } a =
      if a = addr then b.toNat else readBalance kv a := by
  unfold readBalance
  rw [Std.ExtTreeMap.getD_insert]
  by_cases h : a = addr
  · subst h
    simp
  · have hne : addr ≠ a := fun heq => h heq.symm
    simp [h, hne]

structure Exits (l l' : Ledger) (tx : StakingTx) (addr validator : String)
    (released : List UnbondingEntry) : Prop where
  action : ∃ args, parseStakingPayload tx.payload = some ("withdraw", validator :: args)
  sender : tx.from = addr
  due : released = (queue l.staking (addr, validator)).filter fun e => e.unlockEpoch ≤ tx.epoch
  balance : readBalance l'.kv addr = readBalance l.kv addr + pending released
  kept : queue l'.staking (addr, validator) =
    (queue l.staking (addr, validator)).filter fun e => ¬ e.unlockEpoch ≤ tx.epoch

lemma applyDelegate_balance (args : List String) («from» : String) (l : Ledger) (addr : String) :
    readBalance (applyDelegate args «from» l).2.kv addr ≤ readBalance l.kv addr := by
  unfold applyDelegate
  split
  · exact le_rfl
  rename_i validator amount _
  simp only
  split
  · exact le_rfl
  split
  · exact le_rfl
  split
  · exact le_rfl
  rename_i kv hdebit
  unfold debitBalance at hdebit
  simp only at hdebit
  split at hdebit
  · cases hdebit
  split at hdebit
  · cases hdebit
  rename_i b hb
  cases hdebit
  rw [readBalance_insert]
  split
  · rename_i haddr
    rw [Machine.checked_eq_some_iff.mp hb, haddr]
    exact Nat.sub_le _ _
  · exact le_rfl

lemma applyUndelegate_kv (args : List String) («from» : String) (l : Ledger)
    (params : EconomicsParams) (epoch : UInt64) :
    (applyUndelegate args «from» l params epoch).2.kv = l.kv := by
  unfold applyUndelegate
  split
  · rfl
  split <;> rfl

lemma withdraw_queue {s' : StakingState} {delegator validator : String} {epoch : UInt64}
    {withdrawn : ℕ} (h : s.withdraw delegator validator epoch = (.ok withdrawn, s')) :
    withdrawn =
        pending ((queue s (delegator, validator)).filter fun e => e.unlockEpoch ≤ epoch) ∧
      queue s' (delegator, validator) =
        (queue s (delegator, validator)).filter fun e => ¬ e.unlockEpoch ≤ epoch := by
  unfold StakingState.withdraw at h
  split at h
  · cases h
  rename_i d hd
  rw [queue_eq hd]
  split at h
  · cases h
  rename_i w retained hdrain
  obtain ⟨hsum, hkept⟩ := drainUnlocked_eq hdrain
  rw [Nat.zero_add] at hsum
  split at h
  · rename_i hempty
    cases h
    refine ⟨hsum, ?_⟩
    rw [← hkept, hempty.2, queue]
    simp
  · cases h
    refine ⟨hsum, ?_⟩
    rw [← hkept, queue]
    simp

lemma applyWithdraw_cases (args : List String) («from» : String) (l : Ledger) (epoch : UInt64) :
    (applyWithdraw args «from» l epoch).2.kv = l.kv ∨
      ∃ validator rest b staking, args = validator :: rest ∧
        (applyWithdraw args «from» l epoch).2 =
          { kv := { l.kv with balances := l.kv.balances.insert «from» b }, staking := staking } ∧
        b.toNat = readBalance l.kv «from» + pending
          ((queue l.staking («from», validator)).filter fun e => e.unlockEpoch ≤ epoch) ∧
        queue staking («from», validator) =
          (queue l.staking («from», validator)).filter fun e => ¬ e.unlockEpoch ≤ epoch := by
  unfold applyWithdraw
  split
  · exact .inl rfl
  rename_i validator rest
  split
  · exact .inl rfl
  rename_i withdrawn staking hwithdraw
  simp only
  split
  · exact .inl rfl
  split
  · exact .inl rfl
  rename_i kv hcredit
  unfold creditBalance at hcredit
  split at hcredit
  · cases hcredit
  rename_i b hb
  cases hcredit
  obtain ⟨sum, hsum, hb⟩ := Option.bind_eq_some_iff.mp hb
  obtain ⟨hreleased, hkept⟩ := withdraw_queue hwithdraw
  refine .inr ⟨validator, rest, b, staking, rfl, rfl, ?_, hkept⟩
  rw [Machine.checked_eq_some_iff.mp hb, checkedAdd128_eq_some hsum, hreleased]

def Orderly (l : Ledger) : StakingOp → Prop
  | .tx tx =>
    (∀ addr, Deregisters tx addr l →
      (∀ v, l.staking.validators[addr]? = some v → v.selfStake = 0) ∧
      ∀ delegator, pending (queue l.staking (delegator, addr)) = 0) ∧
    ((parseStakingPayload tx.payload).map Prod.fst = some "withdraw" → tx.epoch.toNat < Machine.u64Max)
  | .slash _ _ => True
  | _ => False

lemma balance_step {l l' : Ledger} (hop : Orderly l op) (h : l.step op = some l') {addr : String}
    (hgrow : readBalance l.kv addr < readBalance l'.kv addr) :
    ∃ tx validator released, op = .tx tx ∧ Exits l l' tx addr validator released := by
  cases op with
  | tx tx =>
    cases h
    rw [apply_eq] at hgrow ⊢
    split at hgrow
    · exact absurd hgrow (lt_irrefl _)
    rename_i action args hparse
    split at hgrow
    · exact absurd hgrow (lt_irrefl _)
    rename_i hsender
    simp only [if_neg hsender]
    unfold dispatch at hgrow ⊢
    split at hgrow
    · exact absurd (applyDelegate_balance args tx.from l addr) (not_le.mpr hgrow)
    · rw [applyUndelegate_kv] at hgrow
      exact absurd hgrow (lt_irrefl _)
    · rcases applyWithdraw_cases args tx.from l tx.epoch with
        hkv | ⟨validator, rest, b, staking, rfl, heq, hb, hkept⟩
      · rw [hkv] at hgrow
        exact absurd hgrow (lt_irrefl _)
      · rw [heq, readBalance_insert] at hgrow
        split at hgrow
        · rename_i haddr
          subst haddr
          simp only [heq]
          refine ⟨tx, validator, _, rfl, ⟨rest, hparse⟩, rfl, rfl, ?_, hkept⟩
          rw [readBalance_insert, if_pos rfl, hb]
        · exact absurd hgrow (lt_irrefl _)
    · rcases applyRegister_cases hparse hsender with ⟨_, heq⟩ | ⟨_, b, v, hb, _, _, _, heq⟩
      · rw [heq] at hgrow
        exact absurd hgrow (lt_irrefl _)
      · rw [heq, readBalance_insert] at hgrow
        split at hgrow
        · rename_i haddr
          subst haddr
          omega
        · exact absurd hgrow (lt_irrefl _)
    · rcases applyDeregister_cases hparse hsender with ⟨_, heq⟩ | ⟨hdereg, b, v, hv, hb, heq⟩
      · rw [heq] at hgrow
        exact absurd hgrow (lt_irrefl _)
      · rw [heq, readBalance_insert] at hgrow
        split at hgrow
        · rename_i haddr
          subst haddr
          have hself := (hop.1 _ hdereg).1 v hv
          omega
        · exact absurd hgrow (lt_irrefl _)
    · exact absurd hgrow (lt_irrefl _)
  | slash validator bps =>
    obtain ⟨res, _, rfl⟩ := Option.map_eq_some_iff.mp h
    exact absurd hgrow (lt_irrefl _)
  | delegate => exact hop.elim
  | undelegate => exact hop.elim
  | withdraw => exact hop.elim
  | unjail => exact hop.elim
  | accounts => exact hop.elim

/-! ### What a slash reaches -/

def Covered (s : StakingState) : Prop :=
  ∀ (key : String × String) (d : Delegation), s.delegations[key]? = some d → 0 < d.held →
    key.2 ∈ s.validators

lemma held_slash_le (bps : UInt64) (d : Delegation) : (d.slash bps).held ≤ d.held := by
  refine Nat.add_le_add (Nat.sub_le _ _) ?_
  simp only [Delegation.slash, pending, map_map]
  exact sum_le_sum fun e _ => Nat.sub_le _ _

lemma covered_step {l l' : Ledger} (hl : Covered l.staking) (hop : Orderly l op)
    (h : l.step op = some l') : Covered l'.staking := by
  have heff := step_effect h
  generalize l'.staking = s' at heff
  cases heff with
  | keep => exact hl
  | @delegate delegator validator v d amount hv hd hfit =>
    intro key d' hd' hpos
    rw [Std.ExtTreeMap.mem_insert]
    rcases MapSum.getElem?_insert_eq_some_iff.mp hd' with ⟨rfl, _⟩ | ⟨_, hd'⟩
    · exact .inl Std.ReflCmp.compare_self
    · exact .inr (hl key d' hd' hpos)
  | @unbond delegator validator v d amount epoch period nextId entry validators hundel hv hd hle hentry
      htotal =>
    have hmem : ∀ addr, addr ∈ l.staking.validators → addr ∈ validators := by
      intro addr haddr
      rcases htotal with ⟨_, rfl⟩ | ⟨_, rfl⟩
      · exact Std.ExtTreeMap.mem_insert.mpr (.inr haddr)
      · exact haddr
    intro key d' hd' hpos
    rcases MapSum.getElem?_insert_eq_some_iff.mp hd' with ⟨rfl, _⟩ | ⟨_, hd'⟩
    · exact hmem _ (Std.ExtTreeMap.mem_iff_isSome_getElem?.mpr (by rw [hv]; rfl))
    · exact hmem _ (hl key d' hd' hpos)
  | @release key d retained hd hsub =>
    intro key' d' hd' hpos
    rcases MapSum.getElem?_insert_eq_some_iff.mp hd' with ⟨rfl, rfl⟩ | ⟨_, hd'⟩
    · refine hl _ d hd (hpos.trans_le (Nat.add_le_add_left ?_ _))
      exact (hsub.map _).sum_le_sum fun _ _ => Nat.zero_le _
    · exact hl key' d' hd' hpos
  | remove hd hzero =>
    intro key' d' hd' hpos
    exact hl key' d' (MapSum.getElem?_erase_eq_some_iff.mp hd').2 hpos
  | register hop hreg hjailed hself htotal =>
    intro key' d' hd' hpos
    exact Std.ExtTreeMap.mem_insert.mpr (.inr (hl key' d' hd' hpos))
  | @deregister tx addr htx hdereg =>
    intro key d hd hpos
    obtain ⟨d₀, hd₀, hqueue, hcase⟩ := dropSelfDelegation_getElem? hd
    have hd₀ : l.staking.delegations[key]? = some d₀ := hd₀
    obtain ⟨delegator, validator⟩ := key
    subst htx
    -- a delegation to the validator that leaves holds nothing
    have hleft : addr ≠ validator := by
      rintro rfl
      have hnone := (hop.1 addr hdereg).2 delegator
      rw [queue_eq hd₀, ← hqueue] at hnone
      have hzero : d.amount = 0 := by
        rcases hcase with ⟨_, hzero⟩ | ⟨hne, rfl⟩
        · exact hzero
        · exact externalDelegations_eq_zero hdereg.external hd₀ fun heq => hne (by rw [heq])
      rw [Delegation.held, hzero, hnone] at hpos
      exact lt_irrefl _ hpos
    have hheld : 0 < d₀.held := by
      rcases hcase with ⟨heq, _⟩ | ⟨_, rfl⟩
      · exact absurd (congrArg Prod.snd heq).symm hleft
      · exact hpos
    rw [dropSelfDelegation_validators, Std.ExtTreeMap.mem_erase]
    exact ⟨fun heq => hleft (Std.LawfulEqCmp.eq_of_compare heq), hl _ d₀ hd₀ hheld⟩
  | @slash validator v v' bps lost hslash hbps hv hlost hself htotal =>
    intro key d hd hpos
    simp only [StakingState.slashDelegations, Std.ExtTreeMap.getElem?_map] at hd
    obtain ⟨d₀, hd₀, rfl⟩ := Option.map_eq_some_iff.mp hd
    refine Std.ExtTreeMap.mem_insert.mpr (.inr (hl key d₀ hd₀ (hpos.trans_le ?_)))
    split
    · exact held_slash_le bps d₀
    · exact le_rfl
  | unjail hop hv =>
    intro key d hd hpos
    exact Std.ExtTreeMap.mem_insert.mpr (.inr (hl key d hd hpos))

def SlashReaches (s : StakingState) : Prop :=
  ∀ validator bps res s', bps ≤ maxBps → s.slash validator bps = some (res, s') →
    (∀ v, s.validators[validator]? = some v → ∃ v', s'.validators[validator]? = some v' ∧
      v'.selfStake = v.selfStake - mulDivBps v.selfStake bps) ∧
    ∀ (delegator : String) (d : Delegation), s.delegations[(delegator, validator)]? = some d →
      0 < d.held → s'.delegations[(delegator, validator)]? = some (d.slash bps)

lemma slashReaches_of_covered (hs : Covered s) : SlashReaches s := by
  intro validator bps res s' hbps h
  rcases slash_cases h with ⟨hfail, heq⟩ | ⟨v, v', lost, _, hv, _, hself, _, heq⟩
  · rcases hfail with hrange | hnone
    · exact absurd hbps (UInt64.not_le.mpr hrange)
    · refine ⟨fun v hv => ?_, fun delegator d hd hpos => ?_⟩
      · rw [hnone] at hv
        cases hv
      · have hmem := Std.ExtTreeMap.mem_iff_isSome_getElem?.mp (hs _ d hd hpos)
        rw [hnone] at hmem
        cases hmem
  · obtain rfl : s' = _ := heq
    refine ⟨fun w hw => ⟨v', ?_, ?_⟩, fun delegator d hd _ => ?_⟩
    · simp
    · obtain rfl : v = w := Option.some.inj (hv.symm.trans hw)
      exact hself
    · simp only [StakingState.slashDelegations, Std.ExtTreeMap.getElem?_map, hd, Option.map_some,
        if_true]

/-! ### Whole runs -/

structure Settled (s : StakingState) : Prop where
  queue : ∀ key, queue s key = []
  covered : Covered s

lemma queue_run {l₀ l : Ledger} (hinit : Settled l₀.staking)
    (h : Trace.run Ledger.step l₀ ops = some l) (he : e ∈ queue l.staking key) :
    ∃ epoch period, PendingSince l₀ ops key e epoch period ∧
      e.unlockEpoch = Machine.satAdd epoch period := by
  induction ops using reverseRecOn generalizing l e with
  | nil =>
    cases h
    rw [hinit.queue] at he
    cases he
  | append_singleton ops op ih =>
    have hrun := h
    rw [Trace.run_snoc] at h
    obtain ⟨l₁, hl₁, hstep⟩ := Option.bind_eq_some_iff.mp h
    rcases queue_step hstep he with ⟨e₀, he₀, hrem⟩ | ⟨epoch, period, hop, hunlock⟩
    · obtain ⟨epoch, period, hsince, hunlock⟩ := ih hl₁ he₀
      exact ⟨epoch, period, hsince.step hrem hrun he, hrem.unlockEpoch.trans hunlock⟩
    · exact ⟨epoch, period, .enter hop hrun he, hunlock⟩

/-- **No early exit**: what leaves a bond has been through the unbonding queue, in runs without the
deregistrations that drop a stake. -/
theorem exit_through_queue {l₀ : Ledger} {ops : List StakingOp} (hinit : Settled l₀.staking)
    (hops : Trace.Along Ledger.step Orderly l₀ ops) :
    (∀ pre op post l l' addr, ops = pre ++ op :: post → Trace.run Ledger.step l₀ pre = some l →
      l.step op = some l' → readBalance l.kv addr < readBalance l'.kv addr →
        ∃ tx validator released, op = .tx tx ∧ Exits l l' tx addr validator released ∧
          ∀ e ∈ released, ∃ epoch period, PendingSince l₀ pre (addr, validator) e epoch period ∧
            epoch.toNat + period.toNat ≤ tx.epoch.toNat) ∧
    ∀ pre post l, ops = pre ++ post → Trace.run Ledger.step l₀ pre = some l →
      SlashReaches l.staking := by
  constructor
  · intro pre op post l l' addr hsplit hpre hstep hgrow
    have hop : Orderly l op := hops pre op post hsplit l hpre
    obtain ⟨tx, validator, released, rfl, hexit⟩ := balance_step hop hstep hgrow
    refine ⟨tx, validator, released, rfl, hexit, fun e he => ?_⟩
    rw [hexit.due] at he
    obtain ⟨he, hdue⟩ := List.mem_filter.mp he
    obtain ⟨epoch, period, hsince, hunlock⟩ := queue_run hinit hpre he
    refine ⟨epoch, period, hsince, ?_⟩
    -- the sum of epoch and period did not saturate, or the entry would not be due before the end
    have hlast : tx.epoch.toNat < Machine.u64Max := by
      obtain ⟨args, hparse⟩ := hexit.action
      exact hop.2 (by rw [hparse, Option.map_some])
    have hle : e.unlockEpoch.toNat ≤ tx.epoch.toNat := of_decide_eq_true hdue
    rw [hunlock, Machine.toNat_satAdd] at hle
    omega
  · rintro pre post l rfl hpre
    refine slashReaches_of_covered (Trace.run_history (C := Orderly)
      (P := fun _ l => Covered l.staking) hinit.covered ?_ hops.append hpre)
    intro _ l op l' hl hop hstep
    exact covered_step hl hop hstep

def hastyExit : List StakingOp :=
  [.tx ⟨"stake register 0", "val", { minStake := 100 }, 0⟩,
    .tx ⟨"stake delegate val 30", "val", {}, 0⟩,
    .tx ⟨"stake undelegate val 30", "val", {}, 0⟩]

def hastyAccounts : KvState := { balances := .ofList [("val", 200)] compare }

/-- The deregistration pays the bond of 100 out in the epoch of the registration, and a slash no
longer reaches the 30 that are still pending. -/
theorem early_exit :
    ∃ l, Trace.run Ledger.step ⟨hastyAccounts, {}⟩ hastyExit = some l ∧
      readBalance l.kv "val" = 70 ∧
      ∃ l', l.step (.tx ⟨"stake deregister", "val", {}, 0⟩) = some l' ∧
        readBalance l'.kv "val" = 170 ∧ queue l'.staking ("val", "val") = [⟨0, 30, 14⟩] ∧
        l'.staking.slash "val" 10000 = some (.error (.validatorNotFound "val"), l'.staking) := by
  refine ⟨⟨{ balances := .ofList [("val", 70)] compare },
    { validators := .ofList [("val", ⟨"val", 100, 100, false, 0⟩)] compare
      delegations := .ofList [(("val", "val"), ⟨0, [⟨0, 30, 14⟩]⟩)] compare
      nextUnbondingId := 1 }⟩, by decide +kernel, by decide +kernel,
    ⟨{ balances := .ofList [("val", 170)] compare },
    { delegations := .ofList [(("val", "val"), ⟨0, [⟨0, 30, 14⟩]⟩)] compare
      nextUnbondingId := 1 }⟩, by decide +kernel, by decide +kernel, by decide +kernel, ?_⟩
  decide +kernel

def patientExit : List StakingOp :=
  [.tx ⟨"stake register 500", "val", { minStake := 100 }, 0⟩,
    .tx ⟨"stake delegate val 45", "bob", {}, 1⟩,
    .tx ⟨"stake undelegate val 20", "bob", {}, 1⟩,
    .slash "val" 1000,
    .tx ⟨"stake withdraw val", "bob", {}, 15⟩]

def patientAccounts : KvState := { balances := .ofList [("bob", 50), ("val", 150)] compare }

lemma orderly_of_action {tx : StakingTx}
    (haction : (parseStakingPayload tx.payload).map Prod.fst ≠ some "deregister")
    (hepoch : tx.epoch.toNat < Machine.u64Max) (l : Ledger) : Orderly l (.tx tx) := by
  refine ⟨fun addr hdereg => ?_, fun _ => hepoch⟩
  obtain ⟨args, hparse⟩ := hdereg.action
  exact absurd (by rw [hparse, Option.map_some]) haction

lemma settled_empty : Settled {} := by
  refine ⟨fun key => ?_, fun key d hd => ?_⟩
  · simp [queue]
  · simp at hd

theorem exit_through_queue_patient :
    ((Trace.run Ledger.step ⟨patientAccounts, {}⟩ patientExit).map fun l =>
        readBalance l.kv "bob") = some 23 ∧
      (∀ pre op post l l' addr, patientExit = pre ++ op :: post →
        Trace.run Ledger.step ⟨patientAccounts, {}⟩ pre = some l →
        l.step op = some l' → readBalance l.kv addr < readBalance l'.kv addr →
          ∃ tx validator released, op = .tx tx ∧ Exits l l' tx addr validator released ∧
            ∀ e ∈ released, ∃ epoch period,
              PendingSince ⟨patientAccounts, {}⟩ pre (addr, validator) e epoch period ∧
              epoch.toNat + period.toNat ≤ tx.epoch.toNat) ∧
      ∀ pre post l, patientExit = pre ++ post →
        Trace.run Ledger.step ⟨patientAccounts, {}⟩ pre = some l → SlashReaches l.staking := by
  refine ⟨by decide +kernel, exit_through_queue settled_empty ?_⟩
  intro pre op post hsplit l _
  have hmem : op ∈ patientExit := by
    rw [hsplit]
    simp
  simp only [patientExit, List.mem_cons, List.not_mem_nil, or_false] at hmem
  rcases hmem with rfl | rfl | rfl | rfl | rfl
  · exact orderly_of_action (by decide +kernel) (by decide) l
  · exact orderly_of_action (by decide +kernel) (by decide) l
  · exact orderly_of_action (by decide +kernel) (by decide) l
  · trivial
  · exact orderly_of_action (by decide +kernel) (by decide) l

end Iona
