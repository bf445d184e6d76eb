import Iona.Execution.Merge

/-!
# Parallel and sequential execution

`executeBlock_eq_sequential` puts together the effects of one transaction (`Execution.Effects`) and
the merge of the groups (`Execution.Merge`).
-/

namespace Iona

open List Option

/-! ### Sequential execution -/

section Sequential

variable {C : Crypto} {H : Handlers} {baseFee : UInt64} {proposer : String} {base st st' : KvState}
  {txs : List Tx}

variable {res : ParallelExecResult}

lemma sequentialFrom_ok_iff {idx : ℕ} {gas : UInt64} {receipts : List Receipt} :
    sequentialFrom C H baseFee proposer idx st gas receipts txs = some (.ok res) ↔
      ∃ rs st', applyAll C H baseFee proposer st txs = some (rs, st') ∧
        (∀ r ∈ rs, r.error = none) ∧ res = ⟨st', gasFrom gas rs, receipts ++ rs, false, 0⟩ := by
  induction txs generalizing idx st gas receipts with
  | nil =>
    rw [sequentialFrom]
    constructor
    · intro h
      cases h
      exact ⟨[], st, rfl, (fun _ hr => nomatch hr), by rw [append_nil]; rfl⟩
    · rintro ⟨rs, st', hrun, -, rfl⟩
      cases hrun
      rw [append_nil]
      rfl
  | cons tx txs ih =>
    rw [sequentialFrom]
    cases happly : applyTx C H st tx baseFee proposer with
    | none =>
      refine ⟨(fun h => nomatch h), ?_⟩
      rintro ⟨rs, st', hrun, -⟩
      obtain ⟨r, st₁, rs₁, h, -⟩ := (applyAll_cons_eq_some_iff C H).mp hrun
      cases happly.symm.trans h
    | some step =>
      obtain ⟨r, next⟩ := step
      rw [bind_eq_bind, bind_some]
      dsimp only
      constructor
      · intro h
        split at h
        · cases h
        · rename_i herror
          obtain ⟨rs, st', hrun, hok, rfl⟩ := ih.mp h
          refine ⟨r :: rs, st', (applyAll_cons_eq_some_iff C H).mpr ⟨r, next, rs, happly, hrun, rfl⟩,
            forall_mem_cons.mpr ⟨herror, hok⟩, ?_⟩
          rw [append_assoc]
          rfl
      · rintro ⟨rs, st', hrun, hok, rfl⟩
        obtain ⟨r', st₁, rs₁, h, hrest, rfl⟩ := (applyAll_cons_eq_some_iff C H).mp hrun
        cases happly.symm.trans h
        obtain ⟨herror, hok⟩ := forall_mem_cons.mp hok
        rw [herror]
        refine ih.mpr ⟨rs₁, st', hrest, hok, ?_⟩
        rw [append_assoc]
        rfl

lemma executeSequential_ok_iff :
    executeSequential C H base txs baseFee proposer = some (.ok res) ↔
      ∃ rs st, applyAll C H baseFee proposer base txs = some (rs, st) ∧
        (∀ r ∈ rs, r.error = none) ∧ res = ⟨st, gasFrom 0 rs, rs, false, 0⟩ :=
  sequentialFrom_ok_iff

lemma length_applyAll {rs : List Receipt}
    (h : applyAll C H baseFee proposer st txs = some (rs, st')) : rs.length = txs.length := by
  induction txs generalizing st rs with
  | nil =>
    cases h
    rfl
  | cons tx txs ih =>
    obtain ⟨r, st₁, rs₁, -, hrest, rfl⟩ := (applyAll_cons_eq_some_iff C H).mp h
    rw [length_cons, ih hrest, length_cons]

end Sequential

/-! ### Blocks that merge -/

section Merging

variable {C : Crypto} {H : Handlers} {baseFee : UInt64} {proposer : String} {base : KvState}
  {txs : List Tx}

structure Separate (base : KvState) (txs : List Tx) : Prop where
  commands : ∀ tx ∈ txs, IsKvCommand tx.payload
  keys : KeysApart txs
  supply : base.supply < Machine.u64Max

structure MergesExactly (C : Crypto) (H : Handlers) (base : KvState) (txs : List Tx)
    (baseFee : UInt64) (proposer : String) : Prop where
  succeeds : ∀ s ∈ txs.map Tx.from, Succeeds C H base txs baseFee proposer s
  fresh : ∀ a ∈ (senderOrder txs).dropLast, a ∉ base.nonces
  nonzero : ∀ a, a ∈ base.balances ∨ a ∈ txs.map Tx.from ∨ a = proposer →
    (base.balances.getD a 0).toNat + (if a = proposer then tipsOf C baseFee txs else 0) ≠
      spentBy C baseFee a txs

lemma groupsRan_of_succeeds (hsep : Separate base txs)
    (hsucc : ∀ s ∈ txs.map Tx.from, Succeeds C H base txs baseFee proposer s) :
    groupResults C H base txs baseFee proposer =
        some ((senderOrder txs).map (resultOf C H base txs baseFee proposer)) ∧
      GroupsRan C baseFee proposer base txs (resultOf C H base txs baseFee proposer) ∧
      ∀ s ∈ senderOrder txs, (resultOf C H base txs baseFee proposer s).receipts =
        (txs.filter fun tx => tx.from = s).map (okReceipt C baseFee) := by
  have hgroup : ∀ s ∈ senderOrder txs, ∃ rs st,
      runOf C H base txs baseFee proposer s = some (rs, st) ∧
      rs = (txs.filter fun tx => tx.from = s).map (okReceipt C baseFee) ∧
      Ran C baseFee proposer base (txs.filter fun tx => tx.from = s) st := by
    intro s hs
    obtain ⟨rs, st, hrun, hok⟩ := hsucc s (mem_senderOrder.mp hs)
    obtain ⟨hrs, hran⟩ := applyAll_ran hsep.supply (.nil base)
      (fun tx htx => hsep.commands tx (mem_of_mem_filter htx)) hrun hok
    exact ⟨rs, st, hrun, hrs, hran⟩
  refine ⟨(groupResults_eq_some_iff C H base txs baseFee proposer).mpr ⟨fun s hs => ?_, rfl⟩,
    ⟨fun s hs => ?_, fun s hs k hk hgone => ?_⟩, fun s hs => ?_⟩
  · obtain ⟨rs, st, hrun, -⟩ := hgroup s hs
    rw [hrun]
    rfl
  · obtain ⟨rs, st, hrun, -, hran⟩ := hgroup s hs
    rw [resultOf, hrun]
    exact hran
  · refine Std.ExtTreeSet.mem_ofList.mpr (contains_iff_mem.mpr (mem_append_right _ ?_))
    exact mem_filter.mpr ⟨Std.ExtTreeMap.mem_keys.mpr hk, decide_eq_true hgone⟩
  · obtain ⟨rs, st, hrun, hrs, -⟩ := hgroup s hs
    rw [resultOf, hrun]
    exact hrs

end Merging

/-! ### The theorem -/

section Executor

variable (C : Crypto) (H : Handlers) (ex : ParallelExecutor) (base : KvState) (txs : List Tx) (baseFee : UInt64)
  (proposer : String) (cache : Merkle.RootCache)

inductive FallsBack : Prop
  | empty (h : txs = [])
  | small (h : ¬ ex.shouldUseParallel txs)
  | badSignature (tx : Tx) (hmem : tx ∈ txs) (h : ¬ ∃ addr, verifyTxSignature C tx = .ok addr)
  | conflict (results : List GroupResult)
      (hrun : groupResults C H base txs baseFee proposer = some results)
      (h : detectAllConflicts results ≠ [])

def outcome (res : Option (Except ParallelError ParallelExecResult)) :
    Option (Except ParallelError (KvState × UInt64 × List Receipt)) :=
  res.map (Except.map fun r => (r.state, r.gasUsed, r.receipts))

def EndsInOrder : Prop :=
  outcome ((ex.executeBlock C H base txs baseFee proposer cache).map Prod.fst) =
    outcome (executeSequential C H base txs baseFee proposer)

variable {results : List GroupResult}

lemma ParallelExecutor.maxRetryAttempts_ne_zero (ex : ParallelExecutor) :
    ex.config.maxRetryAttempts ≠ 0 := by
  intro h
  have hvalid := ex.valid
  unfold ParallelConfig.validate at hvalid
  split_ifs at hvalid

variable {C H ex base txs baseFee proposer cache}

lemma fst_map_pair {α β : Type*} (o : Option α) (b : β) : (o.map (·, b)).map Prod.fst = o := by
  cases o <;> rfl

lemma executeParallel_of_signed (hsigned : ∀ tx ∈ txs, ∃ addr, verifyTxSignature C tx = .ok addr) :
    ex.executeParallel C H base txs baseFee proposer cache =
      (groupResults C H base txs baseFee proposer).bind fun results =>
        if detectAllConflicts results = [] then
          ex.verifyStateRoot C (executeSequential C H base txs baseFee proposer)
            (mergedResult base results) cache
        else (executeSequential C H base txs baseFee proposer).map (·, cache) := by
  have hany : (txs.any fun tx => (verifyTxSignature C tx).toOption.isNone) = false := by
    refine any_eq_false.mpr fun tx htx => ?_
    obtain ⟨addr, haddr⟩ := hsigned tx htx
    rw [haddr]
    exact Bool.false_ne_true
  obtain ⟨n, hn⟩ := Nat.exists_eq_succ_of_ne_zero ex.maxRetryAttempts_ne_zero
  unfold ParallelExecutor.executeParallel
  dsimp only
  rw [hany, if_neg Bool.false_ne_true, hn, attempts]
  cases groupResults C H base txs baseFee proposer with
  | none => rfl
  | some results =>
    rw [map_some, bind_eq_bind, bind_some, bind_some]
    dsimp only
    cases hconf : detectAllConflicts results with
    | nil => rfl
    | cons c cs => rfl

lemma executeParallel_of_unsigned {tx : Tx} (hmem : tx ∈ txs)
    (h : ¬ ∃ addr, verifyTxSignature C tx = .ok addr) :
    ex.executeParallel C H base txs baseFee proposer cache =
      (executeSequential C H base txs baseFee proposer).map (·, cache) := by
  have hany : (txs.any fun tx => (verifyTxSignature C tx).toOption.isNone) = true := by
    refine any_eq_true.mpr ⟨tx, hmem, ?_⟩
    cases hsig : verifyTxSignature C tx with
    | error e => rfl
    | ok addr => exact absurd ⟨addr, hsig⟩ h
  unfold ParallelExecutor.executeParallel
  dsimp only
  rw [hany, if_pos rfl]

lemma endsInOrder_of_fallsBack (h : FallsBack C H ex base txs baseFee proposer) :
    EndsInOrder C H ex base txs baseFee proposer cache := by
  unfold EndsInOrder ParallelExecutor.executeBlock
  by_cases hempty : txs = []
  · subst hempty
    rfl
  rw [if_neg (by simpa using hempty)]
  split
  · rename_i hpar
    by_cases hsigned : ∀ tx ∈ txs, ∃ addr, verifyTxSignature C tx = .ok addr
    · cases h with
      | empty h => exact absurd h hempty
      | small h => exact absurd hpar h
      | badSignature tx hmem h => exact absurd (hsigned tx hmem) h
      | conflict results hrun h =>
        rw [executeParallel_of_signed hsigned, hrun, bind_some, if_neg h, fst_map_pair]
    · push Not at hsigned
      obtain ⟨tx, hmem, hbad⟩ := hsigned
      rw [executeParallel_of_unsigned hmem (fun ⟨addr, h⟩ => hbad addr h), fst_map_pair]
  · rw [fst_map_pair]

lemma executeBlock_of_not_fallsBack (h : ¬ FallsBack C H ex base txs baseFee proposer) :
    ex.executeBlock C H base txs baseFee proposer cache =
      (groupResults C H base txs baseFee proposer).bind fun results =>
        ex.verifyStateRoot C (executeSequential C H base txs baseFee proposer)
          (mergedResult base results) cache := by
  have hempty : txs ≠ [] := fun hnil => h (.empty hnil)
  have hpar : ex.shouldUseParallel txs := by
    by_contra hsmall
    exact h (.small hsmall)
  have hsigned : ∀ tx ∈ txs, ∃ addr, verifyTxSignature C tx = .ok addr := by
    intro tx hmem
    by_contra hbad
    exact h (.badSignature tx hmem hbad)
  unfold ParallelExecutor.executeBlock
  rw [if_neg (by simpa using hempty), if_pos hpar, executeParallel_of_signed hsigned]
  cases hrun : groupResults C H base txs baseFee proposer with
  | none => rfl
  | some results =>
    rw [bind_some, bind_some, if_pos]
    by_contra hconf
    exact h (.conflict results hrun hconf)

lemma mergedResult_of_succeeds (hsep : Separate base txs) (hne : txs ≠ [])
    (hsucc : ∀ s ∈ txs.map Tx.from, Succeeds C H base txs baseFee proposer s) :
    ∃ seq results, executeSequential C H base txs baseFee proposer = some (.ok seq) ∧
      groupResults C H base txs baseFee proposer = some results ∧
      (mergedResult base results).gasUsed = seq.gasUsed ∧
      (mergedResult base results).receipts = seq.receipts ∧
      ((mergedResult base results).state = seq.state ↔
        (∀ a ∈ (senderOrder txs).dropLast, a ∉ base.nonces) ∧
          ∀ a, a ∈ base.balances ∨ a ∈ txs.map Tx.from ∨ a = proposer →
            (base.balances.getD a 0).toNat + (if a = proposer then tipsOf C baseFee txs else 0) ≠
              spentBy C baseFee a txs) := by
  obtain ⟨hresults, hG, hreceipts⟩ := groupsRan_of_succeeds hsep hsucc
  obtain ⟨st, hrun⟩ := applyAll_of_groups hsep.supply hsep.commands hsep.keys hsucc
  have hok : ∀ r ∈ txs.map (okReceipt C baseFee), r.error = none := by
    intro r hr
    obtain ⟨tx, -, rfl⟩ := mem_map.mp hr
    rfl
  have hst := (applyAll_ran hsep.supply (.nil base) hsep.commands hrun hok).2
  refine ⟨_, _, executeSequential_ok_iff.mpr ⟨_, st, hrun, hok, rfl⟩, hresults,
    groups_gas txs fun s hs => ?_, collectReceipts_groups txs (fun s _ => rfl) hreceipts,
    mergeStates_eq_iff hG hst hsep.keys hne⟩
  rw [← hreceipts s hs]
  rfl

lemma mem_collectReceipts {g : GroupResult} (hg : g ∈ results)
    (hlength : g.receipts.length ≤ g.globalIndices.length) {r : Receipt} (hr : r ∈ g.receipts) :
    r ∈ collectReceipts results := by
  have hzip : r ∈ (g.globalIndices.zip g.receipts).map Prod.snd := by
    rwa [map_snd_zip hlength]
  obtain ⟨e, he, rfl⟩ := mem_map.mp hzip
  refine mem_map_of_mem ((mem_insertionSort _).mpr ?_)
  exact mem_flatMap.mpr ⟨g, hg, he⟩

lemma succeeds_of_receipts (hrun : groupResults C H base txs baseFee proposer = some results)
    (hok : ∀ r ∈ collectReceipts results, r.error = none) :
    ∀ s ∈ txs.map Tx.from, Succeeds C H base txs baseFee proposer s := by
  intro s hs
  have hs' := mem_senderOrder.mpr hs
  obtain ⟨hall, rfl⟩ := (groupResults_eq_some_iff C H base txs baseFee proposer).mp hrun
  obtain ⟨⟨rs, st⟩, hrun⟩ := isSome_iff_exists.mp (hall s hs')
  refine ⟨rs, st, hrun, fun r hr => hok r ?_⟩
  refine mem_collectReceipts (mem_map_of_mem hs') ?_ (r := r) ?_
  · rw [resultOf, hrun]
    show rs.length ≤ ((txsOf txs s).map Prod.snd).length
    rw [length_applyAll hrun, ← map_fst_txsOf, length_map, length_map]
  · rw [resultOf, hrun]
    exact hr

variable (C H ex base txs baseFee proposer cache)

/-- **Parallel and sequential execution** give one state and the same receipts if the block is run
in order anyway, or its groups of senders are independent key-value commands that succeed and
saturate nothing. -/
theorem executeBlock_eq_sequential :
    (FallsBack C H ex base txs baseFee proposer ∨
        Separate base txs ∧ MergesExactly C H base txs baseFee proposer →
      EndsInOrder C H ex base txs baseFee proposer cache) ∧
    (Separate base txs → ex.config.verifyStateRoot = false →
      (ex.executeBlock C H base txs baseFee proposer cache).isSome = true →
      EndsInOrder C H ex base txs baseFee proposer cache →
      FallsBack C H ex base txs baseFee proposer ∨
        MergesExactly C H base txs baseFee proposer) := by
  refine ⟨fun h => ?_, fun hsep hverify hsome hends => ?_⟩
  · by_cases hback : FallsBack C H ex base txs baseFee proposer
    · exact endsInOrder_of_fallsBack hback
    obtain ⟨hsep, hmerges⟩ := h.resolve_left hback
    obtain ⟨seq, results, hseq, hrun, hgas, hreceipts, hstate⟩ :=
      mergedResult_of_succeeds hsep (fun hnil => hback (.empty hnil)) hmerges.succeeds
    have hsame := hstate.mpr ⟨hmerges.fresh, hmerges.nonzero⟩
    have hmerged : outcome (some (.ok (mergedResult base results))) = outcome (some (.ok seq)) := by
      show some (Except.ok (_, _, _)) = some (Except.ok (_, _, _))
      rw [hsame, hgas, hreceipts]
    unfold EndsInOrder
    rw [executeBlock_of_not_fallsBack hback, hrun, hseq, Option.bind_some]
    unfold ParallelExecutor.verifyStateRoot
    split
    · -- with or without a match of the roots
      rw [Option.bind_eq_bind, Option.bind_some]
      dsimp only
      rw [Option.pure_def, Option.map_some]
      split
      · rfl
      · exact hmerged
    · exact hmerged
  · by_cases hback : FallsBack C H ex base txs baseFee proposer
    · exact .inl hback
    have hne : txs ≠ [] := fun hnil => hback (.empty hnil)
    unfold EndsInOrder at hends
    rw [executeBlock_of_not_fallsBack hback] at hsome hends
    cases hrun : groupResults C H base txs baseFee proposer with
    | none =>
      rw [hrun] at hsome
      cases hsome
    | some results =>
      rw [hrun, Option.bind_some, ParallelExecutor.verifyStateRoot, if_neg (by simp [hverify])] at hends
      -- the run in order has gone through, so no receipt of the merge has failed
      obtain ⟨seq, hseq, heq⟩ : ∃ seq, executeSequential C H base txs baseFee proposer =
          some (.ok seq) ∧ (seq.state, seq.gasUsed, seq.receipts) =
            ((mergedResult base results).state, (mergedResult base results).gasUsed,
              (mergedResult base results).receipts) := by
        cases hseq : executeSequential C H base txs baseFee proposer with
        | none =>
          rw [hseq] at hends
          cases hends
        | some res =>
          cases res with
          | error e =>
            rw [hseq] at hends
            cases hends
          | ok seq =>
            rw [hseq] at hends
            exact ⟨seq, rfl, (Except.ok.inj (Option.some.inj hends)).symm⟩
      obtain ⟨rs, st, -, hok, rfl⟩ := executeSequential_ok_iff.mp hseq
      simp only [Prod.mk.injEq] at heq
      have hsucc := succeeds_of_receipts hrun fun r hr => hok r (heq.2.2 ▸ hr)
      obtain ⟨seq', results', hseq', hrun', -, -, hstate⟩ := mergedResult_of_succeeds hsep hne hsucc
      cases hseq.symm.trans hseq'
      cases hrun.symm.trans hrun'
      obtain ⟨hfresh, hnonzero⟩ := hstate.mp heq.1.symm
      exact .inr ⟨hsucc, hfresh, hnonzero⟩

end Executor

/-! ### Two senders -/

def pairExecutor : ParallelExecutor where
  config := { minTxsForParallel := 2, minSendersForParallel := 2 }
  valid := rfl

def pairState (nonces : List (String × UInt64)) : KvState :=
  { demoState with nonces := .ofList nonces compare }

def pairTxs (nonce : UInt64) : List Tx := [demoTx 1 nonce "set a 1", demoTx 2 5 "set b 2"]

theorem executeBlock_eq_sequential_pair :
    ((pairExecutor.executeBlock .demo .reject (pairState [(demoAddress 2, 5)]) (pairTxs 0) 3
      (demoAddress 3) (.empty _ _ _)).map fun res => res.1.toOption.map (·.usedParallel)) =
        some (some true) ∧
    EndsInOrder .demo .reject pairExecutor (pairState [(demoAddress 2, 5)]) (pairTxs 0) 3
      (demoAddress 3) (.empty _ _ _) := by
  refine ⟨by decide +kernel, ?_⟩
  have hsep : Separate (pairState [(demoAddress 2, 5)]) (pairTxs 0) := by
    refine ⟨by decide +kernel, ?_, by decide +kernel⟩
    have hkeys : ∀ tx ∈ pairTxs 0, ∀ tx' ∈ pairTxs 0, tx.from ≠ tx'.from →
        kvKey tx.payload ≠ kvKey tx'.payload := by decide +kernel
    intro tx htx tx' htx' hne k hk hk'
    exact hkeys tx htx tx' htx' hne (hk.trans hk'.symm)
  have hmerges : MergesExactly .demo .reject (pairState [(demoAddress 2, 5)]) (pairTxs 0) 3
      (demoAddress 3) := by
    refine ⟨?_, by decide +kernel, ?_⟩
    · have hruns : ∀ s ∈ (pairTxs 0).map Tx.from, ((runOf .demo .reject
          (pairState [(demoAddress 2, 5)]) (pairTxs 0) 3 (demoAddress 3) s).any fun res =>
            res.1.all fun r => r.error = none) = true := by decide +kernel
      intro s hs
      have hall := hruns s hs
      unfold Succeeds
      generalize runOf _ _ _ _ _ _ s = run at hall ⊢
      cases run with
      | none => cases hall
      | some res => exact ⟨res.1, res.2, rfl, by simpa using hall⟩
    · have hlist : ∀ a ∈ (pairState [(demoAddress 2, 5)]).balances.keys ++
          ((pairTxs 0).map Tx.from ++ [demoAddress 3]),
          ((pairState [(demoAddress 2, 5)]).balances.getD a 0).toNat +
            (if a = demoAddress 3 then tipsOf .demo 3 (pairTxs 0) else 0) ≠
              spentBy .demo 3 a (pairTxs 0) := by decide +kernel
      intro a ha
      refine hlist a ?_
      rw [List.mem_append, List.mem_append, List.mem_singleton, Std.ExtTreeMap.mem_keys]
      exact ha
  exact (executeBlock_eq_sequential .demo .reject pairExecutor _ _ _ _ _).1 (.inr ⟨hsep, hmerges⟩)

/-- **A nonce is rolled back.** -/
theorem executeBlock_rolls_back_nonce :
    ¬ EndsInOrder .demo .reject pairExecutor (pairState [(demoAddress 1, 5), (demoAddress 2, 5)])
      (pairTxs 5) 3 (demoAddress 3) (.empty _ _ _) := by
  have hnonces : ((outcome ((pairExecutor.executeBlock .demo .reject
        (pairState [(demoAddress 1, 5), (demoAddress 2, 5)]) (pairTxs 5) 3 (demoAddress 3)
        (.empty _ _ _)).map Prod.fst)).map fun res =>
          res.toOption.map fun r => r.1.nonces[demoAddress 1]?) = some (some (some 5)) ∧
      ((outcome (executeSequential .demo .reject
        (pairState [(demoAddress 1, 5), (demoAddress 2, 5)]) (pairTxs 5) 3 (demoAddress 3))).map
          fun res => res.toOption.map fun r => r.1.nonces[demoAddress 1]?) =
            some (some (some 6)) := by decide +kernel
  intro hends
  rw [hends, hnonces.2] at hnonces
  cases hnonces.1

end Iona
