import Iona.Execution.Effects

/-! # The merge against the run in order -/

namespace Iona

open Machine Grouping Std.ExtTreeMap

variable {C : Crypto} {baseFee : UInt64} {proposer : String} {base st : KvState} {txs : List Tx}

structure GroupsRan (C : Crypto) (baseFee : UInt64) (proposer : String) (base : KvState)
    (txs : List Tx) (group : String → GroupResult) : Prop where
  ran : ∀ s ∈ senderOrder txs, Ran C baseFee proposer base (txs.filter fun tx => tx.from = s)
    (group s).finalState
  removed : ∀ s ∈ senderOrder txs, ∀ k ∈ base.kv, k ∉ (group s).finalState.kv →
    k ∈ (group s).writtenKeys

variable {group : String → GroupResult}

lemma from_mem_senderOrder {tx : Tx} (htx : tx ∈ txs) : tx.from ∈ senderOrder txs :=
  mem_senderOrder.mpr (List.mem_map_of_mem htx)

lemma sum_senderOrder {M : Type*} [AddCommMonoid M] (f : Tx → M) (txs : List Tx) :
    ((senderOrder txs).map fun s => ((txs.filter fun tx => tx.from = s).map f).sum).sum =
      (txs.map f).sum :=
  sum_groups Tx.from f (nodup_senderOrder txs) fun _ => from_mem_senderOrder

lemma mergeStates_burned (hG : GroupsRan C baseFee proposer base txs group)
    (hst : Ran C baseFee proposer base txs st) :
    (mergeStates base ((senderOrder txs).map group)).burned = st.burned := by
  refine UInt64.toNat_inj.mp ?_
  have hparts : (senderOrder txs).map (fun s =>
      (satSub (group s).finalState.burned base.burned).toNat) =
      (senderOrder txs).map fun s => min (burnsOf C baseFee (txs.filter fun tx => tx.from = s))
        (u64Max - base.burned.toNat) := by
    refine List.map_congr_left fun s hs => ?_
    rw [toNat_satSub, (hG.ran s hs).burned]
    have := toNat_le base.burned
    omega
  have hsum := min_sum_min (fun s => burnsOf C baseFee (txs.filter fun tx => tx.from = s))
    (u64Max - base.burned.toNat) (senderOrder txs)
  have htotal : ((senderOrder txs).map fun s =>
      burnsOf C baseFee (txs.filter fun tx => tx.from = s)).sum = burnsOf C baseFee txs :=
    sum_senderOrder _ txs
  rw [htotal] at hsum
  show (satAdd base.burned _).toNat = _
  rw [toNat_satAdd, toNat_foldl_satAdd
    fun g : GroupResult => satSub g.finalState.burned base.burned, List.map_map]
  rw [hst.burned, show ((fun g : GroupResult => (satSub g.finalState.burned
    base.burned).toNat) ∘ group) = fun s => (satSub (group s).finalState.burned
    base.burned).toNat from rfl, hparts]
  have := toNat_le base.burned
  simp only [UInt64.toNat_zero, Nat.zero_add] at hsum ⊢
  omega

lemma mergeStates_vm (hG : GroupsRan C baseFee proposer base txs group)
    (hst : Ran C baseFee proposer base txs st) :
    (mergeStates base ((senderOrder txs).map group)).vm = st.vm := by
  have hvm : ∀ g ∈ (senderOrder txs).map group, g.finalState.vm = base.vm := by
    intro g hg
    obtain ⟨s, hs, rfl⟩ := List.mem_map.mp hg
    exact (hG.ran s hs).vm
  rw [hst.vm]
  unfold mergeStates
  dsimp only
  rw [foldl_extend_self fun g hg => by rw [hvm g hg], foldl_extend_self fun g hg => by rw [hvm g hg],
    foldl_extend_self fun g hg => by rw [hvm g hg]]

lemma mergeStates_kv (hG : GroupsRan C baseFee proposer base txs group) (hkeys : KeysApart txs)
    (hst : Ran C baseFee proposer base txs st) :
    (mergeStates base ((senderOrder txs).map group)).kv = st.kv := by
  refine ext_getElem? fun {k} => ?_
  show (((senderOrder txs).map group).foldl (mergeKv base) base.kv)[k]? = _
  rw [List.foldl_map, getElem?_foldl_maps
    (f := fun s o => if (group s).finalState.kv[k]? = base.kv[k]? then o
      else (group s).finalState.kv[k]?)
    (fun s hs kv => getElem?_mergeKv (hG.removed s hs k) kv), hst.kv]
  -- a group none of whose transactions names the key leaves it alone
  have hskip : ∀ s ∈ senderOrder txs, (∀ tx ∈ txs, kvKey tx.payload = some k → tx.from ≠ s) →
      (group s).finalState.kv[k]? = base.kv[k]? := by
    intro s hs hnone
    rw [(hG.ran s hs).kv, writesTo, List.filter_eq_nil_iff.mpr]
    · rfl
    · intro tx htx hkey
      have hmem := List.mem_filter.mp htx
      exact hnone tx hmem.1 (of_decide_eq_true hkey) (of_decide_eq_true hmem.2)
  by_cases hnamed : ∃ tx ∈ txs, kvKey tx.payload = some k
  · obtain ⟨tx, htx, hkey⟩ := hnamed
    have howner : ∀ tx' ∈ txs, kvKey tx'.payload = some k → tx'.from = tx.from := by
      intro tx' htx' hkey'
      by_contra hne
      exact hkeys tx' htx' tx htx hne k hkey' hkey
    have hs := from_mem_senderOrder htx
    rw [foldl_eq_of_unique (nodup_senderOrder txs) hs, ite_eq_iff'.mpr ⟨Eq.symm, fun _ => rfl⟩,
      (hG.ran _ hs).kv, writesTo_filter]
    · intro tx' htx' hkey'
      exact decide_eq_true (howner tx' htx' hkey')
    · intro s hs' hne o
      rw [if_pos]
      exact hskip s hs' fun tx' htx' hkey' heq => hne (heq.symm.trans (howner tx' htx' hkey'))
  · rw [foldl_eq_self, writesTo, List.filter_eq_nil_iff.mpr]
    · rfl
    · exact fun tx htx hkey => hnamed ⟨tx, htx, of_decide_eq_true hkey⟩
    · intro s hs o
      rw [if_pos]
      exact hskip s hs fun tx htx hkey => (hnamed ⟨tx, htx, hkey⟩).elim

lemma getElem?_eq_of_toNat {m m' : BTreeMap String UInt64} {a : String} (hkey : a ∈ m ↔ a ∈ m')
    (hval : (m.getD a 0).toNat = (m'.getD a 0).toNat) : m[a]? = m'[a]? := by
  have hval := UInt64.toNat_inj.mp hval
  rw [getD_eq_getD_getElem?, getD_eq_getD_getElem?] at hval
  rw [mem_iff_isSome_getElem?, mem_iff_isSome_getElem?] at hkey
  cases hm : m[a]? <;> cases hm' : m'[a]? <;> simp_all

lemma getElem?_mergeNonces (group : String → GroupResult) (base : KvState) (order : List String)
    (a : String) : (mergeStates base (order.map group)).nonces[a]? =
      order.foldl (fun o s => (group s).finalState.nonces[a]?.or o) base.nonces[a]? := by
  show ((order.map group).foldl (fun nonces g => extend nonces g.finalState.nonces)
    base.nonces)[a]? = _
  rw [List.foldl_map, getElem?_mergeMaps fun s => (group s).finalState.nonces]

lemma not_mem_map_from_filter {s a : String} (hne : s ≠ a) (txs : List Tx) :
    a ∉ (txs.filter fun tx => tx.from = s).map Tx.from := by
  intro hmem
  obtain ⟨tx, htx, rfl⟩ := List.mem_map.mp hmem
  exact hne (of_decide_eq_true (List.mem_filter.mp htx).2).symm

lemma getElem?_mergeNonces_of_mem (hG : GroupsRan C baseFee proposer base txs group)
    {init : List String} {last a : String} (horder : senderOrder txs = init ++ [last])
    (ha : a ∈ base.nonces) :
    (mergeStates base ((senderOrder txs).map group)).nonces[a]? =
      (group last).finalState.nonces[a]? := by
  have hlast := hG.ran last (by simp [horder])
  rw [getElem?_mergeNonces, horder, List.foldl_append, List.foldl_cons, List.foldl_nil]
  have hin := (hlast.nonceKeys a).mpr (.inl ha)
  obtain ⟨n, hn⟩ := Option.isSome_iff_exists.mp (mem_iff_isSome_getElem?.mp hin)
  rw [hn, Option.some_or]

lemma getElem?_mergeNonces_of_not_mem (hG : GroupsRan C baseFee proposer base txs group)
    (hst : Ran C baseFee proposer base txs st) {a : String} (ha : a ∉ base.nonces) :
    (mergeStates base ((senderOrder txs).map group)).nonces[a]? = st.nonces[a]? := by
  have hother : ∀ s ∈ senderOrder txs, s ≠ a → (group s).finalState.nonces[a]? = none := by
    intro s hs hne
    refine getElem?_eq_none fun hmem => ?_
    rcases ((hG.ran s hs).nonceKeys a).mp hmem with hbase | hsent
    · exact ha hbase
    · exact not_mem_map_from_filter hne txs hsent
  have hskip : ∀ s ∈ senderOrder txs, s ≠ a →
      ∀ o : Option UInt64, (group s).finalState.nonces[a]?.or o = o := by
    intro s hs hne o
    rw [hother s hs hne, Option.none_or]
  rw [getElem?_mergeNonces]
  by_cases hsent : a ∈ senderOrder txs
  · rw [foldl_eq_of_unique (nodup_senderOrder txs) hsent hskip,
      getElem?_eq_none ha, Option.or_none]
    have hran := hG.ran a hsent
    refine getElem?_eq_of_toNat ?_ (by rw [hran.nonces, hst.nonces, count_filter_from])
    have hmem := mem_senderOrder.mp hsent
    rw [hran.nonceKeys, hst.nonceKeys]
    refine or_congr_right ⟨fun _ => hmem, fun _ => ?_⟩
    obtain ⟨tx, htx, rfl⟩ := List.mem_map.mp hmem
    exact List.mem_map_of_mem (List.mem_filter.mpr ⟨htx, decide_eq_true rfl⟩)
  · rw [foldl_eq_self fun s hs => hskip s hs fun heq => hsent (heq ▸ hs),
      getElem?_eq_none ha, getElem?_eq_none]
    rw [hst.nonceKeys]
    rintro (hbase | hmem)
    · exact ha hbase
    · exact hsent (mem_senderOrder.mpr hmem)

lemma mergeStates_nonces_iff (hG : GroupsRan C baseFee proposer base txs group)
    (hst : Ran C baseFee proposer base txs st) (hne : txs ≠ []) :
    (mergeStates base ((senderOrder txs).map group)).nonces = st.nonces ↔
      ∀ a ∈ (senderOrder txs).dropLast, a ∉ base.nonces := by
  have hsome : senderOrder txs ≠ [] := by
    obtain ⟨tx, htx⟩ := List.exists_mem_of_ne_nil txs hne
    exact List.ne_nil_of_mem (from_mem_senderOrder htx)
  obtain ⟨init, last, horder⟩ : ∃ init last, senderOrder txs = init ++ [last] :=
    ⟨_, _, (List.dropLast_append_getLast hsome).symm⟩
  have hnd := nodup_senderOrder txs
  rw [horder, List.nodup_append] at hnd
  have hran := hG.ran last (by simp [horder])
  rw [horder, List.dropLast_concat, ← horder]
  constructor
  · intro heq a ha hbase
    have hlast : last ≠ a := fun h => hnd.2.2 a ha last (List.mem_singleton_self _) h.symm
    -- its nonce has not moved, although it has sent a transaction
    have hvalue : st.nonces.getD a 0 = (group last).finalState.nonces.getD a 0 := by
      rw [getD_eq_getD_getElem?, getD_eq_getD_getElem?, ← heq,
        getElem?_mergeNonces_of_mem hG horder hbase]
    have hmoved := hst.nonces a
    rw [hvalue, hran.nonces, List.count_eq_zero_of_not_mem (not_mem_map_from_filter hlast txs)]
      at hmoved
    have := List.count_pos_iff.mpr (mem_senderOrder.mp (by simp [horder, ha] : a ∈ senderOrder txs))
    omega
  · intro hfresh
    refine ext_getElem? fun {a} => ?_
    by_cases hbase : a ∈ base.nonces
    · rw [getElem?_mergeNonces_of_mem hG horder hbase]
      refine getElem?_eq_of_toNat ?_ ?_
      · rw [hran.nonceKeys, hst.nonceKeys]
        exact ⟨fun _ => .inl hbase, fun _ => .inl hbase⟩
      · rw [hran.nonces, hst.nonces]
        by_cases hlast : last = a
        · rw [hlast, count_filter_from]
        · rw [List.count_eq_zero_of_not_mem (not_mem_map_from_filter hlast txs),
            List.count_eq_zero_of_not_mem]
          intro hmem
          have hsent := mem_senderOrder.mpr hmem
          rw [horder, List.mem_append, List.mem_singleton] at hsent
          rcases hsent with hinit | rfl
          · exact hfresh a hinit hbase
          · exact hlast rfl
    · exact getElem?_mergeNonces_of_not_mem hG hst hbase

lemma settled_eq {current v : UInt64} {d : ℤ} (h : (current.toNat : ℤ) + d = v.toNat) :
    settled current d = if v = 0 then none else some v := by
  have hv := toNat_le v
  have hc := toNat_le current
  have hnew : (if 0 ≤ d then satAdd current (.ofNat d.toNat)
      else satSub current (.ofNat (-d).toNat)) = v := by
    refine UInt64.toNat_inj.mp ?_
    split
    · rw [toNat_satAdd, toNat_ofNat (by omega)]
      omega
    · rw [toNat_satSub, toNat_ofNat (by omega)]
      omega
  unfold settled
  rw [hnew]

lemma Ran.delta_add (h : Ran C baseFee proposer base txs st) (a : String) :
    delta base st a + spentBy C baseFee a txs =
      (if a = proposer then tipsOf C baseFee txs else 0 : ℕ) := by
  have hbal := h.balances a
  unfold delta
  have hgetD : st.balances.getD a 0 = st.balances[a]?.getD 0 :=
    getD_eq_getD_getElem?
  cases hfinal : st.balances[a]? with
  | some bal =>
    rw [hgetD, hfinal, Option.getD_some] at hbal
    rw [Option.elim_some]
    omega
  | none =>
    -- an account that is not there afterwards was not there before
    have hnot : a ∉ base.balances := fun hmem => by
      have := mem_iff_isSome_getElem?.mp ((h.balanceKeys a).mpr (.inl hmem))
      rw [hfinal] at this
      cases this
    rw [hgetD, hfinal, getD_eq_fallback hnot] at hbal
    rw [Option.elim_none]
    simp only [Option.getD_none, UInt64.toNat_zero] at hbal
    omega

lemma sum_delta (hG : GroupsRan C baseFee proposer base txs group)
    (hst : Ran C baseFee proposer base txs st) (a : String) :
    ((base.balances.getD a 0).toNat : ℤ) +
      (((senderOrder txs).map group).map fun g => delta base g.finalState a).sum =
        (st.balances.getD a 0).toNat := by
  have hsum : ∀ order : List String, (∀ s ∈ order, s ∈ senderOrder txs) →
      ((order.map group).map fun g => delta base g.finalState a).sum +
        ((order.map fun s => spentBy C baseFee a (txs.filter fun tx => tx.from = s)).sum : ℕ) =
      (if a = proposer then
        (order.map fun s => tipsOf C baseFee (txs.filter fun tx => tx.from = s)).sum else 0 : ℕ) := by
    intro order
    induction order with
    | nil => simp
    | cons s order ih =>
      intro hmem
      have hs := (hG.ran s (hmem s List.mem_cons_self)).delta_add a
      have hrest := ih fun s' hs' => hmem s' (List.mem_cons_of_mem s hs')
      simp only [List.map_cons, List.sum_cons]
      split_ifs at hs hrest ⊢ <;> push_cast at * <;> omega
  have htotal := hsum (senderOrder txs) fun _ hs => hs
  have hspent : ((senderOrder txs).map fun s =>
      spentBy C baseFee a (txs.filter fun tx => tx.from = s)).sum = spentBy C baseFee a txs :=
    sum_senderOrder _ txs
  have htips : ((senderOrder txs).map fun s =>
      tipsOf C baseFee (txs.filter fun tx => tx.from = s)).sum = tipsOf C baseFee txs :=
    sum_senderOrder _ txs
  rw [hspent, htips] at htotal
  have hbal := hst.balances a
  omega

lemma mergeStates_balances_iff (hG : GroupsRan C baseFee proposer base txs group)
    (hst : Ran C baseFee proposer base txs st) (hne : txs ≠ []) :
    (mergeStates base ((senderOrder txs).map group)).balances = st.balances ↔
      ∀ a ∈ st.balances, st.balances.getD a 0 ≠ 0 := by
  have hlisted : ∀ a : String, (∃ g ∈ (senderOrder txs).map group, a ∈ g.finalState.balances) ↔
      a ∈ st.balances := by
    intro a
    rw [hst.balanceKeys]
    constructor
    · rintro ⟨g, hg, ha⟩
      obtain ⟨s, hs, rfl⟩ := List.mem_map.mp hg
      rcases ((hG.ran s hs).balanceKeys a).mp ha with hbase | hsent | ⟨rfl, -⟩
      · exact .inl hbase
      · exact .inr (.inl ((List.filter_sublist.map _).subset hsent))
      · exact .inr (.inr ⟨rfl, hne⟩)
    · -- whoever sent the first transaction has a group with the old accounts and the proposer
      obtain ⟨tx, htx⟩ := List.exists_mem_of_ne_nil txs hne
      have hown : ∀ t ∈ txs, t ∈ txs.filter fun x => x.from = t.from := fun t ht =>
        List.mem_filter.mpr ⟨ht, decide_eq_true rfl⟩
      rintro (hbase | hsent | ⟨rfl, -⟩)
      · exact ⟨_, List.mem_map_of_mem (from_mem_senderOrder htx),
          ((hG.ran _ (from_mem_senderOrder htx)).balanceKeys a).mpr (.inl hbase)⟩
      · obtain ⟨t, ht, rfl⟩ := List.mem_map.mp hsent
        exact ⟨_, List.mem_map_of_mem (from_mem_senderOrder ht),
          ((hG.ran _ (from_mem_senderOrder ht)).balanceKeys t.from).mpr
            (.inr (.inl (List.mem_map_of_mem (hown t ht))))⟩
      · exact ⟨_, List.mem_map_of_mem (from_mem_senderOrder htx),
          ((hG.ran _ (from_mem_senderOrder htx)).balanceKeys a).mpr
            (.inr (.inr ⟨rfl, List.ne_nil_of_mem (hown tx htx)⟩))⟩
  have hentry : ∀ a : String, (mergeStates base ((senderOrder txs).map group)).balances[a]? =
      if a ∈ st.balances then
        if st.balances.getD a 0 = 0 then none else some (st.balances.getD a 0)
      else none := by
    intro a
    rw [getElem?_mergeBalances]
    simp only [hlisted]
    split
    · exact settled_eq (sum_delta hG hst a)
    · rename_i hnot
      exact getElem?_eq_none fun hmem => hnot ((hst.balanceKeys a).mpr (.inl hmem))
  constructor
  · intro heq a ha hzero
    have := hentry a
    rw [heq, if_pos ha, if_pos hzero] at this
    rw [mem_iff_isSome_getElem?, this] at ha
    cases ha
  · intro hpos
    refine ext_getElem? fun {a} => ?_
    rw [hentry]
    split
    · rename_i ha
      rw [if_neg (hpos a ha), getD_eq_getD_getElem?]
      obtain ⟨v, hv⟩ := Option.isSome_iff_exists.mp (mem_iff_isSome_getElem?.mp ha)
      rw [hv, Option.getD_some]
    · rename_i ha
      exact (getElem?_eq_none ha).symm

lemma groups_gas (txs : List Tx)
    (hreceipts : ∀ s ∈ senderOrder txs,
      (group s).gasUsed = gasFrom 0 ((txs.filter fun tx => tx.from = s).map (okReceipt C baseFee))) :
    ((senderOrder txs).map group).foldl (fun total g => satAdd total g.gasUsed) 0 =
      gasFrom 0 (txs.map (okReceipt C baseFee)) := by
  have hgas : ∀ l : List Tx, (gasFrom 0 (l.map (okReceipt C baseFee))).toNat =
      min ((l.map fun tx => (okReceipt C baseFee tx).gasUsed.toNat).sum) u64Max := by
    intro l
    rw [gasFrom, toNat_foldl_satAdd Receipt.gasUsed, List.map_map, UInt64.toNat_zero,
      Nat.zero_add]
    rfl
  refine UInt64.toNat_inj.mp ?_
  rw [toNat_foldl_satAdd GroupResult.gasUsed, List.map_map, hgas, UInt64.toNat_zero,
    Nat.zero_add, ← sum_senderOrder _ txs, ← min_sum_min (fun s =>
      ((txs.filter fun tx => tx.from = s).map fun tx => (okReceipt C baseFee tx).gasUsed.toNat).sum)]
  refine congrArg (min · u64Max) (congrArg List.sum (List.map_congr_left fun s hs => ?_))
  rw [Function.comp_apply, hreceipts s hs, hgas]

lemma collectReceipts_groups (txs : List Tx)
    (hindices : ∀ s ∈ senderOrder txs, (group s).globalIndices = (txsOf txs s).map Prod.snd)
    (hreceipts : ∀ s ∈ senderOrder txs, (group s).receipts =
      (txs.filter fun tx => tx.from = s).map (okReceipt C baseFee)) :
    collectReceipts ((senderOrder txs).map group) = txs.map (okReceipt C baseFee) := by
  have hall : (((senderOrder txs).map group).flatMap fun g => g.globalIndices.zip g.receipts) =
      ((senderOrder txs).flatMap (txsOf txs)).map fun e => (e.2, okReceipt C baseFee e.1) := by
    rw [List.flatMap_map, List.map_flatMap]
    refine List.flatMap_congr fun s hs => ?_
    rw [hindices s hs, hreceipts s hs, ← map_fst_txsOf, List.map_map, List.zip_map']
    rfl
  have hperm : (((senderOrder txs).flatMap (txsOf txs)).map fun e =>
      (e.2, okReceipt C baseFee e.1)).Perm (txs.zipIdx.map fun e => (e.2, okReceipt C baseFee e.1)) :=
    (flatMap_filter_perm (fun e : Tx × ℕ => e.1.from) (nodup_senderOrder txs) fun e he =>
      from_mem_senderOrder (List.fst_mem_of_mem_zipIdx he)).map _
  have hsorted : (txs.zipIdx.map fun e => (e.2, okReceipt C baseFee e.1)).Pairwise
      fun a b => a.1 < b.1 := by
    have hindex : (txs.zipIdx.map Prod.snd).Pairwise (· < ·) := by
      rw [List.zipIdx_map_snd]
      exact List.pairwise_lt_range'
    rw [List.pairwise_map] at hindex ⊢
    exact hindex
  rw [collectReceipts, hall, insertionSort_eq_of_perm Prod.fst hperm hsorted, List.map_map]
  conv_rhs => rw [← List.zipIdx_map_fst 0 txs, List.map_map]
  rfl

lemma mergeStates_eq_iff (hG : GroupsRan C baseFee proposer base txs group)
    (hst : Ran C baseFee proposer base txs st) (hkeys : KeysApart txs) (hne : txs ≠ []) :
    mergeStates base ((senderOrder txs).map group) = st ↔
      (∀ a ∈ (senderOrder txs).dropLast, a ∉ base.nonces) ∧
        ∀ a, a ∈ base.balances ∨ a ∈ txs.map Tx.from ∨ a = proposer →
          (base.balances.getD a 0).toNat + (if a = proposer then tipsOf C baseFee txs else 0) ≠
            spentBy C baseFee a txs := by
  have hzero : (∀ a ∈ st.balances, st.balances.getD a 0 ≠ 0) ↔
      ∀ a, a ∈ base.balances ∨ a ∈ txs.map Tx.from ∨ a = proposer →
        (base.balances.getD a 0).toNat + (if a = proposer then tipsOf C baseFee txs else 0) ≠
          spentBy C baseFee a txs := by
    refine forall_congr' fun a => imp_congr ?_ (not_congr ?_)
    · rw [hst.balanceKeys, and_iff_left hne]
    · rw [← hst.balances, ← UInt64.toNat_inj, UInt64.toNat_zero]
      omega
  rw [← mergeStates_nonces_iff hG hst hne, ← hzero, ← mergeStates_balances_iff hG hst hne]
  constructor
  · rintro rfl
    exact ⟨rfl, rfl⟩
  · rintro ⟨hnonces, hbalances⟩
    have hkv := mergeStates_kv hG hkeys hst
    have hburned := mergeStates_burned hG hst
    have hvm := mergeStates_vm hG hst
    generalize mergeStates base ((senderOrder txs).map group) = merged at *
    cases merged
    cases st
    simp_all

end Iona
