import Iona.Execution.Parallel

/-! # The effect of key-value transactions -/

namespace Iona

open Machine Std.ExtTreeMap

/-! ### Key-value commands -/

def IsKvCommand (payload : String) : Prop :=
  Text.stripPrefix "staking:" payload = none ∧
    Text.stripPrefix "vm " (Text.trimStart payload) = none

instance (payload : String) : Decidable (IsKvCommand payload) :=
  inferInstanceAs (Decidable (_ ∧ _))

def kvKey (payload : String) : Option String :=
  match Text.splitWhitespace payload with
  | "set" :: key :: _ :: _ => some key
  | ["del", key] => some key
  | ["inc", key] => some key
  | _ => none

def kvWrite (payload : String) (old : Option String) : Option String :=
  match Text.splitWhitespace payload with
  | "set" :: _ :: val :: rest => some (" ".intercalate (val :: rest))
  | ["del", _] => none
  | ["inc", _] => some (toString ((Text.parseI64 (old.getD "0")).getD 0 + 1))
  | _ => old

variable {r receipt : Receipt}

lemma applyKvPayload_ok {kv kv' : BTreeMap String String} {payload : String}
    (h : applyKvPayload kv payload = some (.ok kv')) :
    ∃ key, kvKey payload = some key ∧
      (∀ k, kv'[k]? = if k = key then kvWrite payload kv[k]? else kv[k]?) ∧
      ∀ other : BTreeMap String String, other[key]? = kv[key]? →
        ∃ other', applyKvPayload other payload = some (.ok other') := by
  unfold applyKvPayload at h
  unfold kvKey kvWrite applyKvPayload
  split at h
  · cases h
  · rename_i key val rest hwords
    cases h
    refine ⟨key, by simp [hwords], fun k => ?_, fun other _ => ⟨_, rfl⟩⟩
    rw [Grouping.local_insert (fun _ v => v)]
    simp [hwords]
  · rename_i key hwords
    cases h
    refine ⟨key, by simp [hwords], fun k => ?_, fun other _ => ⟨_, rfl⟩⟩
    rw [Grouping.local_erase kv key ()]
    simp [hwords]
  · rename_i key hwords
    dsimp only at h
    split at h
    · rename_i hfits
      cases h
      refine ⟨key, by simp [hwords], fun k => ?_, fun other hother => ?_⟩
      · rw [Grouping.local_insert (fun _ v => v), getD_eq_getD_getElem?]
        by_cases hk : k = key
        · simp [hwords, hk]
        · simp [hk]
      · rw [getD_eq_getD_getElem?] at hfits
        simp only [getD_eq_getD_getElem?, hother, if_pos hfits]
        exact ⟨_, rfl⟩
    · cases h
  · cases h

/-! ### A transaction that succeeds -/

variable (C : Crypto) (H : Handlers)

structure Admissible (baseFee : UInt64) (tx : Tx) : Prop where
  signed : ∃ addr, verifyTxSignature C tx = .ok addr
  gas : ∃ intrinsic, intrinsicGas tx.payload = some intrinsic ∧ intrinsic ≤ tx.gasLimit
  fee : baseFee ≤ tx.maxFeePerGas

def okReceipt (baseFee : UInt64) (tx : Tx) : Receipt :=
  let intrinsic := (intrinsicGas tx.payload).getD 0
  let priorityFee := min tx.maxPriorityFeePerGas (satSub tx.maxFeePerGas baseFee)
  { txHash := txHash C tx, success := true, gasUsed := intrinsic, intrinsicGasUsed := intrinsic
    effectiveGasPrice := satAdd baseFee priorityFee
    burned := satMul baseFee intrinsic, tip := satMul priorityFee intrinsic }

def feeOf (baseFee : UInt64) (tx : Tx) : UInt64 :=
  satAdd (okReceipt C baseFee tx).burned (okReceipt C baseFee tx).tip

lemma admitTx_ok_iff {tx : Tx} {baseFee expected bal : UInt64} :
    admitTx C tx baseFee expected bal = some (.ok r) ↔
      Admissible C baseFee tx ∧ tx.nonce = expected ∧ feeOf C baseFee tx ≤ bal ∧
        r = { okReceipt C baseFee tx with success := false } := by
  unfold admitTx feeOf okReceipt
  dsimp only
  cases hsig : verifyTxSignature C tx with
  | error e => exact ⟨fun h => by simp at h, fun h => by simpa [hsig] using h.1.signed⟩
  | ok addr =>
    cases hgas : intrinsicGas tx.payload with
    | none =>
      refine ⟨fun h => ?_, fun h => ?_⟩
      · by_cases hnonce : tx.nonce = expected
        · rw [if_neg (not_not_intro hnonce)] at h
          cases h
        · rw [if_pos hnonce] at h
          cases h
      · obtain ⟨i, hi, -⟩ := h.1.gas
        rw [hgas] at hi
        cases hi
    | some intrinsic =>
      have hadm : Admissible C baseFee tx ↔ intrinsic ≤ tx.gasLimit ∧ baseFee ≤ tx.maxFeePerGas := by
        refine ⟨fun h => ⟨?_, h.fee⟩, fun h => ⟨⟨addr, hsig⟩, ⟨intrinsic, hgas, h.1⟩, h.2⟩⟩
        obtain ⟨i, hi, hle⟩ := h.gas
        cases hgas.symm.trans hi
        exact hle
      rw [hadm]
      simp only [Option.bind_eq_bind, Option.bind_some, Option.getD_some, Option.pure_def]
      by_cases hnonce : tx.nonce = expected
      · rw [if_neg (not_not_intro hnonce)]
        by_cases hlimit : tx.gasLimit < intrinsic
        · rw [if_pos hlimit]
          exact ⟨(fun h => by cases h), fun h => absurd hlimit (UInt64.not_lt.mpr h.1.1)⟩
        rw [if_neg hlimit]
        by_cases hfee : tx.maxFeePerGas < baseFee
        · rw [if_pos hfee]
          exact ⟨(fun h => by cases h), fun h => absurd hfee (UInt64.not_lt.mpr h.1.2)⟩
        rw [if_neg hfee]
        split
        · rename_i hbal
          exact ⟨(fun h => by cases h), fun h => absurd hbal (UInt64.not_lt.mpr h.2.2.1)⟩
        · rename_i hbal
          refine ⟨fun h => ⟨⟨UInt64.not_lt.mp hlimit, UInt64.not_lt.mp hfee⟩, hnonce,
            UInt64.not_lt.mp hbal, ?_⟩, fun h => ?_⟩
          · cases h
            rfl
          · rw [h.2.2.2]
      · rw [if_pos hnonce]
        exact ⟨(fun h => by cases h), fun h => absurd h.2.1 hnonce⟩

lemma admitTx_error {tx : Tx} {baseFee expected bal : UInt64}
    (h : admitTx C tx baseFee expected bal = some (.error r)) : r.error ≠ none := by
  unfold admitTx at h
  simp only [] at h
  split at h
  · cases h
    exact Option.some_ne_none _
  · split at h
    · cases h
      exact Option.some_ne_none _
    · obtain ⟨intrinsic, -, h⟩ := Option.bind_eq_some_iff.mp h
      split at h
      · cases h
        exact Option.some_ne_none _
      split at h
      · cases h
        exact Option.some_ne_none _
      split at h
      · cases h
        exact Option.some_ne_none _
      · cases h

lemma applyPayload_of_ok {working : KvState} {payload «from» : String} (hkv : IsKvCommand payload)
    {kv : BTreeMap String String} (hres : applyKvPayload working.kv payload = some (.ok kv)) :
    applyPayload H receipt working payload «from» =
      some ({ receipt with success := true }, { working with kv := kv }) := by
  unfold applyPayload
  rw [hkv.1, hkv.2, hres]
  rfl

lemma applyPayload_ok {working st' : KvState} {payload «from» : String}
    (hkv : IsKvCommand payload) (h : applyPayload H receipt working payload «from» = some (r, st'))
    (herror : r.error = none) :
    ∃ kv, applyKvPayload working.kv payload = some (.ok kv) ∧
      r = { receipt with success := true } ∧ st' = { working with kv := kv } := by
  unfold applyPayload at h
  rw [hkv.1, hkv.2] at h
  obtain ⟨res, hres, h⟩ := Option.bind_eq_some_iff.mp h
  cases res with
  | error e =>
    cases h
    cases herror
  | ok kv =>
    cases h
    exact ⟨kv, hres, rfl, rfl⟩

lemma applyTx_ok_iff {st st' : KvState} {tx : Tx} {baseFee : UInt64} {proposer : String}
    (hkv : IsKvCommand tx.payload) :
    (applyTx C H st tx baseFee proposer = some (r, st') ∧ r.error = none) ↔
      (Admissible C baseFee tx ∧ tx.nonce = st.nonces.getD tx.from 0 ∧
        feeOf C baseFee tx ≤ st.balances.getD tx.from 0 ∧ r = okReceipt C baseFee tx) ∧
      ∃ nonce kv, nonce.toNat = (st.nonces.getD tx.from 0).toNat + 1 ∧
        applyKvPayload st.kv tx.payload = some (.ok kv) ∧
        st' = { charge st tx.from proposer (okReceipt C baseFee tx).burned
          (okReceipt C baseFee tx).tip nonce with kv := kv } := by
  constructor
  · rintro ⟨h, herror⟩
    obtain ⟨-, hadmitted⟩ | ⟨receipt, nonce, hadmitted, hnonce, hpay⟩ := applyTx_cases C H h
    · exact absurd herror (admitTx_error C hadmitted)
    obtain ⟨hadm, hexpected, hfee, rfl⟩ := (admitTx_ok_iff C).mp hadmitted
    obtain ⟨kv, hres, rfl, rfl⟩ := applyPayload_ok H hkv hpay herror
    exact ⟨⟨hadm, hexpected, hfee, rfl⟩, nonce, kv, hnonce, hres, rfl⟩
  · rintro ⟨⟨hadm, hexpected, hfee, rfl⟩, nonce, kv, hnonce, hres, rfl⟩
    refine ⟨?_, rfl⟩
    have hadmitted := (admitTx_ok_iff C).mpr ⟨hadm, hexpected, hfee, rfl⟩
    unfold applyTx
    dsimp only
    rw [hadmitted]
    simp only [Option.bind_eq_bind, Option.bind_some, checked_eq_some_iff.mpr hnonce]
    exact applyPayload_of_ok H hkv hres

lemma getD_charge {state : KvState} {«from» : String} (proposer : String) {burned tip : UInt64}
    (nonce : UInt64) (hmax : state.supply < u64Max)
    (hbal : satAdd burned tip ≤ state.balances.getD «from» 0) (a : String) :
    ((charge state «from» proposer burned tip nonce).balances.getD a 0).toNat +
        (if a = «from» then (satAdd burned tip).toNat else 0) =
      (state.balances.getD a 0).toNat + if a = proposer then tip.toNat else 0 := by
  have hdebit := MapSum.sumBy_insert UInt64.toNat state.balances «from»
    (state.balances.getD «from» 0 - satAdd burned tip)
  rw [share_getElem?, UInt64.toNat_sub_of_le _ _ hbal] at hdebit
  have hsub := UInt64.toNat_sub_of_le _ _ hbal
  have hfrom := MapSum.share_le_sumBy UInt64.toNat state.balances «from»
  rw [share_getElem?] at hfrom
  rw [UInt64.le_iff_toNat_le] at hbal
  have htip : tip.toNat ≤ (satAdd burned tip).toNat := by
    rw [toNat_satAdd]
    exact le_min (Nat.le_add_left _ _) (toNat_le _)
  unfold KvState.supply at hmax
  simp only [charge]
  have hprop := MapSum.share_le_sumBy UInt64.toNat
    (state.balances.insert «from» (state.balances.getD «from» 0 - satAdd burned tip)) proposer
  rw [share_getElem?] at hprop
  rw [MapSum.getD_insert_ite]
  by_cases hap : a = proposer
  · subst hap
    rw [if_pos rfl, toNat_satAdd, min_eq_left (by omega), if_pos rfl, MapSum.getD_insert_ite]
    by_cases haf : a = «from»
    · subst haf
      rw [if_pos rfl, if_pos rfl, hsub]
      omega
    · rw [if_neg haf, if_neg haf]
      omega
  · rw [if_neg hap, if_neg hap, MapSum.getD_insert_ite]
    by_cases haf : a = «from»
    · subst haf
      rw [if_pos rfl, if_pos rfl, hsub]
      omega
    · rw [if_neg haf, if_neg haf]

/-! ### The effect of a list of transactions -/

section Ran

variable (baseFee : UInt64) (proposer : String)

def spentBy (a : String) (txs : List Tx) : ℕ :=
  (txs.map fun tx => if tx.from = a then (feeOf C baseFee tx).toNat else 0).sum

def tipsOf (txs : List Tx) : ℕ := (txs.map fun tx => (okReceipt C baseFee tx).tip.toNat).sum

def burnsOf (txs : List Tx) : ℕ := (txs.map fun tx => (okReceipt C baseFee tx).burned.toNat).sum

def writesTo (k : String) (txs : List Tx) (old : Option String) : Option String :=
  (txs.filter fun tx => kvKey tx.payload = some k).foldl (fun v tx => kvWrite tx.payload v) old

structure Ran (base : KvState) (txs : List Tx) (st : KvState) : Prop where
  nonceKeys : ∀ a, a ∈ st.nonces ↔ a ∈ base.nonces ∨ a ∈ txs.map Tx.from
  nonces : ∀ a, (st.nonces.getD a 0).toNat =
    (base.nonces.getD a 0).toNat + (txs.map Tx.from).count a
  balanceKeys : ∀ a, a ∈ st.balances ↔
    a ∈ base.balances ∨ a ∈ txs.map Tx.from ∨ a = proposer ∧ txs ≠ []
  balances : ∀ a, (st.balances.getD a 0).toNat + spentBy C baseFee a txs =
    (base.balances.getD a 0).toNat + if a = proposer then tipsOf C baseFee txs else 0
  burned : st.burned.toNat = min (base.burned.toNat + burnsOf C baseFee txs) u64Max
  kv : ∀ k, st.kv[k]? = writesTo k txs base.kv[k]?
  vm : st.vm = base.vm
  supply : st.supply = base.supply

variable {C H baseFee proposer} {base st st' : KvState} {txs : List Tx}

lemma Ran.nil (base : KvState) : Ran C baseFee proposer base [] base where
  nonceKeys := by simp
  nonces := by simp
  balanceKeys := by simp
  balances := by simp [spentBy, tipsOf]
  burned := by simp [burnsOf, toNat_le]
  kv _ := rfl
  vm := rfl
  supply := rfl

lemma Ran.snoc (h : Ran C baseFee proposer base txs st) (hmax : base.supply < u64Max)
    {tx : Tx} (hkv : IsKvCommand tx.payload)
    (happly : applyTx C H st tx baseFee proposer = some (r, st')) (herror : r.error = none) :
    r = okReceipt C baseFee tx ∧ Ran C baseFee proposer base (txs ++ [tx]) st' := by
  obtain ⟨⟨-, -, hfee, hr⟩, nonce, kv, hnonce, hpayload, rfl⟩ :=
    (applyTx_ok_iff C H hkv).mp ⟨happly, herror⟩
  obtain ⟨key, hkey, hwrite, -⟩ := applyKvPayload_ok hpayload
  rw [← h.supply] at hmax
  refine ⟨hr, ?_⟩
  exact
    { nonceKeys := fun a => by
        show a ∈ st.nonces.insert tx.from nonce ↔ _
        rw [mem_insert, Std.LawfulEqCmp.compare_eq_iff_eq, h.nonceKeys, List.map_append,
          List.mem_append, List.map_singleton, List.mem_singleton, eq_comm, or_comm, or_assoc]
      nonces := fun a => by
        show ((st.nonces.insert tx.from nonce).getD a 0).toNat = _
        rw [MapSum.getD_insert_ite, List.map_append, List.count_append, List.map_singleton,
          List.count_singleton]
        by_cases ha : a = tx.from
        · subst ha
          rw [if_pos rfl, hnonce, h.nonces]
          simp [Nat.add_assoc]
        · rw [if_neg ha, h.nonces]
          simp [Ne.symm ha]
      balanceKeys := fun a => by
        show a ∈ (st.balances.insert tx.from _).insert proposer _ ↔ _
        rw [mem_insert, mem_insert, Std.LawfulEqCmp.compare_eq_iff_eq,
          Std.LawfulEqCmp.compare_eq_iff_eq, h.balanceKeys]
        rw [List.map_append, List.mem_append, List.map_singleton, List.mem_singleton]
        have hne : txs ++ [tx] ≠ [] := by simp
        constructor
        · rintro (rfl | rfl | hb | hs | ⟨rfl, -⟩)
          · exact .inr (.inr ⟨rfl, hne⟩)
          · exact .inr (.inl (.inr rfl))
          · exact .inl hb
          · exact .inr (.inl (.inl hs))
          · exact .inr (.inr ⟨rfl, hne⟩)
        · rintro (hb | (hs | rfl) | ⟨rfl, -⟩)
          · exact .inr (.inr (.inl hb))
          · exact .inr (.inr (.inr (.inl hs)))
          · exact .inr (.inl rfl)
          · exact .inl rfl
      balances := fun a => by
        have hstep := getD_charge proposer nonce hmax hfee a
        have hold := h.balances a
        simp only [spentBy, tipsOf, List.map_append, List.map_cons, List.map_nil, List.sum_append,
          List.sum_singleton, eq_comm (a := tx.from)] at hold ⊢
        rw [feeOf]
        show ((charge st tx.from proposer _ _ nonce).balances.getD a 0).toNat + _ = _
        split_ifs at hstep hold ⊢ <;> omega
      burned := by
        show (satAdd st.burned _).toNat = _
        rw [toNat_satAdd, h.burned]
        simp only [burnsOf, List.map_append, List.map_cons, List.map_nil, List.sum_append,
          List.sum_singleton]
        omega
      kv := fun k => by
        show kv[k]? = _
        rw [hwrite k, writesTo, List.filter_append, List.foldl_append]
        have hold := h.kv k
        rw [writesTo] at hold
        by_cases hk : k = key
        · rw [hk] at hold ⊢
          simp [hkey, hold]
        · rw [if_neg hk, hold]
          have : ¬ key = k := fun h => hk h.symm
          simp [hkey, this]
      vm := h.vm
      supply := by
        have hsupply := charge_supply proposer nonce hmax hfee
        exact hsupply.trans h.supply }

lemma applyAll_ran (hmax : base.supply < u64Max)
    (h : Ran C baseFee proposer base txs st) {more : List Tx}
    (hkv : ∀ tx ∈ more, IsKvCommand tx.payload) {rs : List Receipt}
    (hrun : applyAll C H baseFee proposer st more = some (rs, st'))
    (hok : ∀ r ∈ rs, r.error = none) :
    rs = more.map (okReceipt C baseFee) ∧ Ran C baseFee proposer base (txs ++ more) st' := by
  induction more generalizing txs st rs with
  | nil =>
    cases hrun
    exact ⟨rfl, by rwa [List.append_nil]⟩
  | cons tx more ih =>
    obtain ⟨r, st₁, rs₁, happly, hrest, rfl⟩ := (applyAll_cons_eq_some_iff C H).mp hrun
    obtain ⟨rfl, hstep⟩ := h.snoc hmax (hkv tx List.mem_cons_self) happly (hok r List.mem_cons_self)
    obtain ⟨rfl, hran⟩ := ih hstep (fun tx' htx' => hkv tx' (List.mem_cons_of_mem tx htx')) hrest
      fun r' hr' => hok r' (List.mem_cons_of_mem _ hr')
    rw [List.append_assoc] at hran
    exact ⟨rfl, hran⟩

lemma count_filter_from (a : String) (txs : List Tx) :
    ((txs.filter fun tx => tx.from = a).map Tx.from).count a = (txs.map Tx.from).count a := by
  rw [List.count_eq_countP, List.count_eq_countP, List.countP_map, List.countP_map,
    List.countP_filter]
  refine List.countP_congr fun tx _ => ?_
  simp

lemma spentBy_filter_from (a : String) (txs : List Tx) :
    spentBy C baseFee a (txs.filter fun tx => tx.from = a) = spentBy C baseFee a txs := by
  induction txs with
  | nil => rfl
  | cons tx txs ih =>
    unfold spentBy at ih ⊢
    by_cases ha : tx.from = a
    · simp [ha, ih]
    · simp [ha, ih]

lemma tipsOf_filter_le (p : Tx → Bool) (txs : List Tx) :
    tipsOf C baseFee (txs.filter p) ≤ tipsOf C baseFee txs :=
  (List.filter_sublist.map _).sum_le_sum fun _ _ => Nat.zero_le _

lemma writesTo_filter {p : Tx → Bool} {k : String} {txs : List Tx}
    (h : ∀ tx ∈ txs, kvKey tx.payload = some k → p tx = true) (v : Option String) :
    writesTo k (txs.filter p) v = writesTo k txs v := by
  unfold writesTo
  rw [List.filter_filter, List.filter_congr fun tx htx => ?_]
  have := h tx htx
  by_cases hk : kvKey tx.payload = some k <;> simp_all

lemma Ran.transfer {pre : List Tx} {tx : Tx} {own own' : KvState}
    (h : Ran C baseFee proposer base pre st)
    (howned : Ran C baseFee proposer base (pre.filter fun t => t.from = tx.from) own)
    (hkeys : ∀ t ∈ pre, t.from ≠ tx.from → ∀ k, kvKey t.payload = some k → kvKey tx.payload ≠ some
      k) (hkv : IsKvCommand tx.payload)
    (happly : applyTx C H own tx baseFee proposer = some (r, own')) (herror : r.error = none) :
    ∃ st', applyTx C H st tx baseFee proposer = some (r, st') := by
  obtain ⟨⟨hadm, hnonce, hfee, rfl⟩, nonce, kv, hnext, hpayload, -⟩ :=
    (applyTx_ok_iff C H hkv).mp ⟨happly, herror⟩
  have hsame : st.nonces.getD tx.from 0 = own.nonces.getD tx.from 0 := by
    refine UInt64.toNat_inj.mp ?_
    rw [h.nonces, howned.nonces, count_filter_from]
  -- the others may have paid the sender tips, if it is the proposer
  have hbalance : own.balances.getD tx.from 0 ≤ st.balances.getD tx.from 0 := by
    have hst := h.balances tx.from
    have hown := howned.balances tx.from
    rw [spentBy_filter_from] at hown
    have htips : tipsOf C baseFee (pre.filter fun t => t.from = tx.from) ≤ tipsOf C baseFee pre :=
      tipsOf_filter_le _ _
    rw [UInt64.le_iff_toNat_le]
    split_ifs at hst hown <;> omega
  obtain ⟨key, hkey, -, hother⟩ := applyKvPayload_ok hpayload
  have hvalue : st.kv[key]? = own.kv[key]? := by
    rw [h.kv, howned.kv, writesTo_filter]
    intro t ht htkey
    by_contra hne
    exact hkeys t ht (by simpa using hne) key htkey hkey
  obtain ⟨kv', hkv'⟩ := hother st.kv hvalue
  exact ⟨_, ((applyTx_ok_iff C H hkv).mpr ⟨⟨hadm, hnonce.trans hsame.symm,
    UInt64.le_trans hfee hbalance, rfl⟩, nonce, kv', hsame ▸ hnext, hkv', rfl⟩).1⟩

lemma applyAll_append {l l' : List Tx} {rs : List Receipt}
    (h : applyAll C H baseFee proposer st (l ++ l') = some (rs, st')) :
    ∃ rs₁ st₁ rs₂, applyAll C H baseFee proposer st l = some (rs₁, st₁) ∧
      applyAll C H baseFee proposer st₁ l' = some (rs₂, st') ∧ rs = rs₁ ++ rs₂ := by
  induction l generalizing st rs with
  | nil => exact ⟨[], st, rs, rfl, h, rfl⟩
  | cons tx l ih =>
    obtain ⟨r, st₁, rs₁, happly, hrest, rfl⟩ := (applyAll_cons_eq_some_iff C H).mp h
    obtain ⟨rs₂, st₂, rs₃, hl, hl', rfl⟩ := ih hrest
    exact ⟨r :: rs₂, st₂, rs₃, (applyAll_cons_eq_some_iff C H).mpr ⟨r, st₁, rs₂, happly, hl, rfl⟩,
      hl', rfl⟩

def KeysApart (txs : List Tx) : Prop :=
  ∀ tx ∈ txs, ∀ tx' ∈ txs, tx.from ≠ tx'.from →
    ∀ k, kvKey tx.payload = some k → kvKey tx'.payload ≠ some k

def Succeeds (C : Crypto) (H : Handlers) (base : KvState) (txs : List Tx) (baseFee : UInt64)
    (proposer sender : String) : Prop :=
  ∃ rs st, runOf C H base txs baseFee proposer sender = some (rs, st) ∧ ∀ r ∈ rs, r.error = none

lemma applyAll_of_groups (hmax : base.supply < u64Max)
    (hkv : ∀ tx ∈ txs, IsKvCommand tx.payload) (hkeys : KeysApart txs)
    (hgroups : ∀ s ∈ txs.map Tx.from, Succeeds C H base txs baseFee proposer s) :
    ∃ st, applyAll C H baseFee proposer base txs = some (txs.map (okReceipt C baseFee), st) := by
  suffices hrest : ∀ post pre st, txs = pre ++ post → Ran C baseFee proposer base pre st →
      ∃ st', applyAll C H baseFee proposer st post = some (post.map (okReceipt C baseFee), st') by
    exact hrest txs [] base rfl (.nil base)
  intro post
  induction post with
  | nil => exact fun pre st _ _ => ⟨st, rfl⟩
  | cons tx post ih =>
    intro pre st hsplit hran
    have htx : tx ∈ txs := by simp [hsplit]
    -- the sender's own run, up to and with this transaction
    obtain ⟨rs, st₂, hrun, hok⟩ := hgroups tx.from (List.mem_map_of_mem htx)
    rw [runOf, hsplit, List.filter_append, List.filter_cons_of_pos (by simp)] at hrun
    obtain ⟨rs₁, own, rs₂, hown, htail, rfl⟩ := applyAll_append hrun
    obtain ⟨r, own', rs₃, happly, -, rfl⟩ := (applyAll_cons_eq_some_iff C H).mp htail
    have howned := (applyAll_ran hmax (.nil base) (fun t ht => hkv t ?_) hown fun r' hr' =>
      hok r' (List.mem_append_left _ hr')).2
    · rw [List.nil_append] at howned
      have herror := hok r (List.mem_append_right _ List.mem_cons_self)
      obtain ⟨st₁, hst₁⟩ := hran.transfer howned
        (fun t ht hne k hk => hkeys t (by simp [hsplit, ht]) tx htx hne k hk) (hkv tx htx) happly herror
      obtain ⟨rfl, hran₁⟩ := hran.snoc hmax (hkv tx htx) hst₁ herror
      obtain ⟨st', hst'⟩ := ih (pre ++ [tx]) st₁ (by simp [hsplit]) hran₁
      exact ⟨st', (applyAll_cons_eq_some_iff C H).mpr ⟨_, st₁, _, hst₁, hst', rfl⟩⟩
    · have := List.mem_of_mem_filter ht
      simp [hsplit, this]

end Ran

end Iona
