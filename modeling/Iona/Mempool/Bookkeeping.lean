import Iona.Mempool.Standard

/-!
# The bookkeeping of the standard mempool

## Main results

* `run_bookkeeping`: the invariant `Wf` along every run.
* `evict_fair_iff`, `replace_by_fee_iff`, `drain_in_order_iff`: when a call does what it is for.
-/

namespace Iona.Mempool.StandardMempool

open Std Nested Option

/-! ### The invariant -/

structure QueueOk (config : MempoolConfig) (height : Height) (sender : String) (queue : TxQueue) :
    Prop where
  named : sender.isEmpty = false
  nonempty : queue.isEmpty = false
  limit : queue.size ≤ config.maxPendingPerSender
  keyed : ∀ (nonce : UInt64) (ptx : PendingTx), queue[nonce]? = some ptx →
    ptx.tx.from = sender ∧ ptx.tx.nonce = nonce
  fresh : ∀ (nonce : UInt64) (ptx : PendingTx), queue[nonce]? = some ptx →
    ptx.isExpired height config.ttlBlocks = false
  priced : ∀ (nonce : UInt64) (ptx : PendingTx), queue[nonce]? = some ptx →
    (intrinsicGas ptx.tx.payload).isSome

def QueuesOk (config : MempoolConfig) (height : Height) (queues : Queues) : Prop :=
  ∀ sender queue, queues[sender]? = some queue → QueueOk config height sender queue

structure Wf (pool : StandardMempool) : Prop where
  valid : pool.config.validate = .ok ()
  count : pool.pendingCount = size pool.queues
  capacity : pool.pendingCount ≤ pool.config.capacity
  queues : QueuesOk pool.config pool.currentHeight pool.queues

variable {pool pool' : StandardMempool} {order : EvictionOrder} {baseFee : UInt64} {tx : Tx}
  {config : MempoolConfig} {result : Except MempoolError Unit} {queues : Queues} {sender : String}

lemma pos_of_validate (h : config.validate = .ok ()) :
    0 < config.capacity ∧ 0 < config.maxPendingPerSender := by
  unfold MempoolConfig.validate at h
  split at h
  · cases h
  split at h
  · cases h
  split at h
  · cases h
  · exact ⟨Nat.pos_of_ne_zero ‹_›, Nat.pos_of_ne_zero ‹_›⟩

lemma Wf.capacity_pos (h : Wf pool) : 0 < pool.config.capacity :=
  (pos_of_validate h.valid).1

lemma Wf.limit_pos (h : Wf pool) : 0 < pool.config.maxPendingPerSender :=
  (pos_of_validate h.valid).2

section Queues

variable {config : MempoolConfig} {height : Height} {sender : String} {queue queue' : TxQueue}
  {queues : Queues}

lemma QueueOk.sub (h : QueueOk config height sender queue) (hne : queue'.isEmpty = false)
    (hsize : queue'.size ≤ queue.size)
    (hsub : ∀ (nonce : UInt64) ptx, queue'[nonce]? = some ptx → queue[nonce]? = some ptx) :
    QueueOk config height sender queue' where
  named := h.named
  nonempty := hne
  limit := hsize.trans h.limit
  keyed nonce ptx hget := h.keyed nonce ptx (hsub nonce ptx hget)
  fresh nonce ptx hget := h.fresh nonce ptx (hsub nonce ptx hget)
  priced nonce ptx hget := h.priced nonce ptx (hsub nonce ptx hget)

lemma QueuesOk.store (h : QueuesOk config height queues)
    (hqueue : queue.isEmpty = false → QueueOk config height sender queue) :
    QueuesOk config height (store queues sender queue) := by
  intro s q hq
  rw [getElem?_store] at hq
  split at hq
  · rename_i hs
    split at hq
    · cases hq
    · rename_i hne
      cases hq
      rw [hs]
      exact hqueue (by simpa using hne)
  · exact h s q hq

lemma QueuesOk.of_get (h : QueuesOk config height queues) {nonce : UInt64} {ptx : PendingTx}
    (hget : get queues sender nonce = some ptx) :
    QueueOk config height sender (row queues sender) :=
  h sender _ (getElem?_row (size_row_pos hget))

lemma QueuesOk.keyed (h : QueuesOk config height queues) : Keyed queues :=
  fun _ n ptx hget => (h.of_get hget).keyed n ptx hget

lemma QueuesOk.remove (h : QueuesOk config height queues) (s : String) (n : UInt64) :
    QueuesOk config height (remove queues s n) := by
  refine h.store fun hne => ?_
  have hsub : ∀ (k : UInt64) ptx, ((row queues s).erase n)[k]? = some ptx →
      (row queues s)[k]? = some ptx :=
    fun k ptx hget => (MapSum.getElem?_erase_eq_some_iff.mp hget).2
  obtain ⟨k, ptx, hget⟩ := exists_getElem?_of_isEmpty hne
  refine (h.of_get (hsub k ptx hget)).sub hne ?_ hsub
  rw [ExtTreeMap.size_erase]
  split <;> omega

lemma Drained.queuesOk {txs : List Tx} {queues' : Queues} (h : Drained queues txs queues')
    (hok : QueuesOk config height queues) : QueuesOk config height queues' := by
  induction h with
  | nil => exact hok
  | cons _ _ _ ih => exact ih (hok.remove _ _)

end Queues

lemma removeConfirmed_wf (h : Wf pool) (sender : String) (committedNonce : UInt64) :
    Wf (pool.removeConfirmed sender committedNonce) := by
  unfold removeConfirmed
  cases hq : pool.queues[sender]? with
  | none => exact h
  | some queue =>
    have hle := size_filter_le queue fun nonce _ => decide (committedNonce ≤ nonce)
    have hsize := size_store (m := pool.queues) sender
      (queue.filter fun nonce _ => decide (committedNonce ≤ nonce))
    rw [row_of_getElem? hq] at hsize
    refine ⟨h.valid, rfl, ?_, h.queues.store fun hne => ?_⟩
    · have := h.capacity
      have := h.count
      simp only
      omega
    · refine (h.queues sender queue hq).sub hne hle fun nonce ptx hget => ?_
      rw [ExtTreeMap.getElem?_filter', filter_eq_some_iff] at hget
      exact hget.1

lemma advanceHeight_wf (h : Wf pool) (height : Height) : Wf (pool.advanceHeight height) := by
  unfold advanceHeight
  split
  · exact h
  · refine ⟨h.valid, rfl, ?_, ?_⟩
    · exact (size_filterRows_le _).trans (h.count ▸ h.capacity)
    · intro s r hr
      obtain ⟨queue, hq, rfl, hne⟩ := getElem?_filterRows_eq_some_iff.mp hr
      have hok := h.queues s queue hq
      have hget : ∀ (nonce : UInt64) ptx, (queue.filter fun _ ptx =>
          !ptx.isExpired height pool.config.ttlBlocks)[nonce]? = some ptx →
            queue[nonce]? = some ptx ∧ ptx.isExpired height pool.config.ttlBlocks = false := by
        intro nonce ptx hget
        rw [ExtTreeMap.getElem?_filter', filter_eq_some_iff] at hget
        exact ⟨hget.1, by simpa using hget.2⟩
      exact ⟨hok.named, hne, (size_filter_le _ _).trans hok.limit,
        fun nonce ptx hin => hok.keyed nonce ptx (hget nonce ptx hin).1,
        fun nonce ptx hin => (hget nonce ptx hin).2,
        fun nonce ptx hin => hok.priced nonce ptx (hget nonce ptx hin).1⟩

lemma drain_spec {order : HeapOrder} {n : ℕ} {txs : List Tx} (h : Wf pool)
    (hdrain : drain order pool n = some (txs, pool')) :
    Drained pool.queues txs pool'.queues ∧ txs.length = min n pool.pendingCount ∧
      pool' = { pool with queues := pool'.queues, pendingCount := pool.pendingCount - txs.length } := by
  unfold drain at hdrain
  split at hdrain
  · rename_i hnone
    cases hdrain
    refine ⟨.nil _, ?_, rfl⟩
    rw [List.length_nil]
    omega
  split at hdrain
  · cases hdrain
  · cases hdrain
    rw [h.count]
    obtain ⟨hdrained, hlen⟩ := drainLoop_spec order ((heads pool.queues).length +
      size pool.queues) n h.queues.keyed (heapOk_heads pool.queues) (Nat.le_add_left _ _)
    exact ⟨hdrained, hlen, rfl⟩

lemma drain_wf {order : HeapOrder} {n : ℕ} {txs : List Tx} (h : Wf pool)
    (hdrain : drain order pool n = some (txs, pool')) : Wf pool' := by
  obtain ⟨hdrained, -, heq⟩ := drain_spec h hdrain
  have hsize := hdrained.size_eq
  have hcount := h.count
  have hcapacity := h.capacity
  rw [heq]
  exact ⟨h.valid, by simp only; omega, by simp only; omega, hdrained.queuesOk h.queues⟩

/-! ### What an insertion does -/

def place (queues : Queues) (tx : Tx) (ptx : PendingTx) : Queues :=
  store queues tx.from ((row queues tx.from).insert tx.nonce ptx)

structure Eligible (pool : StandardMempool) (tx : Tx) (baseFee : UInt64) : Prop where
  named : tx.from.isEmpty = false
  covered : baseFee ≤ tx.maxFeePerGas
  below : (row pool.queues tx.from).size < pool.config.maxPendingPerSender

def Alone (queues : Queues) (sender : String) : Prop :=
  ∀ s n, s ≠ sender → get queues s n = none

def Lowest (queues : Queues) (sender : String) (ptx : PendingTx) : Prop :=
  ∀ s n other, s ≠ sender → get queues s n = some other → ptx.score ≤ other.score

inductive Outcome (pool : StandardMempool) (tx : Tx) (baseFee : UInt64) :
    Except MempoolError Unit → Queues → ℕ → Prop
  | ineligible {e : MempoolError} (refused : ¬ Eligible pool tx baseFee)
      (named : e ≠ .full pool.config.capacity) :
      Outcome pool tx baseFee (.error e) pool.queues pool.pendingCount
  | underbid {existing : PendingTx} (eligible : Eligible pool tx baseFee)
      (queued : get pool.queues tx.from tx.nonce = some existing)
      (low : tx.maxPriorityFeePerGas <
        requiredTip pool.config existing.tx.maxPriorityFeePerGas) :
      Outcome pool tx baseFee
        (.error (.rbfTooLow existing.tx.maxPriorityFeePerGas
          (requiredTip pool.config existing.tx.maxPriorityFeePerGas)))
        pool.queues pool.pendingCount
  | replaced {existing ptx : PendingTx} (eligible : Eligible pool tx baseFee)
      (queued : get pool.queues tx.from tx.nonce = some existing)
      (reached : requiredTip pool.config existing.tx.maxPriorityFeePerGas ≤
        tx.maxPriorityFeePerGas)
      (priced : PendingTx.new tx pool.currentHeight baseFee = some ptx) :
      Outcome pool tx baseFee (.ok ()) (place pool.queues tx ptx) pool.pendingCount
  | admitted {ptx : PendingTx} (eligible : Eligible pool tx baseFee)
      (unqueued : get pool.queues tx.from tx.nonce = none)
      (room : pool.pendingCount < pool.config.capacity)
      (priced : PendingTx.new tx pool.currentHeight baseFee = some ptx) :
      Outcome pool tx baseFee (.ok ()) (place pool.queues tx ptx) (pool.pendingCount + 1)
  | full (eligible : Eligible pool tx baseFee)
      (unqueued : get pool.queues tx.from tx.nonce = none)
      (taken : pool.config.capacity ≤ pool.pendingCount) (alone : Alone pool.queues tx.from) :
      Outcome pool tx baseFee (.error (.full pool.config.capacity)) pool.queues pool.pendingCount
  | evicted {sender : String} {nonce : UInt64} {worst ptx : PendingTx}
      (eligible : Eligible pool tx baseFee)
      (unqueued : get pool.queues tx.from tx.nonce = none)
      (taken : pool.config.capacity ≤ pool.pendingCount) (other : sender ≠ tx.from)
      (queued : get pool.queues sender nonce = some worst)
      (lowest : Lowest pool.queues tx.from worst)
      (priced : PendingTx.new tx pool.currentHeight baseFee = some ptx) :
      Outcome pool tx baseFee (.ok ()) (place (remove pool.queues sender nonce) tx ptx)
        pool.pendingCount

lemma mem_candidates {s : String} {score : ℕ} {n : UInt64} :
    (score, s, n) ∈ candidates queues sender ↔
      s ≠ sender ∧ ∃ ptx, get queues s n = some ptx ∧ ptx.score = score := by
  rw [candidates, List.mem_flatMap]
  constructor
  · rintro ⟨⟨s', queue⟩, hmem, hin⟩
    obtain ⟨hqueue, hne⟩ := List.mem_filter.mp hmem
    obtain ⟨⟨n', ptx⟩, hptx, heq⟩ := List.mem_map.mp hin
    cases heq
    refine ⟨by simpa using hne, ptx, ?_, rfl⟩
    rw [Nested.get, row_of_getElem? (ExtTreeMap.mem_toList_iff_getElem?_eq_some.mp hqueue)]
    exact ExtTreeMap.mem_toList_iff_getElem?_eq_some.mp hptx
  · rintro ⟨hne, ptx, hget, rfl⟩
    have hrow := getElem?_row (size_row_pos hget)
    refine ⟨(s, row queues s), List.mem_filter.mpr ⟨?_, by simpa using hne⟩, ?_⟩
    · exact ExtTreeMap.mem_toList_iff_getElem?_eq_some.mpr hrow
    · exact List.mem_map.mpr ⟨(n, ptx), ExtTreeMap.mem_toList_iff_getElem?_eq_some.mpr hget, rfl⟩

lemma Wf.alone_row_pos (h : Wf pool) (htaken : pool.config.capacity ≤ pool.pendingCount)
    (halone : Alone pool.queues sender) : 0 < (row pool.queues sender).size := by
  have hcapacity := h.capacity_pos
  obtain ⟨s, n, ptx, hget⟩ := exists_get_of_size_pos (m := pool.queues)
    (by have := h.count; omega)
  by_cases hs : s = sender
  · exact hs ▸ size_row_pos hget
  · rw [halone s n hs] at hget
    cases hget

def opened (pool : StandardMempool) (sender : String) : StandardMempool :=
  { pool with queues := pool.queues.insert sender (row pool.queues sender) }

lemma get_opened (pool : StandardMempool) (sender s : String) (n : UInt64) :
    get (opened pool sender).queues s n = get pool.queues s n :=
  get_insert_row sender s n

lemma alone_of_makeRoom (h : makeRoom order (opened pool sender) sender = none) :
    pool.config.capacity ≤ pool.pendingCount ∧ Alone pool.queues sender := by
  unfold makeRoom at h
  split at h
  · rename_i htaken
    have hnil := order.none_iff.mp (map_eq_none_iff.mp h)
    refine ⟨htaken, fun s n hne => ?_⟩
    by_contra hget
    obtain ⟨ptx, hptx⟩ := ne_none_iff_exists'.mp hget
    rw [← get_opened pool sender] at hptx
    have hmem := mem_candidates.mpr ⟨hne, ptx, hptx, rfl⟩
    rw [hnil] at hmem
    cases hmem
  · cases h

lemma makeRoom_eq_some {room : StandardMempool}
    (h : makeRoom order (opened pool sender) sender = some room) :
    pool.pendingCount < pool.config.capacity ∧ room = opened pool sender ∨
      pool.config.capacity ≤ pool.pendingCount ∧ ∃ s n worst, s ≠ sender ∧
        get pool.queues s n = some worst ∧ Lowest pool.queues sender worst ∧
        room = { opened pool sender with
          queues := remove (opened pool sender).queues s n
          metrics := room.metrics
          pendingCount := pool.pendingCount - 1 } := by
  unfold makeRoom at h
  split at h
  · rename_i htaken
    obtain ⟨⟨score, s, n⟩, hpick, rfl⟩ := map_eq_some_iff.mp h
    obtain ⟨hother, worst, hworst, hscore⟩ := mem_candidates.mp (order.mem hpick)
    refine .inr ⟨htaken, s, n, worst, hother, ?_, ?_, rfl⟩
    · exact (get_opened pool sender s n).symm.trans hworst
    · intro s' n' other hne hget
      rw [← get_opened pool sender] at hget
      exact hscore.trans_le (order.le hpick _ (mem_candidates.mpr ⟨hne, other, hget, rfl⟩))
  · rename_i hroom
    cases h
    exact .inl ⟨Nat.not_le.mp hroom, rfl⟩

lemma insert_opened (queues : Queues) (tx : Tx) (ptx : PendingTx) :
    (queues.insert tx.from (row queues tx.from)).insert tx.from
      ((row queues tx.from).insert tx.nonce ptx) = place queues tx ptx := by
  rw [insert_insert, place, store_insert]

lemma insertInto_outcome (h : Wf pool) (helig : Eligible pool tx baseFee)
    (hinsert : insertInto order (opened pool tx.from) (row pool.queues tx.from) tx baseFee =
      some (result, pool')) :
    Outcome pool tx baseFee result pool'.queues pool'.pendingCount ∧
      pool' = { pool with
        queues := pool'.queues, metrics := pool'.metrics, pendingCount := pool'.pendingCount } := by
  unfold insertInto at hinsert
  rw [if_neg (show ¬ (opened pool tx.from).config.maxPendingPerSender ≤ _ from
    Nat.not_le.mpr helig.below)] at hinsert
  cases hqueued : (row pool.queues tx.from)[tx.nonce]? with
  | some existing =>
    simp only [hqueued] at hinsert
    split at hinsert
    · rename_i hlow
      cases hinsert
      refine ⟨?_, rfl⟩
      simp only [opened, insert_row (size_row_pos hqueued)]
      exact .underbid helig hqueued hlow
    · rename_i hreached
      obtain ⟨ptx, hptx, heq⟩ := map_eq_some_iff.mp hinsert
      cases heq
      refine ⟨?_, rfl⟩
      simp only [opened, insert_opened]
      exact .replaced helig hqueued (UInt64.not_lt.mp hreached) hptx
  | none =>
    simp only [hqueued] at hinsert
    cases hroom : makeRoom order (opened pool tx.from) tx.from with
    | none =>
      obtain ⟨htaken, halone⟩ := alone_of_makeRoom hroom
      simp only [hroom] at hinsert
      cases hinsert
      refine ⟨?_, rfl⟩
      simp only [opened, insert_row (h.alone_row_pos htaken halone)]
      exact .full helig hqueued htaken halone
    | some room =>
      simp only [hroom] at hinsert
      obtain ⟨ptx, hptx, heq⟩ := map_eq_some_iff.mp hinsert
      cases heq
      obtain ⟨hfree, rfl⟩ | ⟨htaken, s, n, worst, hother, hworst, hlowest, heq⟩ :=
        makeRoom_eq_some hroom
      · refine ⟨?_, rfl⟩
        simp only [opened, insert_opened]
        exact .admitted helig hqueued hfree hptx
      · have hcount := Nat.lt_of_lt_of_le h.capacity_pos htaken
        rw [heq] at hptx ⊢
        refine ⟨?_, rfl⟩
        have hout := Outcome.evicted helig hqueued htaken hother hworst hlowest hptx
        rw [place, row_remove_of_ne hother.symm, store_insert] at hout
        simp only [opened, insert_remove_row, Nat.sub_add_cancel hcount]
        exact hout

/-- **Insertion.** -/
lemma insert_outcome (h : Wf pool) (hinsert : insert order pool tx baseFee = some (result, pool')) :
    Outcome pool tx baseFee result pool'.queues pool'.pendingCount ∧
      pool' = { pool with
        queues := pool'.queues, metrics := pool'.metrics, pendingCount := pool'.pendingCount } := by
  unfold insert at hinsert
  split at hinsert
  · rename_i hempty
    cases hinsert
    exact ⟨.ineligible (fun helig => by simp [helig.named] at hempty) (by simp), rfl⟩
  rename_i hnamed
  split at hinsert
  · rename_i hlow
    cases hinsert
    exact ⟨.ineligible (fun helig => absurd hlow (UInt64.not_lt.mpr helig.covered)) (by simp), rfl⟩
  rename_i hcovered
  by_cases hbelow : (row pool.queues tx.from).size < pool.config.maxPendingPerSender
  · exact insertInto_outcome h ⟨by simpa using hnamed, UInt64.not_lt.mp hcovered, hbelow⟩ hinsert
  · have hfull := Nat.not_lt.mp hbelow
    unfold insertInto at hinsert
    rw [if_pos hfull] at hinsert
    cases hinsert
    refine ⟨?_, rfl⟩
    simp only [insert_row (Nat.lt_of_lt_of_le h.limit_pos hfull)]
    exact .ineligible (fun helig => hbelow helig.below) (by simp)

structure Panics (pool : StandardMempool) (tx : Tx) (baseFee : UInt64) : Prop where
  unpriced : PendingTx.new tx pool.currentHeight baseFee = none
  reached : ∀ existing, get pool.queues tx.from tx.nonce = some existing →
    requiredTip pool.config existing.tx.maxPriorityFeePerGas ≤ tx.maxPriorityFeePerGas
  room : pool.config.capacity ≤ pool.pendingCount →
    get pool.queues tx.from tx.nonce = none → ¬ Alone pool.queues tx.from

lemma insertInto_panics
    (hbelow : ¬ pool.config.maxPendingPerSender ≤ (row pool.queues tx.from).size)
    (h : insertInto order (opened pool tx.from) (row pool.queues tx.from) tx baseFee = none) :
    Panics pool tx baseFee := by
  unfold insertInto at h
  rw [if_neg (show ¬ (opened pool tx.from).config.maxPendingPerSender ≤ _ from hbelow)] at h
  cases hqueued : (row pool.queues tx.from)[tx.nonce]? with
  | some existing =>
    simp only [hqueued] at h
    split at h
    · cases h
    · rename_i hreached
      refine ⟨map_eq_none_iff.mp h, fun e he => ?_, fun _ hnone => ?_⟩
      · cases hqueued.symm.trans he
        exact UInt64.not_lt.mp hreached
      · cases hqueued.symm.trans hnone
  | none =>
    simp only [hqueued] at h
    cases hroom : makeRoom order (opened pool tx.from) tx.from with
    | none =>
      simp only [hroom] at h
      cases h
    | some room =>
      simp only [hroom] at h
      have hnew := map_eq_none_iff.mp h
      have hnone : ∀ existing, ¬ get pool.queues tx.from tx.nonce = some existing :=
        fun existing he => by cases hqueued.symm.trans he
      obtain ⟨hfree, rfl⟩ | ⟨_, s, n, worst, hother, hworst, _, heq⟩ := makeRoom_eq_some hroom
      · exact ⟨hnew, fun e he => absurd he (hnone e),
          fun htaken => absurd htaken (Nat.not_le.mpr hfree)⟩
      · rw [heq] at hnew
        refine ⟨hnew, fun e he => absurd he (hnone e), fun _ _ halone => ?_⟩
        cases (halone s n hother).symm.trans hworst

lemma insert_panics (h : insert order pool tx baseFee = none) : Panics pool tx baseFee := by
  unfold insert at h
  split at h
  · cases h
  split at h
  · cases h
  by_cases hbelow : pool.config.maxPendingPerSender ≤ (row pool.queues tx.from).size
  · unfold insertInto at h
    rw [if_pos hbelow] at h
    cases h
  · exact insertInto_panics hbelow h

/-! ### An insertion keeps the invariant -/

lemma PendingTx.new_spec {height : Height} {ptx : PendingTx}
    (h : PendingTx.new tx height baseFee = some ptx) :
    ptx.tx = tx ∧ ptx.insertedHeight = height ∧ (intrinsicGas ptx.tx.payload).isSome := by
  obtain ⟨gas, hgas, rfl⟩ := map_eq_some_iff.mp h
  exact ⟨rfl, rfl, isSome_of_eq_some hgas⟩

lemma get_place (queues : Queues) (tx : Tx) (ptx : PendingTx) (sender : String) (nonce : UInt64) :
    get (place queues tx ptx) sender nonce =
      if sender = tx.from ∧ nonce = tx.nonce then some ptx else get queues sender nonce := by
  rw [place, get_store, MapSum.getElem?_insert_ite]
  by_cases hsender : sender = tx.from
  · by_cases hnonce : nonce = tx.nonce
    · simp [hsender, hnonce]
    · simp [hsender, hnonce, Nested.get]
  · simp [hsender]

lemma size_place (h : get queues tx.from tx.nonce = none) (ptx : PendingTx) :
    size (place queues tx ptx) = size queues + 1 := by
  have hstore := size_store (m := queues) tx.from
    ((row queues tx.from).insert tx.nonce ptx)
  rw [size_insert_row h] at hstore
  rw [place]
  omega

lemma size_place_of_queued {existing : PendingTx}
    (h : get queues tx.from tx.nonce = some existing) (ptx : PendingTx) :
    size (place queues tx ptx) = size queues := by
  have hstore := size_store (m := queues) tx.from
    ((row queues tx.from).insert tx.nonce ptx)
  rw [ExtTreeMap.size_insert, if_pos (contains_of_get h)] at hstore
  rw [place]
  omega

lemma QueuesOk.place {height : Height} {ptx : PendingTx} (h : QueuesOk config height queues)
    (hnamed : tx.from.isEmpty = false)
    (hbelow : (row queues tx.from).size < config.maxPendingPerSender)
    (hptx : PendingTx.new tx height baseFee = some ptx) :
    QueuesOk config height (place queues tx ptx) := by
  obtain ⟨htx, hheight, hgas⟩ := PendingTx.new_spec hptx
  refine h.store fun hne => ?_
  have hcases : ∀ {n : UInt64} {p : PendingTx},
      ((row queues tx.from).insert tx.nonce ptx)[n]? = some p →
        n = tx.nonce ∧ p = ptx ∨ (row queues tx.from)[n]? = some p := by
    intro n p hget
    rw [MapSum.getElem?_insert_ite] at hget
    split at hget
    · exact .inl ⟨‹_›, (Option.some.inj hget).symm⟩
    · exact .inr hget
  refine ⟨hnamed, hne, ExtTreeMap.size_insert_le.trans hbelow, fun n p hget => ?_,
    fun n p hget => ?_, fun n p hget => ?_⟩
  · obtain ⟨rfl, rfl⟩ | hget := hcases hget
    · exact ⟨by rw [htx], by rw [htx]⟩
    · exact (h.of_get hget).keyed n p hget
  · obtain ⟨rfl, rfl⟩ | hget := hcases hget
    · simp [PendingTx.isExpired, hheight, Machine.satSub]
    · exact (h.of_get hget).fresh n p hget
  · obtain ⟨rfl, rfl⟩ | hget := hcases hget
    · exact hgas
    · exact (h.of_get hget).priced n p hget

lemma insert_wf (h : Wf pool) (hinsert : insert order pool tx baseFee = some (result, pool')) :
    Wf pool' := by
  obtain ⟨hout, heq⟩ := insert_outcome h hinsert
  have hcount := h.count
  have hcapacity := h.capacity
  have hwf : ∀ {queues : Queues} {count : ℕ}, pool'.queues = queues → pool'.pendingCount = count →
      count = size queues → count ≤ pool.config.capacity →
      QueuesOk pool.config pool.currentHeight queues → Wf pool' := by
    rintro queues count rfl rfl hsize hcap hok
    rw [heq]
    exact ⟨h.valid, hsize, hcap, hok⟩
  generalize hq : pool'.queues = queues at hout
  generalize hc : pool'.pendingCount = count at hout
  cases hout with
  | ineligible => exact hwf hq hc hcount hcapacity h.queues
  | underbid => exact hwf hq hc hcount hcapacity h.queues
  | full => exact hwf hq hc hcount hcapacity h.queues
  | replaced helig hqueued _ hptx =>
    refine hwf hq hc ?_ hcapacity (h.queues.place helig.named helig.below hptx)
    rw [size_place_of_queued hqueued, hcount]
  | admitted helig hunqueued hroom hptx =>
    refine hwf hq hc ?_ hroom (h.queues.place helig.named helig.below hptx)
    rw [size_place hunqueued, hcount]
  | @evicted s n worst ptx helig hunqueued _ hother hqueued _ hptx =>
    have hrow := row_remove_of_ne hother.symm n (m := pool.queues)
    refine hwf hq hc ?_ hcapacity ((h.queues.remove s n).place helig.named (hrow ▸ helig.below) hptx)
    have hsize := size_remove hqueued
    rw [size_place (by rw [Nested.get, hrow]; exact hunqueued)]
    omega

/-! ### Whole runs -/

inductive Op where
  | insert (order : EvictionOrder) (tx : Tx) (baseFee : UInt64)
  | drain (order : HeapOrder) (n : ℕ)
  | advanceHeight (height : Height)
  | removeConfirmed (sender : String) (committedNonce : UInt64)

def step (pool : StandardMempool) : Op → Option StandardMempool
  | .insert order tx baseFee => (insert order pool tx baseFee).map Prod.snd
  | .drain order n => (drain order pool n).map Prod.snd
  | .advanceHeight height => some (pool.advanceHeight height)
  | .removeConfirmed sender nonce => some (pool.removeConfirmed sender nonce)

def Op.Sized : Op → Prop
  | .insert _ tx _ => (intrinsicGas tx.payload).isSome
  | .drain _ n => n * txSize ≤ isizeMax
  | .advanceHeight _ => True
  | .removeConfirmed _ _ => True

lemma new_wf (h : new config = some pool) : Wf pool := by
  unfold new at h
  split at h
  · rename_i hvalid
    cases h
    refine ⟨hvalid, rfl, Nat.zero_le _, fun s q hq => ?_⟩
    simp at hq
  · cases h

lemma step_wf {op : Op} (h : Wf pool) (hstep : step pool op = some pool') : Wf pool' := by
  cases op with
  | insert order tx baseFee =>
    obtain ⟨⟨result, _⟩, hinsert, rfl⟩ := map_eq_some_iff.mp hstep
    exact insert_wf h hinsert
  | drain order n =>
    obtain ⟨⟨txs, _⟩, hdrain, rfl⟩ := map_eq_some_iff.mp hstep
    exact drain_wf h hdrain
  | advanceHeight height =>
    cases hstep
    exact advanceHeight_wf h height
  | removeConfirmed sender nonce =>
    cases hstep
    exact removeConfirmed_wf h sender nonce

lemma step_isSome (pool : StandardMempool) {op : Op} (h : op.Sized) : (step pool op).isSome := by
  cases op with
  | insert order tx baseFee =>
    rw [step, isSome_map, isSome_iff_ne_none]
    intro hnone
    obtain ⟨gas, hgas⟩ := isSome_iff_exists.mp h
    have hnew := (insert_panics hnone).unpriced
    rw [PendingTx.new, hgas] at hnew
    cases hnew
  | drain order n =>
    rw [step, isSome_map, drain]
    split
    · rfl
    · rw [if_neg (Nat.not_lt.mpr h)]
      rfl
  | advanceHeight height => rfl
  | removeConfirmed sender nonce => rfl

lemma wf_of_run {ops : List Op} (h : new config = some pool)
    (hrun : Trace.run step pool ops = some pool') : Wf pool' :=
  Trace.run_invariant (fun _ _ _ hwf hstep => step_wf hwf hstep) (new_wf h) hrun

/-- The height a pool has been told of: `advance_height` does not go back. -/
def Op.told (height : Height) : Op → Height
  | .advanceHeight height' => if height' ≤ height then height else height'
  | _ => height

lemma step_told {op : Op} (h : Wf pool) (hstep : step pool op = some pool') :
    pool'.config = pool.config ∧ pool'.currentHeight = op.told pool.currentHeight := by
  cases op with
  | insert order tx baseFee =>
    obtain ⟨⟨result, _⟩, hinsert, rfl⟩ := map_eq_some_iff.mp hstep
    have heq := (insert_outcome h hinsert).2
    have hconfig := congrArg StandardMempool.config heq
    have hheight := congrArg StandardMempool.currentHeight heq
    exact ⟨hconfig, hheight⟩
  | drain order n =>
    obtain ⟨⟨txs, _⟩, hdrain, rfl⟩ := map_eq_some_iff.mp hstep
    have heq := (drain_spec h hdrain).2.2
    have hconfig := congrArg StandardMempool.config heq
    have hheight := congrArg StandardMempool.currentHeight heq
    exact ⟨hconfig, hheight⟩
  | advanceHeight height =>
    cases hstep
    unfold advanceHeight Op.told
    dsimp only
    split <;> exact ⟨rfl, rfl⟩
  | removeConfirmed sender nonce =>
    cases hstep
    unfold removeConfirmed
    split <;> exact ⟨rfl, rfl⟩

lemma run_told {ops : List Op} (h : Wf pool) (hrun : Trace.run step pool ops = some pool') :
    pool'.config = pool.config ∧ pool'.currentHeight = ops.foldl Op.told pool.currentHeight := by
  induction ops generalizing pool with
  | nil =>
    cases hrun
    exact ⟨rfl, rfl⟩
  | cons op ops ih =>
    obtain ⟨next, hnext, hrest⟩ := bind_eq_some_iff.mp hrun
    obtain ⟨hconfig, hheight⟩ := step_told h hnext
    obtain ⟨hconfig', hheight'⟩ := ih (step_wf h hnext) hrest
    exact ⟨hconfig'.trans hconfig, by rw [hheight', hheight, List.foldl_cons]⟩

/-- **Bookkeeping** along every run from a valid configuration: counts, limits and keys are right,
the height is the last one told, no entry outlives its time, and nothing panics within the size
limits. -/
theorem run_bookkeeping {config : MempoolConfig} {pool : StandardMempool}
    (h : new config = some pool) (ops : List Op) :
    (∀ pool', Trace.run step pool ops = some pool' → Wf pool' ∧
      pool'.currentHeight = ops.foldl Op.told 0 ∧
      ∀ sender nonce ptx, get pool'.queues sender nonce = some ptx →
        (ops.foldl Op.told 0).toNat ≤ ptx.insertedHeight.toNat + config.ttlBlocks.toNat) ∧
      ((∀ op ∈ ops, op.Sized) → (Trace.run step pool ops).isSome) := by
  refine ⟨fun pool' hrun => ?_, fun hsized => ?_⟩
  · have hwf := wf_of_run h hrun
    obtain ⟨hconfig, hheight⟩ := run_told (new_wf h) hrun
    obtain ⟨hinit, hzero⟩ : pool.config = config ∧ pool.currentHeight = 0 := by
      unfold new at h
      split at h <;> cases h
      exact ⟨rfl, rfl⟩
    rw [hzero] at hheight
    refine ⟨hwf, hheight, fun sender nonce ptx hget => ?_⟩
    have hfresh := (hwf.queues.of_get hget).fresh nonce ptx hget
    rw [hconfig, hinit, hheight, PendingTx.isExpired, decide_eq_false_iff_not, UInt64.not_lt,
      UInt64.le_iff_toNat_le, Machine.toNat_satSub] at hfresh
    omega
  clear h
  induction ops generalizing pool with
  | nil => rfl
  | cons op ops ih =>
    obtain ⟨next, hnext⟩ := Option.isSome_iff_exists.mp (step_isSome pool (hsized op (by simp)))
    rw [Trace.run_cons, hnext]
    exact ih fun op' hmem => hsized op' (List.mem_cons_of_mem _ hmem)

def bid (sender : String) (tip : UInt64) : Tx := ⟨[], sender, 0, 100, tip, 0, "", [], 0⟩

def narrow (maxPendingPerSender : ℕ) : MempoolConfig :=
  { capacity := 1, maxPendingPerSender := maxPendingPerSender }

def firstBid : List Op := [.insert (.argmin _) (bid "alice" 10) 0]

def held (maxPendingPerSender : ℕ) : StandardMempool :=
  (Trace.run step { config := narrow maxPendingPerSender } firstBid).getD
    { config := narrow maxPendingPerSender }

def twoBids : List Op :=
  [.insert (.argmin _) (bid "alice" 10) 0, .advanceHeight 3, .insert (.argmin _) (bid "bob" 20) 0,
    .advanceHeight 7, .advanceHeight 5]

theorem run_bookkeeping_twoBids :
    new { ttlBlocks := 5 } = some { config := { ttlBlocks := 5 } } ∧
      (Trace.run step { config := { ttlBlocks := 5 } } twoBids).map
        (fun pool => (pool.pendingCount, pool.currentHeight)) = some (1, 7) ∧
      ∀ pool', Trace.run step { config := { ttlBlocks := 5 } } twoBids = some pool' → Wf pool' :=
  ⟨rfl, by decide +kernel, fun pool' hrun =>
    ((@run_bookkeeping { ttlBlocks := 5 } _ rfl twoBids).1 pool' hrun).1⟩

def Reachable (pool : StandardMempool) : Prop :=
  ∃ config pool₀ ops, new config = some pool₀ ∧ Trace.run step pool₀ ops = some pool

lemma Reachable.wf (h : Reachable pool) : Wf pool := by
  obtain ⟨_, _, _, hnew, hrun⟩ := h
  exact wf_of_run hnew hrun

lemma reachable_held {n : ℕ} (hvalid : new (narrow n) = some { config := narrow n })
    (h : (Trace.run step { config := narrow n } firstBid).isSome) : Reachable (held n) := by
  obtain ⟨pool, hpool⟩ := isSome_iff_exists.mp h
  refine ⟨narrow n, _, firstBid, hvalid, ?_⟩
  rw [held, hpool, getD_some]

/-! ### Eviction -/

def Gone (pool pool' : StandardMempool) (sender : String) (nonce : UInt64) (ptx : PendingTx) :
    Prop :=
  get pool.queues sender nonce = some ptx ∧ get pool'.queues sender nonce = none

structure FairTrade (pool pool' : StandardMempool) (tx : Tx) (result : Except MempoolError Unit) :
    Prop where
  evicted : ∀ sender nonce worst, Gone pool pool' sender nonce worst →
    sender ≠ tx.from ∧ Lowest pool.queues tx.from worst ∧
      ∃ ptx, get pool'.queues tx.from tx.nonce = some ptx ∧ ptx.tx = tx ∧
        worst.score ≤ ptx.score
  full : (∀ sender nonce worst, ¬ Gone pool pool' sender nonce worst) →
    result = .error (.full pool.config.capacity) ∧ pool' = { pool with metrics := pool'.metrics }

def Outbids (pool : StandardMempool) (tx : Tx) (baseFee : UInt64) : Prop :=
  ∃ ptx, PendingTx.new tx pool.currentHeight baseFee = some ptx ∧
    ∃ sender nonce other, sender ≠ tx.from ∧
      get pool.queues sender nonce = some other ∧ other.score ≤ ptx.score

section Eviction

variable {pool pool' : StandardMempool} {tx : Tx} {ptx : PendingTx}

lemma get_place_isSome {queues : Queues} {sender : String} {nonce : UInt64}
    (h : (get queues sender nonce).isSome) :
    (get (place queues tx ptx) sender nonce).isSome := by
  rw [get_place]
  split
  · rfl
  · exact h

lemma not_gone_of_place (h : pool'.queues = place pool.queues tx ptx) (sender : String)
    (nonce : UInt64) (worst : PendingTx) : ¬ Gone pool pool' sender nonce worst := by
  rintro ⟨hbefore, hafter⟩
  have hsome : (get (place pool.queues tx ptx) sender nonce).isSome :=
    get_place_isSome (isSome_of_eq_some hbefore)
  rw [← h, hafter] at hsome
  cases hsome

lemma not_gone_of_eq (h : pool'.queues = pool.queues) (sender : String) (nonce : UInt64)
    (worst : PendingTx) : ¬ Gone pool pool' sender nonce worst := by
  rintro ⟨hbefore, hafter⟩
  rw [h, hbefore] at hafter
  cases hafter

lemma gone_iff_of_evicted {s : String} {n : UInt64} {worst : PendingTx}
    (h : pool'.queues = place (remove pool.queues s n) tx ptx) (hother : s ≠ tx.from)
    (hqueued : get pool.queues s n = some worst) (sender : String) (nonce : UInt64)
    (old : PendingTx) :
    Gone pool pool' sender nonce old ↔ sender = s ∧ nonce = n ∧ old = worst := by
  unfold Gone
  rw [h, get_place, get_remove]
  constructor
  · rintro ⟨hbefore, hafter⟩
    split at hafter
    · cases hafter
    · split at hafter
      · rename_i hkey
        rw [hkey.1, hkey.2, hqueued] at hbefore
        exact ⟨hkey.1, hkey.2, (Option.some.inj hbefore).symm⟩
      · rw [hbefore] at hafter
        cases hafter
  · rintro ⟨rfl, rfl, rfl⟩
    refine ⟨hqueued, ?_⟩
    rw [if_neg fun hkey => hother hkey.1, if_pos ⟨rfl, rfl⟩]

end Eviction

/-- **Eviction** is a fair trade exactly if the transaction comes to the capacity check and no other
sender is queued, or one is whose score is no higher. A refusal leaves all but the metrics and
`quantum_state` as it was; the model has neither. -/
theorem evict_fair_iff (order : EvictionOrder) {pool : StandardMempool} (tx : Tx) (baseFee : UInt64)
    (h : Reachable pool) (hfull : pool.config.capacity ≤ pool.pendingCount) :
    (∃ result pool', insert order pool tx baseFee = some (result, pool') ∧
        FairTrade pool pool' tx result) ↔
      (Eligible pool tx baseFee ∧ get pool.queues tx.from tx.nonce = none) ∧
        (Alone pool.queues tx.from ∨ Outbids pool tx baseFee) := by
  constructor
  · rintro ⟨result, pool', hinsert, hfair⟩
    obtain ⟨hout, heq⟩ := insert_outcome h.wf hinsert
    generalize hq : pool'.queues = queues at hout
    generalize hc : pool'.pendingCount = count at hout
    cases hout with
    | ineligible _ hnamed =>
      obtain ⟨herr, -⟩ := hfair.full (not_gone_of_eq hq)
      exact absurd (Except.error.inj herr) hnamed
    | underbid =>
      obtain ⟨herr, -⟩ := hfair.full (not_gone_of_eq hq)
      cases herr
    | replaced =>
      obtain ⟨herr, -⟩ := hfair.full (not_gone_of_place hq)
      cases herr
    | admitted _ _ hroom => exact absurd hfull (Nat.not_le.mpr hroom)
    | full helig hunqueued _ halone => exact ⟨⟨helig, hunqueued⟩, .inl halone⟩
    | @evicted s n worst ptx helig hunqueued _ hother hqueued _ hptx =>
      have hgone := (gone_iff_of_evicted hq hother hqueued s n worst).mpr ⟨rfl, rfl, rfl⟩
      obtain ⟨-, -, ptx', hget, -, hle⟩ := hfair.evicted s n worst hgone
      rw [hq, get_place, if_pos ⟨rfl, rfl⟩] at hget
      cases hget
      exact ⟨⟨helig, hunqueued⟩, .inr ⟨ptx, hptx, s, n, worst, hother, hqueued, hle⟩⟩
  · rintro ⟨⟨helig, hunqueued⟩, hcond⟩
    have hsome : insert order pool tx baseFee ≠ none := by
      intro hnone
      have hpanics := insert_panics hnone
      rcases hcond with halone | ⟨ptx, hptx, -⟩
      · exact hpanics.room hfull hunqueued halone
      · cases hpanics.unpriced.symm.trans hptx
    obtain ⟨⟨result, pool'⟩, hinsert⟩ := Option.ne_none_iff_exists'.mp hsome
    refine ⟨result, pool', hinsert, ?_⟩
    obtain ⟨hout, heq⟩ := insert_outcome h.wf hinsert
    generalize hq : pool'.queues = queues at hout
    generalize hc : pool'.pendingCount = count at hout
    cases hout with
    | ineligible hrefused => exact absurd helig hrefused
    | underbid _ hqueued => cases hunqueued.symm.trans hqueued
    | replaced _ hqueued => cases hunqueued.symm.trans hqueued
    | admitted _ _ hroom => exact absurd hfull (Nat.not_le.mpr hroom)
    | full =>
      refine ⟨fun s n worst hgone => absurd hgone (not_gone_of_eq hq s n worst), fun _ => ⟨rfl, ?_⟩⟩
      rw [heq, hq, hc]
    | @evicted s n worst ptx _ _ _ hother hqueued hlowest hptx =>
      have hgone := gone_iff_of_evicted hq hother hqueued
      refine ⟨fun s' n' old hold => ?_, fun hnone => ?_⟩
      · obtain ⟨rfl, rfl, rfl⟩ := (hgone s' n' old).mp hold
        refine ⟨hother, hlowest, ptx, ?_, (PendingTx.new_spec hptx).1, ?_⟩
        · rw [hq, get_place, if_pos ⟨rfl, rfl⟩]
        · rcases hcond with halone | ⟨ptx', hptx', s', n', other, hne, hget, hle⟩
          · cases (halone s' n' hother).symm.trans hqueued
          · cases hptx.symm.trans hptx'
            exact (hlowest s' n' other hne hget).trans hle
      · exact absurd ((hgone s n worst).mpr ⟨rfl, rfl, rfl⟩) (hnone s n worst)

/-- Bob offers a tip of nothing and takes the place of alice's transaction. -/
theorem worthless_evicts : ((insert (.argmin _) (held 1) (bid "bob" 0) 0).map fun out =>
    (out.1, get out.2.queues "alice" 0, get out.2.queues "bob" 0)) =
      some (.ok (), none, some ⟨bid "bob" 0, 0, 0⟩) ∧
    get (held 1).queues "alice" 0 = some ⟨bid "alice" 10, 1640625000, 0⟩ := by
  decide +kernel

theorem evict_fair_outbid : ∃ result pool', insert (.argmin _) (held 1) (bid "bob" 20) 0 =
    some (result, pool') ∧ FairTrade (held 1) pool' (bid "bob" 20) result :=
  (evict_fair_iff (.argmin _) (bid "bob" 20) 0 (reachable_held rfl (by decide +kernel))
    (by decide +kernel)).mpr ⟨⟨⟨by decide, by decide, by decide +kernel⟩, by decide +kernel⟩,
      .inr ⟨⟨bid "bob" 20, 3281250000, 0⟩, by decide +kernel, "alice", 0,
        ⟨bid "alice" 10, 1640625000, 0⟩, by decide, by decide +kernel, by decide⟩⟩

/-! ### Replacement -/

structure ReplacesByFee (pool pool' : StandardMempool) (tx : Tx) (baseFee : UInt64)
    (existing : PendingTx) (result : Except MempoolError Unit) : Prop where
  replaced : requiredTip pool.config existing.tx.maxPriorityFeePerGas ≤ tx.maxPriorityFeePerGas →
    result = .ok () ∧ ∃ ptx old, get pool'.queues tx.from tx.nonce = some ptx ∧
      ptx.tx = tx ∧ PendingTx.new existing.tx pool.currentHeight baseFee = some old ∧
      old.score ≤ ptx.score
  kept : tx.maxPriorityFeePerGas < requiredTip pool.config existing.tx.maxPriorityFeePerGas →
    result ≠ .ok () ∧ get pool'.queues tx.from tx.nonce = some existing
  others : ∀ sender nonce, ¬ (sender = tx.from ∧ nonce = tx.nonce) →
    get pool'.queues sender nonce = get pool.queues sender nonce
  count : pool'.pendingCount = pool.pendingCount

/-- **Replacement** follows the fee exactly if a transaction that pays the bump finds room in its
sender's queue and scores no less than the one it replaces. -/
theorem replace_by_fee_iff (order : EvictionOrder) {pool : StandardMempool} {tx : Tx}
    {existing : PendingTx} {baseFee : UInt64} (h : Reachable pool)
    (hqueued : get pool.queues tx.from tx.nonce = some existing)
    (hcovered : baseFee ≤ tx.maxFeePerGas) :
    (∃ result pool', insert order pool tx baseFee = some (result, pool') ∧
        ReplacesByFee pool pool' tx baseFee existing result) ↔
      (requiredTip pool.config existing.tx.maxPriorityFeePerGas ≤ tx.maxPriorityFeePerGas →
        (row pool.queues tx.from).size < pool.config.maxPendingPerSender ∧
          ∃ ptx old, PendingTx.new tx pool.currentHeight baseFee = some ptx ∧
            PendingTx.new existing.tx pool.currentHeight baseFee = some old ∧
            old.score ≤ ptx.score) := by
  constructor
  · rintro ⟨result, pool', hinsert, hrule⟩ hreached
    obtain ⟨hok, ptx, old, hget, -, hold, hle⟩ := hrule.replaced hreached
    obtain ⟨hout, -⟩ := insert_outcome h.wf hinsert
    generalize hq : pool'.queues = queues at hout
    generalize hc : pool'.pendingCount = count at hout
    cases hout with
    | ineligible => cases hok
    | underbid => cases hok
    | full => cases hok
    | admitted _ hunqueued => cases hqueued.symm.trans hunqueued
    | evicted _ hunqueued => cases hqueued.symm.trans hunqueued
    | @replaced _ ptx' helig _ _ hptx =>
      rw [hq, get_place, if_pos ⟨rfl, rfl⟩] at hget
      cases hget
      exact ⟨helig.below, ptx, old, hptx, hold, hle⟩
  · intro hcond
    have hsome : insert order pool tx baseFee ≠ none := by
      intro hnone
      have hpanics := insert_panics hnone
      obtain ⟨-, ptx, -, hptx, -⟩ := hcond (hpanics.reached existing hqueued)
      cases hpanics.unpriced.symm.trans hptx
    obtain ⟨⟨result, pool'⟩, hinsert⟩ := Option.ne_none_iff_exists'.mp hsome
    refine ⟨result, pool', hinsert, ?_⟩
    obtain ⟨hout, -⟩ := insert_outcome h.wf hinsert
    generalize hq : pool'.queues = queues at hout
    generalize hc : pool'.pendingCount = count at hout
    cases hout with
    | ineligible hrefused =>
      refine ⟨fun hreached => ?_, fun _ => ⟨by simp, by rw [hq, hqueued]⟩,
        fun _ _ _ => by rw [hq], hc⟩
      have hnamed := (h.wf.queues.of_get hqueued).named
      exact absurd ⟨hnamed, hcovered, (hcond hreached).1⟩ hrefused
    | underbid _ hqueued' hlow =>
      cases hqueued.symm.trans hqueued'
      exact ⟨fun hreached => absurd hlow (UInt64.not_lt.mpr hreached),
        fun _ => ⟨by simp, by rw [hq, hqueued]⟩, fun _ _ _ => by rw [hq], hc⟩
    | full _ hunqueued => cases hqueued.symm.trans hunqueued
    | admitted _ hunqueued => cases hqueued.symm.trans hunqueued
    | evicted _ hunqueued => cases hqueued.symm.trans hunqueued
    | @replaced _ ptx' helig hqueued' hreached hptx' =>
      cases hqueued.symm.trans hqueued'
      obtain ⟨-, ptx, old, hptx, hold, hle⟩ := hcond hreached
      cases hptx'.symm.trans hptx
      refine ⟨fun _ => ⟨rfl, ptx', old, ?_, (PendingTx.new_spec hptx).1, hold, hle⟩,
        fun hlow => absurd hlow (UInt64.not_lt.mpr hreached), fun s n hne => ?_, hc⟩
      · rw [hq, get_place, if_pos ⟨rfl, rfl⟩]
      · rw [hq, get_place, if_neg hne]

theorem replace_by_fee_doubled : ∃ result pool', insert (.argmin _) (held 2) (bid "alice" 20) 0 =
    some (result, pool') ∧
      ReplacesByFee (held 2) pool' (bid "alice" 20) 0 ⟨bid "alice" 10, 1640625000, 0⟩ result :=
  (replace_by_fee_iff (.argmin _) (reachable_held rfl (by decide +kernel)) (by decide +kernel)
    (by decide)).mpr fun _ => ⟨by decide +kernel, ⟨bid "alice" 20, 3281250000, 0⟩,
      ⟨bid "alice" 10, 1640625000, 0⟩, by decide +kernel, by decide +kernel, by decide⟩

/-- Alice doubles the tip of a transaction that fills her queue, and is told that it is full; and
one that raises the tip and lowers the fee cap replaces another of a higher score. -/
theorem replacement_refused_or_worse :
    (insert (.argmin _) (held 1) (bid "alice" 20) 0).map Prod.fst =
      some (.error (.senderQueueFull 1)) ∧
    requiredTip (narrow 1) (bid "alice" 10).maxPriorityFeePerGas ≤
      (bid "alice" 20).maxPriorityFeePerGas ∧
    (insert (.argmin _) (held 2) { bid "alice" 20 with maxFeePerGas := 1 } 0).map (fun out =>
      (out.1, (get out.2.queues "alice" 0).map PendingTx.score)) =
        some (.ok (), some 164062500) := by
  decide +kernel

/-! ### Draining -/

structure DrainsInOrder (pool pool' : StandardMempool) (n : ℕ) (txs : List Tx) : Prop where
  length : txs.length = min n pool.pendingCount
  distinct : txs.Nodup
  queued : ∀ t ∈ txs, ∃ ptx, get pool.queues t.from t.nonce = some ptx ∧ ptx.tx = t
  ascending : Ascending txs
  best : Drained pool.queues txs pool'.queues
  rest : ∀ sender nonce, get pool'.queues sender nonce =
    if ∃ t ∈ txs, t.from = sender ∧ t.nonce = nonce then none
    else get pool.queues sender nonce

/-- **Drain order**: a drain gives the best heads in turn, each sender's nonces ascending, exactly
if the vector it asks for can be allocated. -/
theorem drain_in_order_iff (order : HeapOrder) {pool : StandardMempool} (n : ℕ) (h : Reachable pool) :
    (∃ txs pool', drain order pool n = some (txs, pool') ∧ DrainsInOrder pool pool' n txs) ↔
      pool.pendingCount = 0 ∨ n * txSize ≤ isizeMax := by
  constructor
  · rintro ⟨txs, pool', hdrain, -⟩
    unfold drain at hdrain
    split at hdrain
    · rename_i hnone
      exact hnone.imp_right fun hzero => by simp [hzero]
    split at hdrain
    · cases hdrain
    · rename_i hfits
      exact .inr (Nat.not_lt.mp hfits)
  · intro hcond
    have hsome : drain order pool n ≠ none := by
      intro hnone
      unfold drain at hnone
      split at hnone
      · cases hnone
      split at hnone
      · rename_i hmany hlarge
        exact hmany (.inl (hcond.resolve_right (Nat.not_le.mpr hlarge)))
      · cases hnone
    obtain ⟨⟨txs, pool'⟩, hdrain⟩ := Option.ne_none_iff_exists'.mp hsome
    obtain ⟨hdrained, hlength, -⟩ := drain_spec h.wf hdrain
    have hkeyed := h.wf.queues.keyed
    have hascending := hdrained.ascending hkeyed
    exact ⟨txs, pool', hdrain, hlength, hascending.nodup, hdrained.queued hkeyed, hascending,
      hdrained, hdrained.get_eq hkeyed⟩

/-- Two transactions of alice, the second with the higher tip, and one of bob. -/
def threeBids : List Op :=
  [.insert (.argmin _) (bid "alice" 10) 0,
    .insert (.argmin _) { bid "alice" 30 with nonce := 1 } 0, .insert (.argmin _) (bid "bob" 20) 0]

theorem drain_in_order_threeBids : ∃ pool txs pool',
    Trace.run step { config := {} } threeBids = some pool ∧
      drain (.argmin _) pool 2 = some (txs, pool') ∧ txs.length = 2 ∧
      DrainsInOrder pool pool' 2 txs := by
  obtain ⟨pool, hpool⟩ := isSome_iff_exists.mp
    (show (Trace.run step { config := {} } threeBids).isSome = true by decide +kernel)
  have hcount : (Trace.run step { config := {} } threeBids).map pendingCount = some 3 := by
    decide +kernel
  rw [hpool] at hcount
  obtain ⟨txs, pool', hdrain, horder⟩ :=
    (drain_in_order_iff (.argmin _) 2 ⟨{}, _, threeBids, rfl, hpool⟩).mpr (.inr (by decide))
  refine ⟨pool, txs, pool', hpool, hdrain, ?_, horder⟩
  rw [horder.length, Option.some.inj hcount]
  rfl

/-- Asking for everything there may be panics with one transaction in the pool. -/
theorem drain_all_panics : (drain (.argmin _) (held 1) (2 ^ 64 - 1)).isNone ∧
    (held 1).pendingCount = 1 := by
  decide +kernel

end Iona.Mempool.StandardMempool
