import Iona.Mempool
import Iona.Execution.State
import Iona.Lib.Nested
import Iona.Lib.Trace

/-!
# The standard mempool

`StandardMempool` of `mempool/pool.rs`.
-/

namespace Iona.Mempool

open Std Nested

structure MempoolConfig where
  capacity : ℕ := 200000
  ttlBlocks : UInt64 := 300
  maxPendingPerSender : ℕ := 64
  rbfBumpPercent : UInt64 := 10
  deriving DecidableEq

inductive MempoolError where
  | full (capacity : ℕ)
  | senderQueueFull (max : ℕ)
  | rbfTooLow (existingTip required : UInt64)
  | feeTooLow (maxFee baseFee : UInt64)
  | missingSender
  | config (msg : String)
  deriving DecidableEq

def MempoolConfig.validate (config : MempoolConfig) : Except MempoolError Unit :=
  if config.capacity = 0 then .error (.config "capacity must be > 0")
  else if config.ttlBlocks = 0 then .error (.config "ttl_blocks must be > 0")
  else if config.maxPendingPerSender = 0 then
    .error (.config "max_pending_per_sender must be > 0")
  else if config.rbfBumpPercent = 0 then .error (.config "rbf_bump_percent must be > 0")
  else .ok ()

/-! ### Entries -/

structure PendingTx where
  tx : Tx
  score : ℕ
  insertedHeight : UInt64
  deriving DecidableEq

def maxU128 : ℕ := 2 ^ 128 - 1

def effectiveTip (tx : Tx) (baseFee : UInt64) : ℕ :=
  if baseFee < tx.maxFeePerGas then
    min tx.maxPriorityFeePerGas.toNat (tx.maxFeePerGas.toNat - baseFee.toNat)
  else 0

def scoreOf (tx : Tx) (gas baseFee : UInt64) : ℕ :=
  let tipGas := min (effectiveTip tx baseFee * gas.toNat) maxU128
  let size := max ((Bytes.utf8 tx.payload).length + 128) 1
  min (tipGas * 1000000) maxU128 / size

/-- `PendingTx::new`; computing the gas panics for a payload of more than `u64::MAX / 10` bytes. -/
def PendingTx.new (tx : Tx) (currentHeight : Height) (baseFee : UInt64) : Option PendingTx :=
  (intrinsicGas tx.payload).map fun gas => ⟨tx, scoreOf tx gas baseFee, currentHeight⟩

def PendingTx.isExpired (ptx : PendingTx) (currentHeight : Height) (ttl : UInt64) : Bool :=
  ttl < Machine.satSub currentHeight ptx.insertedHeight

structure HeapEntry where
  score : ℕ
  nonce : UInt64
  sender : String
  deriving DecidableEq

def HeapEntry.rank (e : HeapEntry) : ℕᵒᵈ ×ₗ ℕ := toLex (OrderDual.toDual e.score, e.nonce.toNat)

structure MempoolMetrics where
  admitted : ℕ := 0
  rejectedDup : ℕ := 0
  rejectedFull : ℕ := 0
  rejectedSenderLimit : ℕ := 0
  evicted : ℕ := 0
  expired : ℕ := 0
  rbfReplaced : ℕ := 0
  deriving DecidableEq

abbrev TxQueue := BTreeMap UInt64 PendingTx

abbrev Queues := BTreeMap String TxQueue

structure StandardMempool where
  config : MempoolConfig
  queues : Queues := ∅
  metrics : MempoolMetrics := {}
  currentHeight : Height := 0
  pendingCount : ℕ := 0

namespace StandardMempool

/-- `StandardMempool::new` panics on an invalid configuration. -/
def new (config : MempoolConfig) : Option StandardMempool :=
  if config.validate = .ok () then some { config := config } else none

/-! ### Expiry and confirmation -/

def advanceHeight (pool : StandardMempool) (height : Height) : StandardMempool :=
  if height ≤ pool.currentHeight then pool
  else
    let queues := filterRows pool.queues fun _ ptx =>
      !ptx.isExpired height pool.config.ttlBlocks
    { pool with
      currentHeight := height
      queues := queues
      -- one for every sender, whether or not something expired
      metrics := { pool.metrics with expired := pool.metrics.expired + pool.queues.size }
      pendingCount := Nested.size queues }

def removeConfirmed (pool : StandardMempool) (sender : String) (committedNonce : UInt64) :
    StandardMempool :=
  match pool.queues[sender]? with
  | none => pool
  | some queue =>
    let queues := store pool.queues sender (queue.filter fun nonce _ => committedNonce ≤ nonce)
    { pool with queues := queues, pendingCount := Nested.size queues }

/-! ### Insertion -/

def requiredTip (config : MempoolConfig) (existingTip : UInt64) : UInt64 :=
  Machine.satAdd existingTip (max (Machine.satMul existingTip config.rbfBumpPercent / 100) 1)

def candidates (queues : Queues) (protectSender : String) : List (ℕ × String × UInt64) :=
  (queues.toList.filter fun e => e.1 ≠ protectSender).flatMap fun e =>
    e.2.toList.map fun f => (f.2.score, e.1, f.1)

abbrev EvictionOrder := Nested.Pick fun c : ℕ × String × UInt64 => c.1

def evictWorst (order : EvictionOrder) (pool : StandardMempool) (protectSender : String) :
    Option StandardMempool :=
  (order.pick (candidates pool.queues protectSender)).map fun worst =>
    { pool with
      queues := remove pool.queues worst.2.1 worst.2.2
      metrics := { pool.metrics with evicted := pool.metrics.evicted + 1 }
      pendingCount := pool.pendingCount - 1 }

def makeRoom (order : EvictionOrder) (pool : StandardMempool) (protectSender : String) :
    Option StandardMempool :=
  if pool.config.capacity ≤ pool.pendingCount then evictWorst order pool protectSender else some pool

def insertInto (order : EvictionOrder) (pool : StandardMempool) (queue : TxQueue) (tx : Tx)
    (baseFee : UInt64) : Option (Except MempoolError Unit × StandardMempool) :=
  if pool.config.maxPendingPerSender ≤ queue.size then
    some (.error (.senderQueueFull pool.config.maxPendingPerSender),
      { pool with metrics :=
        { pool.metrics with rejectedSenderLimit := pool.metrics.rejectedSenderLimit + 1 } })
  else match queue[tx.nonce]? with
    | some existing =>
      let existingTip := existing.tx.maxPriorityFeePerGas
      let required := requiredTip pool.config existingTip
      if tx.maxPriorityFeePerGas < required then
        some (.error (.rbfTooLow existingTip required),
          { pool with metrics := { pool.metrics with rejectedDup := pool.metrics.rejectedDup + 1 } })
      else
        (PendingTx.new tx pool.currentHeight baseFee).map fun ptx => (.ok (),
          { pool with
            queues := pool.queues.insert tx.from (queue.insert tx.nonce ptx)
            metrics := { pool.metrics with rbfReplaced := pool.metrics.rbfReplaced + 1 } })
    | none => match makeRoom order pool tx.from with
      | none => some (.error (.full pool.config.capacity),
          { pool with metrics := { pool.metrics with rejectedFull := pool.metrics.rejectedFull + 1 } })
      | some pool =>
        (PendingTx.new tx pool.currentHeight baseFee).map fun ptx => (.ok (),
          { pool with
            queues := pool.queues.insert tx.from (queue.insert tx.nonce ptx)
            metrics := { pool.metrics with admitted := pool.metrics.admitted + 1 }
            pendingCount := pool.pendingCount + 1 })

def insert (order : EvictionOrder) (pool : StandardMempool) (tx : Tx) (baseFee : UInt64) :
    Option (Except MempoolError Unit × StandardMempool) :=
  if tx.from.isEmpty then some (.error .missingSender, pool)
  else if tx.maxFeePerGas < baseFee then
    some (.error (.feeTooLow tx.maxFeePerGas baseFee),
      { pool with metrics := { pool.metrics with rejectedDup := pool.metrics.rejectedDup + 1 } })
  else
    -- `entry(..).or_default()` leaves a queue behind, whatever becomes of the transaction
    let queue := row pool.queues tx.from
    insertInto order { pool with queues := pool.queues.insert tx.from queue } queue tx baseFee

/-! ### Draining -/

abbrev HeapOrder := Nested.Pick HeapEntry.rank

def heapEntry (sender : String) (head : UInt64 × PendingTx) : HeapEntry :=
  ⟨head.2.score, head.2.tx.nonce, sender⟩

def heads (queues : Queues) : List HeapEntry :=
  queues.toList.filterMap fun e => (Nested.head e.2).map (heapEntry e.1)

def drainLoop (order : HeapOrder) : ℕ → ℕ → List HeapEntry → Queues → List Tx × Queues
  | 0, _, _, queues => ([], queues)
  | _, 0, _, queues => ([], queues)
  | fuel + 1, n + 1, heap, queues => match order.pick heap with
    | none => ([], queues)
    | some e => match get queues e.sender e.nonce with
      -- an entry whose transaction is gone is skipped
      | none => drainLoop order fuel (n + 1) (heap.erase e) queues
      | some ptx =>
        let queue := (row queues e.sender).erase e.nonce
        let next := ((Nested.head queue).map (heapEntry e.sender)).toList
        let rest := drainLoop order fuel n (next ++ heap.erase e)
          (store queues e.sender queue)
        (ptx.tx :: rest.1, rest.2)

/-- `drain` panics when the vector for the answer is too large to ask for. -/
def drain (order : HeapOrder) (pool : StandardMempool) (n : ℕ) :
    Option (List Tx × StandardMempool) :=
  if pool.pendingCount = 0 ∨ n = 0 then some ([], pool)
  else if isizeMax < n * txSize then none
  else
    let heap := heads pool.queues
    let out := drainLoop order (heap.length + Nested.size pool.queues) n heap pool.queues
    some (out.1,
      { pool with queues := out.2, pendingCount := pool.pendingCount - out.1.length })

/-! ### Draining by the rules -/

inductive Drained : Queues → List Tx → Queues → Prop
  | nil (queues : Queues) : Drained queues [] queues
  | cons {queues queues' : Queues} {sender : String} {nonce : UInt64} {ptx : PendingTx}
      {txs : List Tx} (first : Nested.head (row queues sender) = some (nonce, ptx))
      (best : ∀ sender' head, Nested.head (row queues sender') = some head →
        head.2.score ≤ ptx.score)
      (rest : Drained (remove queues sender nonce) txs queues') :
      Drained queues (ptx.tx :: txs) queues'

def Keyed (queues : Queues) : Prop :=
  ∀ sender nonce ptx, get queues sender nonce = some ptx →
    ptx.tx.from = sender ∧ ptx.tx.nonce = nonce

variable {queues : Queues} {heap : List HeapEntry}

lemma Keyed.remove (h : Keyed queues) (sender : String) (nonce : UInt64) :
    Keyed (remove queues sender nonce) := by
  intro s n ptx hget
  rw [get_remove] at hget
  split at hget
  · cases hget
  · exact h s n ptx hget

namespace Drained

variable {queues queues' : Queues} {txs : List Tx}

lemma size_eq (h : Drained queues txs queues') :
    Nested.size queues' + txs.length = Nested.size queues := by
  induction h with
  | nil => rfl
  | cons first _ _ ih =>
    rw [List.length_cons, ← Nat.add_assoc, ih]
    exact size_remove (head_spec first).1

lemma queued (h : Drained queues txs queues') (hkeyed : Keyed queues) :
    ∀ t ∈ txs, ∃ ptx, get queues t.from t.nonce = some ptx ∧ ptx.tx = t := by
  induction h with
  | nil => simp
  | @cons queues _ sender nonce ptx txs first _ _ ih =>
    have hget : get queues sender nonce = some ptx := (head_spec first).1
    obtain ⟨hfrom, hnonce⟩ := hkeyed sender nonce ptx hget
    rw [List.forall_mem_cons]
    refine ⟨⟨ptx, by rw [hfrom, hnonce, hget], rfl⟩, fun t ht => ?_⟩
    obtain ⟨p, hp, rfl⟩ := ih (hkeyed.remove sender nonce) t ht
    rw [get_remove] at hp
    split at hp
    · cases hp
    · exact ⟨p, hp, rfl⟩

lemma ascending (h : Drained queues txs queues') (hkeyed : Keyed queues) : Ascending txs := by
  induction h with
  | nil => exact .nil
  | @cons queues _ sender nonce ptx txs first _ rest ih =>
    obtain ⟨hget, hlater⟩ := head_spec first
    obtain ⟨hfrom, hnonce⟩ := hkeyed sender nonce ptx hget
    refine List.pairwise_cons.mpr ⟨fun t ht hsame => ?_, ih (hkeyed.remove sender nonce)⟩
    obtain ⟨p, hp, -⟩ := rest.queued (hkeyed.remove sender nonce) t ht
    rw [← hsame, hfrom, remove, get_store, if_pos rfl] at hp
    rw [hnonce]
    exact compareOfLessAndEq_eq_lt.mp (hlater t.nonce p hp)

lemma get_eq (h : Drained queues txs queues') (hkeyed : Keyed queues) (sender : String)
    (nonce : UInt64) : get queues' sender nonce =
      if ∃ t ∈ txs, t.from = sender ∧ t.nonce = nonce then none
      else get queues sender nonce := by
  induction h with
  | nil => simp
  | @cons queues _ s n ptx txs first _ rest ih =>
    obtain ⟨hfrom, hnonce⟩ := hkeyed s n ptx (head_spec first).1
    rw [ih (hkeyed.remove s n), get_remove]
    simp only [List.mem_cons, exists_eq_or_imp, hfrom, hnonce]
    by_cases hthis : sender = s ∧ nonce = n
    · simp [hthis.1, hthis.2]
    · have hne : ¬ (s = sender ∧ n = nonce) := fun heq => hthis ⟨heq.1.symm, heq.2.symm⟩
      simp [hthis, hne]

end Drained

/-! ### The heap -/

structure HeapOk (heap : List HeapEntry) (queues : Queues) : Prop where
  distinct : heap.Pairwise fun d e => d.sender ≠ e.sender
  mem_iff : ∀ e, e ∈ heap ↔
    ∃ head, Nested.head (row queues e.sender) = some head ∧ e = heapEntry e.sender head

lemma heapOk_heads (queues : Queues) : HeapOk (heads queues) queues := by
  constructor
  · refine List.pairwise_filterMap.mpr (queues.distinct_keys_toList.imp fun hne d hd e he => ?_)
    obtain ⟨h, -, rfl⟩ := Option.map_eq_some_iff.mp hd
    obtain ⟨h', -, rfl⟩ := Option.map_eq_some_iff.mp he
    exact fun heq => hne (LawfulEqCmp.compare_eq_iff_eq.mpr heq)
  · intro e
    rw [heads, List.mem_filterMap]
    constructor
    · rintro ⟨⟨s, q⟩, hmem, hhead⟩
      obtain ⟨h, hh, rfl⟩ := Option.map_eq_some_iff.mp hhead
      have hrow := row_of_getElem? (ExtTreeMap.mem_toList_iff_getElem?_eq_some.mp hmem)
      exact ⟨h, by rw [← hh, ← hrow]; rfl, rfl⟩
    · rintro ⟨h, hh, he⟩
      have hpos := size_row_pos (m := queues) (k := e.sender) (head_spec hh).1
      refine ⟨(e.sender, row queues e.sender),
        ExtTreeMap.mem_toList_iff_getElem?_eq_some.mpr (getElem?_row hpos), ?_⟩
      rw [hh, Option.map_some, ← he]

lemma HeapOk.pop (h : HeapOk heap queues) {e : HeapEntry} (he : e ∈ heap) :
    HeapOk (((Nested.head ((row queues e.sender).erase e.nonce)).map
        (heapEntry e.sender)).toList ++ heap.erase e)
      (remove queues e.sender e.nonce) := by
  have hnodup : heap.Nodup := h.distinct.imp fun hne heq => hne (congrArg _ heq)
  have hother : ∀ x ∈ heap.erase e, x ∈ heap ∧ x.sender ≠ e.sender := by
    intro x hx
    obtain ⟨hne, hmem⟩ := (hnodup.mem_erase_iff).mp hx
    refine ⟨hmem, fun hsame => hne ?_⟩
    obtain ⟨a, ha, hxa⟩ := (h.mem_iff x).mp hmem
    obtain ⟨b, hb, heb⟩ := (h.mem_iff e).mp he
    rw [hsame, hb] at ha
    rw [hxa, heb, hsame, Option.some.inj ha]
  have hpushed : ∀ x ∈ ((Nested.head ((row queues e.sender).erase e.nonce)).map
      (heapEntry e.sender)).toList, x.sender = e.sender := by
    intro x hx
    obtain ⟨a, -, rfl⟩ := Option.map_eq_some_iff.mp (Option.mem_toList.mp hx)
    rfl
  constructor
  · refine List.pairwise_append.mpr ⟨?_, h.distinct.sublist List.erase_sublist, ?_⟩
    · cases Nested.head ((row queues e.sender).erase e.nonce) with
      | none => exact .nil
      | some a => exact List.pairwise_singleton _ _
    · intro x hx y hy
      rw [hpushed x hx]
      exact (hother y hy).2.symm
  · intro x
    rw [remove, row_store, List.mem_append]
    by_cases hsame : x.sender = e.sender
    · rw [if_pos hsame, or_iff_left fun hx => (hother x hx).2 hsame, Option.mem_toList,
        Option.map_eq_some_iff, hsame]
      simp only [eq_comm]
    · rw [if_neg hsame, or_iff_right fun hx => hsame (hpushed x hx), ← h.mem_iff,
        hnodup.mem_erase_iff]
      exact and_iff_right fun heq => hsame (congrArg _ heq)

lemma drainLoop_spec (order : HeapOrder) (fuel n : ℕ) (hkeyed : Keyed queues)
    (hheap : HeapOk heap queues) (hfuel : Nested.size queues ≤ fuel) :
    Drained queues (drainLoop order fuel n heap queues).1 (drainLoop order fuel n heap queues).2 ∧
      (drainLoop order fuel n heap queues).1.length = min n (Nested.size queues) := by
  induction fuel generalizing n heap queues with
  | zero => exact ⟨.nil queues, by simp [drainLoop]; omega⟩
  | succ fuel ih =>
    cases n with
    | zero => exact ⟨.nil queues, by simp [drainLoop]⟩
    | succ n =>
      rw [drainLoop]
      cases hpick : order.pick heap with
      | none =>
        refine ⟨.nil queues, ?_⟩
        have hempty : Nested.size queues = 0 := by
          by_contra hpos
          obtain ⟨s, a, ptx, hget⟩ := exists_get_of_size_pos (Nat.pos_of_ne_zero hpos)
          cases hhead : Nested.head (row queues s) with
          | none =>
            have := size_row_pos hget
            rw [head_eq_none_iff, ExtTreeMap.isEmpty_eq_size_beq_zero] at hhead
            simp only [beq_iff_eq] at hhead
            omega
          | some head =>
            have hmem := (hheap.mem_iff (heapEntry s head)).mpr ⟨head, hhead, rfl⟩
            rw [order.none_iff.mp hpick] at hmem
            cases hmem
        rw [hempty]
        rfl
      | some e =>
        have hmem := order.mem hpick
        obtain ⟨⟨nonce, ptx⟩, hfirst, he⟩ := (hheap.mem_iff e).mp hmem
        obtain ⟨hget, -⟩ := head_spec hfirst
        have hnonce : e.nonce = nonce := by
          rw [he]
          exact (hkeyed e.sender nonce ptx hget).2
        have hscore : e.score = ptx.score := by rw [he]; rfl
        have hget' : get queues e.sender e.nonce = some ptx := by rw [hnonce]; exact hget
        simp only [hget']
        have hsize := size_remove hget'
        obtain ⟨hrest, hlen⟩ := ih n (hkeyed.remove e.sender e.nonce) (hheap.pop hmem) (by omega)
        refine ⟨.cons (hnonce ▸ hfirst) (fun s head hhead => ?_) hrest, ?_⟩
        · have hle := order.le hpick _ ((hheap.mem_iff (heapEntry s head)).mpr ⟨head, hhead, rfl⟩)
          rw [← hscore]
          rcases Prod.Lex.le_iff.mp hle with hlt | ⟨heq, -⟩
          · exact (OrderDual.toDual_lt_toDual.mp hlt).le
          · exact (OrderDual.toDual_inj.mp heq).ge
        · rw [List.length_cons]
          change (drainLoop order fuel n _ (remove queues e.sender e.nonce)).1.length + 1 = _
          rw [hlen]
          omega

end StandardMempool

end Iona.Mempool
