import Iona.Mempool
import Iona.Hashing.Preimage

/-! # The order a fair drain returns -/

namespace Iona.Mempool

open List

variable {α β : Type}

/-! ### Windows -/

def windows (jitterMs start : UInt64) (bucket : List (UInt64 × α)) :
    List (UInt64 × α) → List (UInt64 × List (UInt64 × α))
  | [] => [(start, bucket)]
  | c :: cs =>
    if c.1 < Machine.satAdd start jitterMs then windows jitterMs start (bucket ++ [c]) cs
    else (start, bucket) :: windows jitterMs c.1 [c] cs

def sorted (l : List (UInt64 × α)) : List (UInt64 × α) := l.insertionSort fun a b => a.1 ≤ b.1

def cutSorted (jitterMs : UInt64) : List (UInt64 × α) → List (UInt64 × List (UInt64 × α))
  | [] => []
  | c :: cs => windows jitterMs c.1 [c] cs

def cut (jitterMs : UInt64) (l : List (UInt64 × α)) : List (UInt64 × List (UInt64 × α)) :=
  cutSorted jitterMs (sorted l)

variable {pool : MevMempool} {C : Crypto} {jitterMs : UInt64} {draws : ℕ → ℕ}

lemma shuffleBuckets_eq (C : Crypto) (jitterMs : UInt64) (seed : Hash32) (start : UInt64)
    (bucket cs : List (UInt64 × TxCommit)) :
    shuffleBuckets C jitterMs seed start bucket cs =
      (windows jitterMs start bucket cs).flatMap fun w => deterministicShuffle C w.2 seed w.1 := by
  induction cs generalizing start bucket with
  | nil => simp [shuffleBuckets, windows]
  | cons c cs ih =>
    unfold shuffleBuckets windows
    split
    · exact ih start (bucket ++ [c])
    · rw [ih c.1 [c], flatMap_cons]

lemma fairOrderShuffle_eq (C : Crypto) {commits : List (UInt64 × TxCommit)}
    (h : ¬ (commits.length ≤ 1 ∨ jitterMs = 0)) (seed : Hash32) :
    fairOrderShuffle C commits jitterMs seed =
      (cut jitterMs commits).flatMap fun w => deterministicShuffle C w.2 seed w.1 := by
  rw [fairOrderShuffle, if_neg h, cut, sorted]
  split
  · rename_i hnil
    rw [hnil]
    rfl
  · rename_i c cs hcons
    rw [hcons]
    exact shuffleBuckets_eq C jitterMs seed c.1 [c] cs

lemma flatMap_windows (jitterMs start : UInt64) (bucket cs : List (UInt64 × α)) :
    (windows jitterMs start bucket cs).flatMap Prod.snd = bucket ++ cs := by
  induction cs generalizing start bucket with
  | nil => simp [windows]
  | cons c cs ih =>
    unfold windows
    split
    · rw [ih, append_assoc, singleton_append]
    · rw [flatMap_cons, ih, singleton_append]

lemma flatMap_cut (jitterMs : UInt64) (l : List (UInt64 × α)) :
    (cut jitterMs l).flatMap Prod.snd = sorted l := by
  unfold cut cutSorted
  cases sorted l with
  | nil => rfl
  | cons c cs => exact flatMap_windows jitterMs c.1 [c] cs

section Map

variable {g : UInt64 × α → UInt64 × β} (hg : ∀ c, (g c).1 = c.1)

include hg

lemma windows_map (jitterMs start : UInt64) (bucket cs : List (UInt64 × α)) :
    windows jitterMs start (bucket.map g) (cs.map g) =
      (windows jitterMs start bucket cs).map fun w => (w.1, w.2.map g) := by
  induction cs generalizing start bucket with
  | nil => simp [windows]
  | cons c cs ih =>
    rw [map_cons, windows, windows, hg]
    split
    · rw [← ih, map_append, map_singleton]
    · rw [map_cons, ← ih, map_singleton]

lemma cut_map (jitterMs : UInt64) (l : List (UInt64 × α)) :
    cut jitterMs (l.map g) = (cut jitterMs l).map fun w => (w.1, w.2.map g) := by
  have hsort : sorted (l.map g) = (sorted l).map g := by
    refine (map_insertionSort _ _ g l fun a _ b _ => ?_).symm
    rw [hg, hg]
  rw [cut, cut, hsort]
  cases sorted l with
  | nil => rfl
  | cons c cs =>
    rw [map_cons, cutSorted, cutSorted, hg]
    exact windows_map hg jitterMs c.1 [c] cs

end Map

structure Within (jitterMs : UInt64) (w : UInt64 × List (UInt64 × α)) : Prop where
  start_le : ∀ a ∈ w.2, w.1.toNat ≤ a.1.toNat
  lt_end : ∀ a ∈ w.2, a.1.toNat < w.1.toNat + jitterMs.toNat

lemma Within.singleton (hj : 0 < jitterMs.toNat) (c : UInt64 × α) :
    Within jitterMs (c.1, [c]) := by
  constructor
  · simp
  · simpa using hj

lemma within_windows {start : UInt64} (hj : 0 < jitterMs.toNat) {bucket cs : List (UInt64 × α)}
    (hbucket : Within jitterMs (start, bucket)) (hstart : ∀ c ∈ cs, start.toNat ≤ c.1.toNat)
    (hsorted : cs.Pairwise fun a b => a.1 ≤ b.1) :
    ∀ w ∈ windows jitterMs start bucket cs, Within jitterMs w := by
  induction cs generalizing start bucket with
  | nil =>
    intro w hw
    rw [mem_singleton.mp hw]
    exact hbucket
  | cons c cs ih =>
    obtain ⟨hc, hrest⟩ := forall_mem_cons.mp hstart
    obtain ⟨hle, htail⟩ := pairwise_cons.mp hsorted
    unfold windows
    split
    · rename_i hlt
      refine ih ⟨?_, ?_⟩ hrest htail
      · intro a ha
        rcases mem_append.mp ha with ha | ha
        · exact hbucket.start_le a ha
        · rw [mem_singleton.mp ha]
          exact hc
      · intro a ha
        rcases mem_append.mp ha with ha | ha
        · exact hbucket.lt_end a ha
        · rw [mem_singleton.mp ha]
          have hnum := UInt64.lt_iff_toNat_lt.mp hlt
          rw [Machine.toNat_satAdd] at hnum
          exact Nat.lt_of_lt_of_le hnum (Nat.min_le_left _ _)
    · intro w hw
      rcases mem_cons.mp hw with rfl | hw
      · exact hbucket
      · exact ih (.singleton hj c) (fun d hd => UInt64.le_iff_toNat_le.mp (hle d hd)) htail w hw

lemma sorted_pairwise (l : List (UInt64 × α)) : (sorted l).Pairwise fun a b => a.1 ≤ b.1 := by
  have : Std.Total fun a b : UInt64 × α => a.1 ≤ b.1 := ⟨fun a b => UInt64.le_total a.1 b.1⟩
  have : IsTrans (UInt64 × α) fun a b => a.1 ≤ b.1 := ⟨fun _ _ _ => UInt64.le_trans⟩
  exact pairwise_insertionSort _ l

lemma within_cut (hj : 0 < jitterMs.toNat) (l : List (UInt64 × α)) :
    ∀ w ∈ cut jitterMs l, Within jitterMs w := by
  have hsorted := sorted_pairwise l
  unfold cut cutSorted
  cases hs : sorted l with
  | nil => simp
  | cons c cs =>
    rw [hs, pairwise_cons] at hsorted
    exact within_windows hj (.singleton hj c)
      (fun d hd => UInt64.le_iff_toNat_le.mp (hsorted.1 d hd)) hsorted.2

lemma deterministicShuffle_perm (C : Crypto) (l : List α) (seed : Hash32) (extraNonce : UInt64) :
    (deterministicShuffle C l seed extraNonce).Perm l := Shuffle.shuffle_perm _ _ _ _ _

lemma pairwise_shuffled_iff (C : Crypto) (seed : Hash32) {R : UInt64 × α → UInt64 × α → Prop}
    (ws : List (UInt64 × List (UInt64 × α))) :
    (ws.flatMap fun w => deterministicShuffle C w.2 seed w.1).Pairwise R ↔
      (∀ w ∈ ws, (deterministicShuffle C w.2 seed w.1).Pairwise R) ∧
        ws.Pairwise fun v w => ∀ a ∈ v.2, ∀ b ∈ w.2, R a b := by
  rw [pairwise_flatMap]
  simp only [(deterministicShuffle_perm C _ seed _).mem_iff]

/-! ### First come, first served -/

def FirstCome (jitterMs : UInt64) (l : List (UInt64 × TxCommit)) : Prop :=
  if jitterMs = 0 then l.Pairwise fun a b => a.1 ≤ b.1
  else l.Pairwise fun a b => ¬ b.1.toNat + jitterMs.toNat ≤ a.1.toNat

lemma firstCome_cut (C : Crypto) (hj : 0 < jitterMs.toNat) (seed : Hash32)
    (commits : List (UInt64 × TxCommit)) :
    ((cut jitterMs commits).flatMap fun w => deterministicShuffle C w.2 seed w.1).Pairwise
      fun a b => ¬ b.1.toNat + jitterMs.toNat ≤ a.1.toNat := by
  rw [pairwise_shuffled_iff]
  constructor
  · intro w hw
    obtain ⟨hle, hlt⟩ := within_cut hj commits w hw
    refine pairwise_of_forall_mem_list fun a ha b hb => ?_
    have ha' := hlt a ((deterministicShuffle_perm C _ _ _).mem_iff.mp ha)
    have hb' := hle b ((deterministicShuffle_perm C _ _ _).mem_iff.mp hb)
    omega
  · have hsorted := sorted_pairwise commits
    rw [← flatMap_cut jitterMs, pairwise_flatMap] at hsorted
    refine hsorted.2.imp fun hcross a ha b hb => ?_
    have := UInt64.le_iff_toNat_le.mp (hcross a ha b hb)
    omega

/-- **First come, first served, up to the jitter**, except that without jitter nothing is sorted. -/
theorem fairOrderShuffle_fcfs_iff (C : Crypto) (commits : List (UInt64 × TxCommit))
    (jitterMs : UInt64) (seed : Hash32) :
    (fairOrderShuffle C commits jitterMs seed).Perm commits ∧
        FirstCome jitterMs (fairOrderShuffle C commits jitterMs seed) ↔
      (jitterMs = 0 → commits.Pairwise fun a b => a.1 ≤ b.1) := by
  rw [and_iff_right (fairOrderShuffle_perm C commits jitterMs seed), FirstCome]
  by_cases hzero : jitterMs = 0
  · rw [if_pos hzero, fairOrderShuffle, if_pos (.inr hzero)]
    exact ⟨fun h _ => h, fun h => h hzero⟩
  · rw [if_neg hzero]
    refine iff_of_true ?_ fun h => absurd h hzero
    have hj : 0 < jitterMs.toNat := by
      refine Nat.pos_of_ne_zero fun h => hzero ?_
      exact UInt64.toNat_inj.mp h
    by_cases hshort : commits.length ≤ 1
    · rw [fairOrderShuffle, if_pos (.inl hshort)]
      rcases commits with _ | ⟨c, _ | ⟨d, cs⟩⟩
      · exact .nil
      · exact List.pairwise_singleton _ c
      · simp at hshort
    · rw [fairOrderShuffle_eq C (not_or.mpr ⟨hshort, hzero⟩)]
      exact firstCome_cut C hj seed commits

def swappedPair : List (UInt64 × TxCommit) :=
  [(2, ⟨.ofNat 2, "bob", 0, 2, 0, none⟩), (1, ⟨.ofNat 1, "alice", 0, 1, 0, none⟩)]

/-- **Without jitter the commits stay as they were given.** -/
theorem unsorted_without_jitter :
    ¬ FirstCome 0 (fairOrderShuffle .demo swappedPair 0 (.ofNat 0)) := by
  unfold FirstCome
  decide +kernel

/-! ### Nonces -/

def MevMempool.orders (pool : MevMempool) : List (UInt64 × Tx) :=
  pool.revealedTxs.zipIdx.map fun e => (pool.orderCounter + .ofNat e.2, e.1)

lemma map_snd_orders (pool : MevMempool) : pool.orders.map Prod.snd = pool.revealedTxs := by
  rw [MevMempool.orders, map_map]
  exact zipIdx_map_fst 0 _

def commitOf (C : Crypto) (height : UInt64) (e : UInt64 × Tx) : UInt64 × TxCommit :=
  (e.1,
    { commitHash := txHash C e.2
      sender := e.2.from
      nonce := e.2.nonce
      receivedOrder := e.1
      commitHeight := height })

lemma commits_eq (C : Crypto) (pool : MevMempool) :
    commits C pool = pool.orders.map (commitOf C pool.currentHeight) := by
  rw [commits, MevMempool.orders, map_map]
  rfl

def InNonceOrder (c d : UInt64 × TxCommit) : Prop := c.2.sender = d.2.sender → c.2.nonce < d.2.nonce

lemma ascending_map_snd_iff (C : Crypto) (height : UInt64) (es : List (UInt64 × Tx)) :
    Ascending (es.map Prod.snd) ↔ (es.map (commitOf C height)).Pairwise InNonceOrder := by
  rw [Ascending, pairwise_map, pairwise_map]
  rfl

lemma ascending_fairOrder_iff
    (hinj : ∀ t ∈ pool.revealedTxs, ∀ u ∈ pool.revealedTxs, txHash C t = txHash C u → t = u) :
    Ascending (fairOrder C pool) ↔
      (fairOrderShuffle C (commits C pool) pool.config.orderingJitterMs
        pool.lastBlockHash).Pairwise InNonceOrder := by
  rw [Ascending, fairOrder, pairwise_filterMap]
  have hlook : ∀ c ∈ fairOrderShuffle C (commits C pool) pool.config.orderingJitterMs
      pool.lastBlockHash, ∃ t, (txMap C pool.revealedTxs)[c.2.commitHash]? = some t ∧
        c.2.sender = t.from ∧ c.2.nonce = t.nonce := by
    intro c hc
    rw [(fairOrderShuffle_perm C _ _ _).mem_iff, commits_eq] at hc
    obtain ⟨e, he, rfl⟩ := mem_map.mp hc
    have hmem : e.2 ∈ pool.revealedTxs := by
      rw [← map_snd_orders]
      exact mem_map_of_mem he
    obtain ⟨hsome, hstand, hhash⟩ := getElem?_txMap_mem C hmem
    rw [hinj _ hstand _ hmem hhash] at hsome
    exact ⟨e.2, hsome, rfl, rfl⟩
  refine List.Pairwise.iff_of_mem fun {c d} hc hd => ?_
  obtain ⟨t, ht, hts, htn⟩ := hlook c hc
  obtain ⟨u, hu, hus, hun⟩ := hlook d hd
  simp [InNonceOrder, ht, hu, hts, htn, hus, hun]

structure Orderly (pool : MevMempool) : Prop where
  distinct : (pool.revealedTxs.map txPreimage).Nodup
  sorted : pool.config.orderingJitterMs ≠ 0 → Ascending ((sorted pool.orders).map Prod.snd)
  apart : pool.config.orderingJitterMs ≠ 0 →
    ∀ w ∈ cut pool.config.orderingJitterMs pool.orders, (w.2.map fun e => e.2.from).Nodup

def CollisionFree (C : Crypto) (pool : MevMempool) : Prop :=
  ∀ t ∈ pool.revealedTxs, ∀ u ∈ pool.revealedTxs, txHash C t = txHash C u → txPreimage t = txPreimage u

lemma CollisionFree.inj (h : CollisionFree C pool)
    (hdistinct : (pool.revealedTxs.map txPreimage).Nodup) :
    ∀ t ∈ pool.revealedTxs, ∀ u ∈ pool.revealedTxs, txHash C t = txHash C u → t = u :=
  fun t ht u hu heq => inj_on_of_nodup_map hdistinct ht hu (h t ht u hu heq)

lemma shuffled_eq (C : Crypto) (hlong : 1 < pool.revealedTxs.length)
    (hj : pool.config.orderingJitterMs ≠ 0) :
    fairOrderShuffle C (commits C pool) pool.config.orderingJitterMs pool.lastBlockHash =
      ((cut pool.config.orderingJitterMs pool.orders).map fun w =>
        (w.1, w.2.map (commitOf C pool.currentHeight))).flatMap
          fun w => deterministicShuffle C w.2 pool.lastBlockHash w.1 := by
  have hlen : (commits C pool).length = pool.revealedTxs.length := by
    rw [commits, length_map, length_zipIdx]
  have hcond : ¬ ((commits C pool).length ≤ 1 ∨ pool.config.orderingJitterMs = 0) := by
    rw [hlen, not_or]
    exact ⟨Nat.not_le.mpr hlong, hj⟩
  rw [fairOrderShuffle_eq C hcond, commits_eq]
  exact congrArg (flatMap _) (cut_map (g := commitOf C pool.currentHeight) (fun _ => rfl) _ _)

lemma inNonceOrder_of_nodup {height : UInt64} {es : List (UInt64 × Tx)}
    {l : List (UInt64 × TxCommit)} (hperm : l.Perm (es.map (commitOf C height)))
    (h : (es.map fun e => e.2.from).Nodup) : l.Pairwise InNonceOrder := by
  refine List.Pairwise.imp (R := fun c d => c.2.sender ≠ d.2.sender)
    (fun hne heq => absurd heq hne) ?_
  refine (hperm.pairwise_iff Ne.symm).mpr ?_
  exact pairwise_map.mpr (pairwise_map.mp h)

lemma Orderly.ascending_fairOrder (h : Orderly pool) (hqueue : Ascending pool.revealedTxs)
    (hlong : 1 < pool.revealedTxs.length) (hfree : CollisionFree C pool) :
    Ascending (fairOrder C pool) := by
  rw [ascending_fairOrder_iff (hfree.inj h.distinct)]
  by_cases hj : pool.config.orderingJitterMs = 0
  · rw [fairOrderShuffle, if_pos (.inr hj), commits_eq, ← ascending_map_snd_iff, map_snd_orders]
    exact hqueue
  · have hsorted := h.sorted hj
    rw [ascending_map_snd_iff C pool.currentHeight, ← flatMap_cut pool.config.orderingJitterMs,
      map_flatMap, pairwise_flatMap] at hsorted
    rw [shuffled_eq C hlong hj, pairwise_shuffled_iff, forall_mem_map, pairwise_map]
    refine ⟨fun w hw => ?_, hsorted.2⟩
    exact inNonceOrder_of_nodup (deterministicShuffle_perm C _ _ _) (h.apart hj w hw)

/-! ### A hash function that draws what it is told to -/

def decode (bytes : List UInt8) : ℕ := bytes.foldr (fun b acc => b.toNat + 256 * acc) 0

lemma decode_le (n v : ℕ) : decode (Bytes.le n v) = v % 256 ^ n := by
  induction n generalizing v with
  | zero => simp [decode, Nat.mod_one]
  | succ n ih =>
    change (UInt8.ofNat v).toNat + 256 * decode (Bytes.le n (v / 256)) = _
    have hsplit : v % (256 * 256 ^ n) = v % 256 + 256 * (v / 256 % 256 ^ n) := Nat.mod_mul
    rw [ih, UInt8.toNat_ofNat', Nat.pow_succ' (n := n), hsplit]

lemma take_le {m n : ℕ} (h : m ≤ n) (v : ℕ) : (Bytes.le n v).take m = Bytes.le m v := by
  induction m generalizing n v with
  | zero => rfl
  | succ m ih =>
    obtain ⟨n, rfl⟩ := Nat.exists_eq_add_of_lt h
    rw [Bytes.le_succ, Bytes.le_succ, take_succ_cons, ih (by omega)]

def scriptState (draws : ℕ → ℕ) (k : ℕ) : Hash32 := .ofNat (draws k + 2 ^ 64 * k)

def scripted (table : List (List UInt8)) (draws : ℕ → ℕ) : Crypto :=
  { Crypto.demo with
    blake3 := fun bytes =>
      if bytes.length = 40 then scriptState draws 0
      else if bytes.length = 32 then scriptState draws (decode bytes / 2 ^ 64 + 1)
      else .ofNat (table.idxOf bytes) }

lemma hashBytes_scripted (table : List (List UInt8)) (draws : ℕ → ℕ) (bytes : List UInt8) :
    hashBytes (scripted table draws) bytes =
      if bytes.length = 40 then scriptState draws 0
      else if bytes.length = 32 then scriptState draws (decode bytes / 2 ^ 64 + 1)
      else .ofNat (table.idxOf bytes) := rfl

lemma toList_ofNat (n : ℕ) : (Hash32.ofNat n).toList = Bytes.le 32 n := rfl

lemma firstWord_scriptState {k : ℕ} (h : draws k < 2 ^ 64) :
    firstWord (scriptState draws k) = draws k := by
  change decode ((Hash32.ofNat _).toList.take 8) = _
  rw [toList_ofNat, take_le (by decide), decode_le]
  omega

lemma scripted_next {table : List (List UInt8)} {k : ℕ} (h : draws k < 2 ^ 64) (hk : k < 2 ^ 64) :
    hashBytes (scripted table draws) (scriptState draws k).toList =
      scriptState draws (k + 1) := by
  have hcount : decode (scriptState draws k).toList / 2 ^ 64 = k := by
    rw [scriptState, toList_ofNat, decode_le]
    omega
  rw [hashBytes_scripted, if_neg (by simp), if_pos (by simp), hcount]

lemma collisionFree_scripted (hlen : pool.revealedTxs.length < 2 ^ 64) (draws : ℕ → ℕ) :
    CollisionFree (scripted (pool.revealedTxs.map txPreimage) draws) pool := by
  have hentry : ∀ t ∈ pool.revealedTxs,
      txHash (scripted (pool.revealedTxs.map txPreimage) draws) t =
          .ofNat ((pool.revealedTxs.map txPreimage).idxOf (txPreimage t)) ∧
        (pool.revealedTxs.map txPreimage).idxOf (txPreimage t) < 256 ^ 32 := by
    intro t ht
    -- a transaction is hashed from more bytes than a state or a seed
    have hlong : 40 < (txPreimage t).length := by
      simp only [txPreimage, length_append, Bytes.length_le, Bytes.length_ofU64]
      omega
    constructor
    · rw [txHash_eq, hashBytes_scripted, if_neg (by omega), if_neg (by omega)]
    · have := idxOf_lt_length_of_mem (mem_map_of_mem (f := txPreimage) ht)
      rw [length_map] at this
      omega
  intro t ht u hu heq
  obtain ⟨htable, hsmall⟩ := hentry t ht
  obtain ⟨htable', hsmall'⟩ := hentry u hu
  rw [htable, htable'] at heq
  have hidx := Bytes.le_inj hsmall hsmall' (congrArg Vector.toList heq)
  exact (idxOf_inj (mem_map_of_mem ht)).mp hidx

def swapScript (m q x k : ℕ) : ℕ := if m - k = q then x else m - k

lemma deterministicShuffle_swapScript {l : List α} {m q x : ℕ} (hm : l.length = m) (hq : 0 < q)
    (hqm : q < m) (hx : x ≤ q) (hlen : m < 2 ^ 64) (table : List (List UInt8)) (seed : Hash32)
    (start : UInt64) :
    deterministicShuffle (scripted table (swapScript m q x)) l seed start =
      Shuffle.swapAt l q x := by
  have hsmall : ∀ k, swapScript m q x k < 2 ^ 64 := by
    intro k
    unfold swapScript
    split <;> omega
  have hstart : hashBytes (scripted table (swapScript m q x))
      (seed.toList ++ Bytes.ofU64 start) = scriptState (swapScript m q x) 0 := by
    rw [hashBytes_scripted, if_pos (by simp)]
  rw [deterministicShuffle, hstart]
  refine (Shuffle.shuffle_eq_swapAt (t := scriptState (swapScript m q x))
    (fun k hk => scripted_next (hsmall k) (by omega)) hq hx
    (fun k _ _ => firstWord_scriptState (hsmall k)) _ 0 (by omega) l).trans ?_
  rw [if_pos (by omega)]

/-! ### When a drain keeps the nonces -/

def KeepsNonces (pool : MevMempool) : Prop :=
  ∀ (C : Crypto) (seed : Hash32) (n : ℕ) (returned : List Tx) (pool' : MevMempool),
    CollisionFree C pool →
      drainFair C { pool with lastBlockHash := seed } n = some (returned, pool') → Ascending returned

structure Ordered (pool : MevMempool) : Prop where
  enabled : pool.config.enableFairOrdering = true
  long : 1 < pool.revealedTxs.length
  counts : pool.fairOrderShuffles.toNat < Machine.u64Max

lemma drainFair_returned {pool' : MevMempool} {n : ℕ} {returned : List Tx}
    (h : drainFair C pool n = some (returned, pool')) :
    returned.Sublist pool.revealedTxs ∨ Ordered pool ∧ returned.Sublist (fairOrder C pool) := by
  unfold drainFair at h
  split at h
  · cases h
  split at h
  · cases h
    exact .inl (nil_sublist _)
  split at h
  · rename_i hfair
    cases hcount : Machine.checked (pool.fairOrderShuffles.toNat + 1) with
    | none =>
      rw [hcount] at h
      cases h
    | some shuffles =>
      rw [hcount] at h
      cases h
      have hnum := Machine.checked_eq_some_iff.mp hcount
      have hle := Machine.toNat_le shuffles
      exact .inr ⟨⟨hfair.1, hfair.2, by omega⟩, take_sublist _ _⟩
  · cases h
    exact .inl (take_sublist _ _)

lemma drainFair_length (h : Ordered pool) (hfits : pool.revealedTxs.length * txSize ≤ isizeMax) :
    ∃ pool', drainFair C pool pool.revealedTxs.length = some (fairOrder C pool, pool') := by
  have hlen : (fairOrder C pool).length = pool.revealedTxs.length := by
    rw [(fairOrder_perm C pool).length_eq, length_map]
  have hempty : ¬ pool.revealedTxs.isEmpty = true := by
    intro hnil
    have := h.long
    rw [List.isEmpty_iff.mp hnil] at this
    cases this
  have hcount : Machine.checked (pool.fairOrderShuffles.toNat + 1) =
      some (.ofNat (pool.fairOrderShuffles.toNat + 1)) := if_pos h.counts
  rw [drainFair, if_neg (Nat.not_lt.mpr hfits), if_neg hempty, if_pos ⟨h.enabled, h.long⟩, hcount]
  exact ⟨_, by rw [take_of_length_le hlen.le]⟩

lemma nodup_map_txHash (h : Ascending (fairOrder C pool)) :
    (pool.revealedTxs.map (txHash C)).Nodup := by
  have hstand := (fairOrder_perm C pool).nodup_iff.mp h.nodup
  refine List.Nodup.of_map (fun hash => (txMap C pool.revealedTxs)[hash]?) ?_
  have hlook : (pool.revealedTxs.map (txHash C)).map (fun hash => (txMap C pool.revealedTxs)[hash]?) =
      (pool.revealedTxs.map (standIn C pool.revealedTxs)).map some := by
    rw [map_map, map_map]
    exact map_congr_left fun tx htx => (getElem?_txMap_mem C htx).1
  rw [hlook]
  exact hstand.map (Option.some_injective _)

lemma KeepsNonces.orderly (h : KeepsNonces pool) (hord : Ordered pool)
    (hfits : pool.revealedTxs.length * txSize ≤ isizeMax) : Orderly pool := by
  have hsmall : pool.revealedTxs.length < 2 ^ 64 := by
    have : isizeMax < 2 ^ 64 := by decide
    have := Nat.le_mul_of_pos_right pool.revealedTxs.length (show 0 < txSize by decide)
    omega
  set table := pool.revealedTxs.map txPreimage with htable
  have hasc : ∀ draws, Ascending (fairOrder (scripted table draws) pool) := by
    intro draws
    obtain ⟨pool', hdrain⟩ := drainFair_length (C := scripted table draws) hord hfits
    exact h _ pool.lastBlockHash _ _ _ (collisionFree_scripted hsmall draws) hdrain
  have hdistinct : table.Nodup := by
    have hhashes := nodup_map_txHash (hasc fun _ => 0)
    refine List.Nodup.of_map (hashBytes (scripted table fun _ => 0)) ?_
    rwa [htable, map_map]
  -- what the scripts say of the windows
  have hpairs : ∀ draws, pool.config.orderingJitterMs ≠ 0 →
      (∀ w ∈ cut pool.config.orderingJitterMs pool.orders,
        (deterministicShuffle (scripted table draws)
          (w.2.map (commitOf (scripted table draws) pool.currentHeight)) pool.lastBlockHash
            w.1).Pairwise InNonceOrder) ∧
      (cut pool.config.orderingJitterMs pool.orders).Pairwise fun v w =>
        ∀ a ∈ v.2.map (commitOf (scripted table draws) pool.currentHeight),
          ∀ b ∈ w.2.map (commitOf (scripted table draws) pool.currentHeight), InNonceOrder a b := by
    intro draws hj
    have hpw := (ascending_fairOrder_iff ((collisionFree_scripted hsmall draws).inj hdistinct)).mp
      (hasc draws)
    rwa [shuffled_eq _ hord.long hj, pairwise_shuffled_iff, forall_mem_map,
      pairwise_map] at hpw
  have hapart : pool.config.orderingJitterMs ≠ 0 → ∀ w ∈ cut pool.config.orderingJitterMs pool.orders,
      (w.2.map fun e => e.2.from).Nodup := by
    intro hj w hw
    have hlen : w.2.length < 2 ^ 64 := by
      have hsub : w.2.length ≤ (sorted pool.orders).length := by
        rw [← flatMap_cut pool.config.orderingJitterMs]
        exact (sublist_flatten_of_mem (mem_map_of_mem (f := Prod.snd) hw)).length_le
      rw [sorted, length_insertionSort, MevMempool.orders, length_map,
        length_zipIdx] at hsub
      omega
    rw [nodup_iff_pairwise_ne, pairwise_map, pairwise_iff_getElem]
    intro p q hp hq hpq hsame
    -- one script leaves the window alone, the other swaps the two transactions
    have hkept := (hpairs (swapScript w.2.length q q) hj).1 w hw
    have hswapped := (hpairs (swapScript w.2.length q p) hj).1 w hw
    rw [deterministicShuffle_swapScript (by rw [length_map]) (by omega) hq le_rfl hlen,
      Shuffle.swapAt_self, pairwise_iff_getElem] at hkept
    rw [deterministicShuffle_swapScript (by rw [length_map]) (by omega) hq hpq.le hlen,
      Shuffle.swapAt_eq (by simpa using hq) (by simpa using hp), pairwise_iff_getElem] at hswapped
    have hlt := hkept p q (by simpa using hp) (by simpa using hq) hpq
    have hgt := hswapped p q (by simpa using hp) (by simpa using hq) hpq
    simp only [getElem_set_self, getElem_set_ne hpq.ne, getElem_map] at hlt hgt
    exact UInt64.lt_asymm (hlt hsame) (hgt hsame.symm)
  refine ⟨hdistinct, fun hj => ?_, hapart⟩
  rw [ascending_map_snd_iff (scripted table fun _ => 0) pool.currentHeight,
    ← flatMap_cut pool.config.orderingJitterMs, map_flatMap, pairwise_flatMap]
  exact ⟨fun w hw => inNonceOrder_of_nodup (.refl _) (hapart hj w hw), (hpairs _ hj).2⟩

/-- **Nonces in a fair drain** ascend for every seed exactly if no window of the jitter holds two
transactions of one sender and no two have one preimage. -/
theorem drainFair_ascending_iff {pool : MevMempool} (hqueue : Ascending pool.revealedTxs)
    (hfits : pool.revealedTxs.length * txSize ≤ isizeMax) :
    KeepsNonces pool ↔ (Ordered pool → Orderly pool) := by
  refine ⟨fun h hord => h.orderly hord hfits, fun h C seed n returned pool' hfree hdrain => ?_⟩
  rcases drainFair_returned hdrain with hsub | ⟨hord, hsub⟩
  · exact List.Pairwise.sublist hsub hqueue
  · have horderly : Orderly { pool with lastBlockHash := seed } :=
      have hpool := h ⟨hord.enabled, hord.long, hord.counts⟩
      ⟨hpool.distinct, hpool.sorted, hpool.apart⟩
    exact List.Pairwise.sublist hsub (horderly.ascending_fairOrder hqueue hord.long hfree)

/-- Two rounds of transactions of two senders, in windows of two. -/
def twoRounds : MevMempool where
  config := { orderingJitterMs := 2 }
  revealedTxs := [⟨[1], "alice", 0, 1, 1, 21000, "set a 1", [], 7⟩,
    ⟨[2], "bob", 0, 1, 1, 21000, "set b 2", [], 7⟩, ⟨[1], "alice", 1, 1, 1, 21000, "set a 3", [], 7⟩,
    ⟨[2], "bob", 1, 1, 1, 21000, "set b 4", [], 7⟩]

theorem drainFair_ascending_twoRounds : KeepsNonces twoRounds := by
  refine (drainFair_ascending_iff ?_ ?_).mpr fun _ => ⟨?_, fun _ => ?_, fun _ => ?_⟩
  · unfold Ascending
    decide
  · decide
  · decide +kernel
  · unfold Ascending
    decide +kernel
  · decide +kernel

/-- **A fair drain swaps the nonces of a sender.** -/
theorem nonces_swapped : ∃ returned pool',
    drainFair .demo { revealedTxs := twoTxs, lastBlockHash := .ofNat 0 } 2 = some (returned, pool') ∧
      CollisionFree .demo { revealedTxs := twoTxs } ∧ Ascending twoTxs ∧ ¬ Ascending returned := by
  refine ⟨_, _, rfl, ?_⟩
  unfold CollisionFree Ascending
  decide +kernel

end Iona.Mempool
