import Iona.Lib.MapSum
import Iona.Slashing

/-!
# Uptime

From `slashing.rs`.
-/

namespace Iona

open Machine List

structure UptimeTracker where
  signedInWindow : BTreeMap PublicKeyBytes UInt64 := ∅
  lastSignedHeight : BTreeMap PublicKeyBytes Height := ∅
  windowStart : Height := 0

namespace UptimeTracker

def recordSigner (height : Height) (t : UptimeTracker) (pk : PublicKeyBytes) : UptimeTracker :=
  { t with
    signedInWindow := t.signedInWindow.insert pk (satAdd (t.signedInWindow.getD pk 0) 1)
    lastSignedHeight := t.lastSignedHeight.insert pk height }

def enroll (t : UptimeTracker) (pk : PublicKeyBytes) : UptimeTracker :=
  { t with
    signedInWindow :=
      if pk ∈ t.signedInWindow then t.signedInWindow else t.signedInWindow.insert pk 0 }

def recordBlock (t : UptimeTracker) (height : Height) (signers allValidators : List PublicKeyBytes)
    (window : UInt64) : UptimeTracker :=
  let t := if height > window then { t with windowStart := height - window } else t
  allValidators.foldl enroll (signers.foldl (recordSigner height) t)

def signedCount (t : UptimeTracker) (pk : PublicKeyBytes) : UInt64 := t.signedInWindow.getD pk 0

def lastSigned (t : UptimeTracker) (pk : PublicKeyBytes) : Option Height := t.lastSignedHeight[pk]?

def checkDowntime (t : UptimeTracker) (height : Height) (stakes : StakeLedger)
    (config : SlashingConfig) : List PublicKeyBytes :=
  if height < config.downtimeWindow then []
  else
    ((stakes.validators.toList.filter fun e => e.2.status = .active).filter fun e =>
      (t.lastSigned e.1).getD 0 > 0 && t.signedCount e.1 < config.downtimeMinSigned).map Prod.fst

end UptimeTracker

structure RecordedBlock where
  height : Height
  signers : List PublicKeyBytes
  allValidators : List PublicKeyBytes

def recordBlocks (window : UInt64) (blocks : List RecordedBlock) : UptimeTracker :=
  blocks.foldl (fun t b => t.recordBlock b.height b.signers b.allValidators window) {}

/-! ### One block -/

namespace UptimeTracker

variable (t : UptimeTracker) (pk pk' : PublicKeyBytes)

lemma signedCount_enroll : (t.enroll pk').signedCount pk = t.signedCount pk := by
  unfold enroll signedCount
  dsimp only
  split
  · rfl
  · rename_i habsent
    rw [MapSum.getD_insert_ite]
    split
    · rename_i hpk
      rw [hpk, Std.ExtTreeMap.getD_eq_fallback habsent]
    · rfl

lemma toNat_signedCount_recordSigner (height : Height) :
    ((recordSigner height t pk').signedCount pk).toNat =
      min ((t.signedCount pk).toNat + if pk = pk' then 1 else 0) u64Max := by
  have hle := toNat_le (t.signedCount pk)
  unfold signedCount recordSigner at *
  dsimp only
  rw [MapSum.getD_insert_ite]
  split
  · rename_i hpk
    rw [toNat_satAdd, hpk]
    rfl
  · omega

lemma lastSigned_recordSigner (height : Height) :
    (recordSigner height t pk').lastSigned pk =
      if pk = pk' then some height else t.lastSigned pk := MapSum.getElem?_insert_ite _ _ _ _

lemma signedCount_foldl_enroll (pks : List PublicKeyBytes) :
    (pks.foldl enroll t).signedCount pk = t.signedCount pk := by
  induction pks generalizing t with
  | nil => rfl
  | cons pk' pks ih => rw [foldl_cons, ih, signedCount_enroll]

lemma lastSigned_foldl_enroll (pks : List PublicKeyBytes) :
    (pks.foldl enroll t).lastSigned pk = t.lastSigned pk := by
  induction pks generalizing t with
  | nil => rfl
  | cons pk' pks ih =>
    rw [foldl_cons, ih]
    rfl

lemma toNat_signedCount_foldl (height : Height) (pks : List PublicKeyBytes) :
    ((pks.foldl (recordSigner height) t).signedCount pk).toNat =
      min ((t.signedCount pk).toNat + pks.count pk) u64Max := by
  induction pks generalizing t with
  | nil =>
    have hle := toNat_le (t.signedCount pk)
    simp only [foldl_nil, count_nil]
    omega
  | cons pk' pks ih =>
    rw [foldl_cons, ih, toNat_signedCount_recordSigner, count_cons]
    simp only [beq_iff_eq, eq_comm (a := pk')]
    omega

lemma lastSigned_foldl (height : Height) (pks : List PublicKeyBytes) :
    (pks.foldl (recordSigner height) t).lastSigned pk =
      if pk ∈ pks then some height else t.lastSigned pk := by
  induction pks generalizing t with
  | nil => simp
  | cons pk' pks ih =>
    rw [foldl_cons, ih, lastSigned_recordSigner]
    by_cases hmem : pk ∈ pks
    · simp [hmem]
    · simp [hmem]

lemma toNat_signedCount_recordBlock (height : Height)
    (signers allValidators : List PublicKeyBytes) (window : UInt64) :
    ((t.recordBlock height signers allValidators window).signedCount pk).toNat =
      min ((t.signedCount pk).toNat + signers.count pk) u64Max := by
  unfold recordBlock
  rw [signedCount_foldl_enroll, toNat_signedCount_foldl]
  split <;> rfl

lemma lastSigned_recordBlock (height : Height) (signers allValidators : List PublicKeyBytes)
    (window : UInt64) :
    (t.recordBlock height signers allValidators window).lastSigned pk =
      if pk ∈ signers then some height else t.lastSigned pk := by
  unfold recordBlock
  rw [lastSigned_foldl_enroll, lastSigned_foldl]
  refine if_congr Iff.rfl rfl ?_
  split <;> rfl

end UptimeTracker

/-! ### Any number of blocks -/

def signatures (pk : PublicKeyBytes) (blocks : List RecordedBlock) : ℕ :=
  (blocks.map fun b => b.signers.count pk).sum

def signedBlocks (pk : PublicKeyBytes) (blocks : List RecordedBlock) : ℕ :=
  blocks.countP fun b => b.signers.contains pk

section Counting

variable (pk : PublicKeyBytes)

lemma signatures_append (bs bs' : List RecordedBlock) :
    signatures pk (bs ++ bs') = signatures pk bs + signatures pk bs' := by
  simp [signatures]

lemma signatures_singleton (b : RecordedBlock) : signatures pk [b] = b.signers.count pk := by
  simp [signatures]

lemma signatures_eq_zero_iff (bs : List RecordedBlock) :
    signatures pk bs = 0 ↔ ∀ b ∈ bs, pk ∉ b.signers := by
  simp [signatures, sum_eq_zero_iff, count_eq_zero]

lemma signedBlocks_le_signatures (bs : List RecordedBlock) :
    signedBlocks pk bs ≤ signatures pk bs ∧
      (signatures pk bs = signedBlocks pk bs ↔ ∀ b ∈ bs, b.signers.count pk ≤ 1) := by
  induction bs with
  | nil => simp [signatures, signedBlocks]
  | cons b bs ih =>
    have hmem : pk ∈ b.signers ↔ 0 < b.signers.count pk := count_pos_iff.symm
    have hsum : signatures pk (b :: bs) = b.signers.count pk + signatures pk bs := by
      simp [signatures]
    have hblocks :
        signedBlocks pk (b :: bs) = signedBlocks pk bs + if pk ∈ b.signers then 1 else 0 := by
      simp [signedBlocks, countP_cons]
    obtain ⟨hle, heq⟩ := ih
    rw [hsum, hblocks, forall_mem_cons, ← heq]
    split <;> rename_i hsigned <;> rw [hmem] at hsigned <;> omega

lemma toNat_signedCount_recordBlocks (window : UInt64) (blocks : List RecordedBlock) :
    ((recordBlocks window blocks).signedCount pk).toNat =
      min (signatures pk blocks) u64Max := by
  induction blocks using reverseRecOn with
  | nil => simp [recordBlocks, signatures, UptimeTracker.signedCount]
  | append_singleton blocks b ih =>
    rw [recordBlocks, foldl_append, foldl_cons, foldl_nil,
      UptimeTracker.toNat_signedCount_recordBlock, ← recordBlocks, ih, signatures_append,
      signatures_singleton]
    omega

lemma lastSigned_recordBlocks_pos_iff (window : UInt64) {blocks : List RecordedBlock}
    (hinc : blocks.Pairwise fun b b' => b.height < b'.height) :
    ((recordBlocks window blocks).lastSigned pk).getD 0 > 0 ↔
      ∃ b ∈ blocks, pk ∈ b.signers ∧ b.height > 0 := by
  induction blocks using reverseRecOn with
  | nil => simp [recordBlocks, UptimeTracker.lastSigned]
  | append_singleton blocks b ih =>
    obtain ⟨hinit, _, hlast⟩ := pairwise_append.mp hinc
    rw [recordBlocks, foldl_append, foldl_cons, foldl_nil,
      UptimeTracker.lastSigned_recordBlock, ← recordBlocks]
    split
    · rename_i hsigned
      constructor
      · intro hpos
        exact ⟨b, by simp, hsigned, hpos⟩
      · rintro ⟨b', hb', _, hpos⟩
        rcases mem_append.mp hb' with hb' | hb'
        · exact UInt64.lt_trans hpos (hlast b' hb' b (by simp))
        · rwa [mem_singleton.mp hb'] at hpos
    · rename_i hnot
      rw [ih hinit]
      constructor
      · rintro ⟨b', hb', hrest⟩
        exact ⟨b', mem_append_left _ hb', hrest⟩
      · rintro ⟨b', hb', hsigned, hpos⟩
        rcases mem_append.mp hb' with hb' | hb'
        · exact ⟨b', hb', hsigned, hpos⟩
        · exact absurd (mem_singleton.mp hb' ▸ hsigned) hnot

end Counting

/-! ### The window -/

def recentBlocks (window : UInt64) (blocks : List RecordedBlock) : List RecordedBlock :=
  blocks.drop (blocks.length - window.toNat)

def olderBlocks (window : UInt64) (blocks : List RecordedBlock) : List RecordedBlock :=
  blocks.take (blocks.length - window.toNat)

lemma older_append_recent (window : UInt64) (blocks : List RecordedBlock) :
    olderBlocks window blocks ++ recentBlocks window blocks = blocks := take_append_drop _ _

lemma signedBlocks_recent_le (pk : PublicKeyBytes) (window : UInt64)
    (blocks : List RecordedBlock) :
    signedBlocks pk (recentBlocks window blocks) ≤ u64Max := by
  have hlen : (recentBlocks window blocks).length ≤ window.toNat := by
    rw [recentBlocks, length_drop]
    omega
  exact countP_le_length.trans (hlen.trans (toNat_le window))

def StakeLedger.IsActive (ledger : StakeLedger) (pk : PublicKeyBytes) : Prop :=
  ∃ record, ledger.validators[pk]? = some record ∧ record.status = .active

structure Tracks (config : SlashingConfig) (blocks : List RecordedBlock) (ledger : StakeLedger)
    (height : Height) : Prop where
  counts : ∀ pk, ((recordBlocks config.downtimeWindow blocks).signedCount pk).toNat =
    signedBlocks pk (recentBlocks config.downtimeWindow blocks)
  reports : ∀ pk,
    pk ∈ (recordBlocks config.downtimeWindow blocks).checkDowntime height ledger config ↔
    config.downtimeWindow ≤ height ∧ ledger.IsActive pk ∧
      signedBlocks pk (recentBlocks config.downtimeWindow blocks) < config.downtimeMinSigned.toNat

def CountedOnce (window : UInt64) (blocks : List RecordedBlock) (pk : PublicKeyBytes) : Prop :=
  (∀ b ∈ olderBlocks window blocks, pk ∉ b.signers) ∧
      (∀ b ∈ recentBlocks window blocks, b.signers.count pk ≤ 1) ∨
    signedBlocks pk (recentBlocks window blocks) = u64Max

def EverSigned (config : SlashingConfig) (blocks : List RecordedBlock) (ledger : StakeLedger)
    (height : Height) : Prop :=
  config.downtimeWindow ≤ height → ∀ pk, ledger.IsActive pk →
    signedBlocks pk (recentBlocks config.downtimeWindow blocks) < config.downtimeMinSigned.toNat →
    ∃ b ∈ blocks, pk ∈ b.signers ∧ b.height > 0

lemma signedCount_eq_iff (window : UInt64) (blocks : List RecordedBlock) (pk : PublicKeyBytes) :
    ((recordBlocks window blocks).signedCount pk).toNat =
        signedBlocks pk (recentBlocks window blocks) ↔ CountedOnce window blocks pk := by
  obtain ⟨hle, heq⟩ := signedBlocks_le_signatures pk (recentBlocks window blocks)
  have hzero := signatures_eq_zero_iff pk (olderBlocks window blocks)
  have hbound := signedBlocks_recent_le pk window blocks
  have hsplit := signatures_append pk (olderBlocks window blocks) (recentBlocks window blocks)
  rw [older_append_recent] at hsplit
  rw [toNat_signedCount_recordBlocks, CountedOnce, ← hzero, ← heq]
  omega

lemma mem_checkDowntime_iff (t : UptimeTracker) (height : Height) (ledger : StakeLedger)
    (config : SlashingConfig) (pk : PublicKeyBytes) :
    pk ∈ t.checkDowntime height ledger config ↔
      config.downtimeWindow ≤ height ∧ ledger.IsActive pk ∧ (t.lastSigned pk).getD 0 > 0 ∧
        (t.signedCount pk).toNat < config.downtimeMinSigned.toNat := by
  unfold UptimeTracker.checkDowntime StakeLedger.IsActive
  split
  · rename_i hearly
    simp [UInt64.not_le.mpr hearly]
  · rename_i hfull
    simp only [mem_map, mem_filter, Bool.and_eq_true, decide_eq_true_eq,
      UInt64.not_lt.mp hfull, true_and]
    constructor
    · rintro ⟨⟨pk', record⟩, ⟨⟨hmem, hactive⟩, hlast, hfew⟩, rfl⟩
      exact ⟨⟨record, Std.ExtTreeMap.mem_toList_iff_getElem?_eq_some.mp hmem, hactive⟩, hlast, hfew⟩
    · rintro ⟨⟨record, hrecord, hactive⟩, hlast, hfew⟩
      exact ⟨(pk, record), ⟨⟨Std.ExtTreeMap.mem_toList_iff_getElem?_eq_some.mpr hrecord, hactive⟩,
        hlast, hfew⟩, rfl⟩

/-- **When the tracker does what it is for**: exactly if every key is counted once for each block of
the window, and every validator to be jailed has signed some block. -/
theorem tracks_iff (config : SlashingConfig) (blocks : List RecordedBlock) (ledger : StakeLedger)
    (height : Height) (hinc : blocks.Pairwise fun b b' => b.height < b'.height) :
    Tracks config blocks ledger height ↔
      (∀ pk, CountedOnce config.downtimeWindow blocks pk) ∧
        EverSigned config blocks ledger height := by
  have hcounts : (∀ pk, ((recordBlocks config.downtimeWindow blocks).signedCount pk).toNat =
      signedBlocks pk (recentBlocks config.downtimeWindow blocks)) ↔
      ∀ pk, CountedOnce config.downtimeWindow blocks pk :=
    forall_congr' fun pk => signedCount_eq_iff config.downtimeWindow blocks pk
  constructor
  · rintro ⟨hcount, hreport⟩
    refine ⟨hcounts.mp hcount, fun hfull pk hactive hfew => ?_⟩
    have hmem := (hreport pk).mpr ⟨hfull, hactive, hfew⟩
    obtain ⟨_, _, hlast, _⟩ := (mem_checkDowntime_iff _ _ _ _ _).mp hmem
    exact (lastSigned_recordBlocks_pos_iff pk _ hinc).mp hlast
  · rintro ⟨honce, hever⟩
    have hcount := hcounts.mpr honce
    refine ⟨hcount, fun pk => ?_⟩
    rw [mem_checkDowntime_iff, hcount pk, lastSigned_recordBlocks_pos_iff pk _ hinc]
    constructor
    · rintro ⟨hfull, hactive, _, hfew⟩
      exact ⟨hfull, hactive, hfew⟩
    · rintro ⟨hfull, hactive, hfew⟩
      exact ⟨hfull, hactive, hever hfull pk hactive hfew, hfew⟩

def pairLedger : StakeLedger :=
  { validators := .ofList [([1], { stake := 10 }), ([2], { stake := 10 })] compare }

lemma pairLedger_isActive {pk : PublicKeyBytes} (h : pairLedger.IsActive pk) :
    pk = [1] ∨ pk = [2] := by
  obtain ⟨record, hrecord, _⟩ := h
  have hkeys : ∀ e ∈ pairLedger.validators.toList, e.1 = [1] ∨ e.1 = [2] := by decide +kernel
  exact hkeys (pk, record) (Std.ExtTreeMap.mem_toList_iff_getElem?_eq_some.mpr hrecord)

def twoBlocks : List RecordedBlock :=
  [⟨1, [[1], [2]], [[1], [2]]⟩, ⟨2, [[1]], [[1], [2]]⟩]

theorem tracks_twoBlocks :
    Tracks { downtimeWindow := 2, downtimeMinSigned := 2 } twoBlocks pairLedger 2 := by
  refine (tracks_iff _ _ _ _ (by decide)).mpr ⟨fun pk => .inl ⟨?_, ?_⟩, ?_⟩
  · have hnone : olderBlocks 2 twoBlocks = [] := by decide
    rw [hnone]
    exact List.forall_mem_nil _
  · have hnodup : ∀ b ∈ recentBlocks 2 twoBlocks, b.signers.Nodup := by decide
    exact fun b hb => List.nodup_iff_count_le_one.mp (hnodup b hb) pk
  · intro _ pk hactive _
    have hfirst : ∀ pk ∈ [[1], [2]], ∃ b ∈ twoBlocks, pk ∈ b.signers ∧ b.height > 0 := by decide
    rcases pairLedger_isActive hactive with rfl | rfl
    · exact hfirst [1] (by simp)
    · exact hfirst [2] (by simp)

def threeBlocks : List RecordedBlock :=
  [⟨1, [[1]], [[1], [2]]⟩, ⟨2, [], [[1], [2]]⟩, ⟨3, [], [[1], [2]]⟩]

/-- With a window of two blocks neither of them signed any, and one is the least they should: the
count of the first still stands, and nobody is reported. -/
theorem downtime_missed :
    (threeBlocks.Pairwise fun b b' => b.height < b'.height) ∧
      (recordBlocks 2 threeBlocks).signedCount [1] = 1 ∧
      signedBlocks [1] (recentBlocks 2 threeBlocks) = 0 ∧
      signedBlocks [2] (recentBlocks 2 threeBlocks) = 0 ∧
      (recordBlocks 2 threeBlocks).checkDowntime 3 pairLedger
        { downtimeWindow := 2, downtimeMinSigned := 1 } = [] := by
  decide +kernel

end Iona
