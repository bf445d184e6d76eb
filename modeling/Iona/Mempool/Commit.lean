import Iona.Mempool

/-!
# The MEV-resistant mempool: commitments

`submit_commit` and `submit_reveal` of `mempool/mev_resistant.rs`.
-/

namespace Iona.Mempool

open List

open Std (LawfulEqOrd)
open Bytes

structure TxReveal where
  commitHash : Hash32
  commitSalt : List UInt8
  tx : Tx
  deriving DecidableEq

inductive MevError where
  | tooManyPendingCommits (max : ℕ)
  | duplicateCommit
  | commitNotFound
  | revealHashMismatch
  | commitExpired (ttl : UInt64)
  | saltTooShort (len min : ℕ)
  | revealedQueueFull (max : ℕ)
  | backrunBlocked (sender : String)
  deriving DecidableEq

def commitPreimage (sender : String) (nonce : UInt64) (txBytes salt : List UInt8) : List UInt8 :=
  utf8 "IONA_COMMIT" ++ utf8 sender ++ ofU64 nonce ++ txBytes ++ salt

def computeCommitHash (C : Crypto) (sender : String) (nonce : UInt64) (txBytes salt : List UInt8) :
    Hash32 :=
  hashBytes C (commitPreimage sender nonce txBytes salt)

def isPotentialBackrun (pool : MevMempool) (tx : Tx) : Bool :=
  pool.config.backrunDelayBlocks ≠ 0 &&
    pool.recentProposers.any fun e =>
      decide (Machine.satSub pool.currentHeight e.1 < pool.config.backrunDelayBlocks) &&
        tx.from == e.2

local instance lawfulHash32 : LawfulBEq Hash32 := inferInstance

def submitCommit (pool : MevMempool) (commit : TxCommit) : Except MevError Unit × MevMempool :=
  if pool.config.maxPendingCommits ≤ pool.pendingCommits.size then
    (.error (.tooManyPendingCommits pool.config.maxPendingCommits), pool)
  else if commit.commitHash ∈ pool.seenCommitHashes then (.error .duplicateCommit, pool)
  else (.ok (),
    { pool with
      seenCommitHashes := commit.commitHash :: pool.seenCommitHashes
      pendingCommits := pool.pendingCommits.insert commit.commitHash commit })

/-! ### Revealing -/

section Reveal

-- `toJson` is `serde_json::to_vec` of a transaction
variable (C : Crypto) (toJson : Tx → List UInt8)

def TxReveal.preimage (reveal : TxReveal) : List UInt8 :=
  commitPreimage reveal.tx.from reveal.tx.nonce (toJson reveal.tx) reveal.commitSalt

def submitReveal (pool : MevMempool) (reveal : TxReveal) : Except MevError Unit × MevMempool :=
  if isPotentialBackrun pool reveal.tx then (.error (.backrunBlocked reveal.tx.from), pool)
  else match pool.pendingCommits[reveal.commitHash]? with
    | none => (.error .commitNotFound, pool)
    | some commit =>
      if reveal.commitSalt.length < pool.config.minSaltLength then
        (.error (.saltTooShort reveal.commitSalt.length pool.config.minSaltLength), pool)
      else if pool.config.verifyCommitHash ∧ computeCommitHash C reveal.tx.from reveal.tx.nonce
          (toJson reveal.tx) reveal.commitSalt ≠ reveal.commitHash then
        (.error .revealHashMismatch, pool)
      else if pool.config.commitTtlBlocks < Machine.satSub pool.currentHeight commit.commitHeight then
        (.error (.commitExpired pool.config.commitTtlBlocks),
          { pool with
            pendingCommits := pool.pendingCommits.erase reveal.commitHash
            seenCommitHashes := pool.seenCommitHashes.erase reveal.commitHash })
      else if pool.config.maxRevealedQueue ≤ pool.revealedTxs.length then
        (.error (.revealedQueueFull pool.config.maxRevealedQueue), pool)
      else (.ok (),
        { pool with
          pendingCommits := pool.pendingCommits.erase reveal.commitHash
          revealedTxs := pool.revealedTxs ++ [reveal.tx] })

def SelfDelimiting : Prop := ∀ t u s s', toJson t ++ s = toJson u ++ s' → t = u

variable {C toJson} {pool : MevMempool}

lemma hash_of_accepted {reveal : TxReveal} (hverify : pool.config.verifyCommitHash = true)
    (h : (submitReveal C toJson pool reveal).1 = .ok ()) :
    hashBytes C (reveal.preimage toJson) = reveal.commitHash := by
  unfold submitReveal at h
  split at h
  · cases h
  split at h
  · cases h
  split at h
  · cases h
  split at h
  · cases h
  · rename_i hhash
    by_contra hne
    exact hhash ⟨hverify, hne⟩

lemma commitPreimage_inj (hjson : SelfDelimiting toJson) {t u : Tx} {s s' : List UInt8}
    (hfrom : t.from = u.from)
    (h : commitPreimage t.from t.nonce (toJson t) s = commitPreimage u.from u.nonce (toJson u) s') :
    t = u := by
  simp only [commitPreimage, hfrom, append_assoc] at h
  have htail := append_cancel_left (append_cancel_left h)
  exact hjson t u s s' (append_inj htail (by simp)).2

def recordedSender (pool : MevMempool) (h : Hash32) : Option String :=
  (pool.pendingCommits[h]?).map TxCommit.sender

def recordedNonce (pool : MevMempool) (h : Hash32) : Option UInt64 :=
  (pool.pendingCommits[h]?).map TxCommit.nonce

/-- **What a commitment binds**: two reveals of one commitment are of one transaction with the
recorded sender and nonce exactly if both senders and the first nonce are the recorded ones. -/
theorem reveals_bound_iff (hjson : SelfDelimiting toJson) {h : Hash32} {r₁ r₂ : TxReveal}
    (hverify : pool.config.verifyCommitHash = true)
    (hfree : hashBytes C (r₁.preimage toJson) = hashBytes C (r₂.preimage toJson) →
      r₁.preimage toJson = r₂.preimage toJson)
    (h₁ : r₁.commitHash = h) (h₂ : r₂.commitHash = h)
    (hok₁ : (submitReveal C toJson pool r₁).1 = .ok ())
    (hok₂ : (submitReveal C toJson pool r₂).1 = .ok ()) :
    r₁.tx = r₂.tx ∧ recordedSender pool h = some r₁.tx.from ∧
        recordedNonce pool h = some r₁.tx.nonce ↔
      recordedSender pool h = some r₁.tx.from ∧ recordedSender pool h = some r₂.tx.from ∧
        recordedNonce pool h = some r₁.tx.nonce := by
  constructor
  · rintro ⟨htx, hfrom, hnonce⟩
    exact ⟨hfrom, htx ▸ hfrom, hnonce⟩
  · rintro ⟨hfrom₁, hfrom₂, hnonce⟩
    have hhash₁ := hash_of_accepted hverify hok₁
    have hhash₂ := hash_of_accepted hverify hok₂
    have hbytes := hfree (hhash₁.trans (h₁.trans (h₂.symm.trans hhash₂.symm)))
    have hfrom : r₁.tx.from = r₂.tx.from := Option.some.inj (hfrom₁.symm.trans hfrom₂)
    exact ⟨commitPreimage_inj hjson hfrom hbytes, hfrom₁, hnonce⟩

end Reveal

/-! ### A self-delimiting text, and two readings of one commitment -/

def announced (bytes : List UInt8) : List UInt8 := bytes.flatMap (fun b => [1, b]) ++ [0]

lemma announced_inj {a b s s' : List UInt8} (h : announced a ++ s = announced b ++ s') :
    a = b ∧ s = s' := by
  induction a generalizing b with
  | nil =>
    cases b with
    | nil => simpa [announced] using h
    | cons y b => simp [announced] at h
  | cons x a ih =>
    cases b with
    | nil => simp [announced] at h
    | cons y b =>
      simp only [announced, flatMap_cons, cons_append, nil_append,
        List.cons.injEq, true_and] at h
      obtain ⟨rfl, hrest⟩ := h
      obtain ⟨rfl, rfl⟩ := ih hrest
      exact ⟨rfl, rfl⟩

def plainText (tx : Tx) : List UInt8 :=
  announced tx.pubkey ++ (announced (utf8 tx.from) ++ (announced (utf8 tx.payload) ++
    (announced tx.signature ++ (ofU64 tx.nonce ++ (ofU64 tx.maxFeePerGas ++
      (ofU64 tx.maxPriorityFeePerGas ++ (ofU64 tx.gasLimit ++
        ofU64 tx.chainId)))))))

lemma plainText_selfDelimiting : SelfDelimiting plainText := by
  intro t u s s' h
  simp only [plainText, append_assoc] at h
  obtain ⟨hpubkey, h⟩ := announced_inj h
  obtain ⟨hfrom, h⟩ := announced_inj h
  obtain ⟨hpayload, h⟩ := announced_inj h
  obtain ⟨hsignature, h⟩ := announced_inj h
  obtain ⟨hnonce, h⟩ := append_inj h (by simp)
  obtain ⟨hfee, h⟩ := append_inj h (by simp)
  obtain ⟨htip, h⟩ := append_inj h (by simp)
  obtain ⟨hgas, h⟩ := append_inj h (by simp)
  obtain ⟨hchain, -⟩ := append_inj h (by simp)
  cases t
  cases u
  simp only [Tx.mk.injEq]
  exact ⟨hpubkey, utf8_injective hfrom, ofU64_injective hnonce,
    ofU64_injective hfee, ofU64_injective htip, ofU64_injective hgas,
    utf8_injective hpayload, hsignature, ofU64_injective hchain⟩

def shortTx : Tx := ⟨[1], "a", 0, 1, 1, 9, "p", [], 7⟩

def salt : List UInt8 := replicate 16 0

def longTx : Tx :=
  { shortTx with
    «from» := String.ofList ((utf8 "a" ++ ofU64 0 ++ plainText shortTx).map fun b =>
      Char.ofNat b.toNat) }

def shortReveal (h : Hash32) : TxReveal :=
  ⟨h, ofU64 0 ++ plainText longTx ++ salt, shortTx⟩

def longReveal (h : Hash32) : TxReveal := ⟨h, salt, longTx⟩

def committed : Hash32 := hashBytes .demo ((longReveal (.ofNat 0)).preimage plainText)

def committedPool : MevMempool := (submitCommit {} ⟨committed, "a", 0, 0, 0, none⟩).2

theorem reveals_bound_once : (shortReveal committed).tx = (shortReveal committed).tx ∧
    recordedSender committedPool committed = some "a" ∧
      recordedNonce committedPool committed = some 0 :=
  (reveals_bound_iff (C := .demo) plainText_selfDelimiting rfl (fun h => rfl) rfl rfl
    (by decide +kernel) (by decide +kernel)).mpr (by decide +kernel)

/-- **One commitment, two transactions.** -/
theorem two_reveals_of_one_commit :
    (submitReveal .demo plainText committedPool (shortReveal committed)).1 = .ok () ∧
      (submitReveal .demo plainText committedPool (longReveal committed)).1 = .ok () ∧
      (shortReveal committed).tx ≠ (longReveal committed).tx ∧
      recordedSender committedPool committed ≠ some (longReveal committed).tx.from := by
  decide +kernel

end Iona.Mempool
