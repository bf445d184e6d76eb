import Iona.Types

/-! # What is hashed of a transaction and of a header -/

namespace Iona

open Bytes List

def txPreimage (tx : Tx) : List UInt8 :=
  utf8 "IONA_TX" ++
    le 2 tx.pubkey.length ++ tx.pubkey ++
    le 2 (utf8 tx.from).length ++ utf8 tx.from ++
    ofU64 tx.nonce ++ ofU64 tx.maxFeePerGas ++ ofU64 tx.maxPriorityFeePerGas ++
    ofU64 tx.gasLimit ++ ofU64 tx.chainId ++
    le 4 (utf8 tx.payload).length ++ utf8 tx.payload

def headerPreimage (h : BlockHeader) : List UInt8 :=
  utf8 "IONA_BLK" ++
    ofU64 h.height ++ ofU32 h.round ++ h.prev.toList ++
    le 2 h.proposerPk.length ++ h.proposerPk ++
    h.txRoot.toList ++ h.receiptsRoot.toList ++ h.stateRoot.toList ++
    ofU64 h.baseFeePerGas ++ ofU64 h.gasUsed ++ ofU64 h.intrinsicGasUsed ++
    ofU64 h.execGasUsed ++ ofU64 h.vmGasUsed ++ ofU64 h.evmGasUsed ++
    ofU64 h.chainId ++ ofU64 h.timestamp ++ ofU32 h.protocolVersion

lemma txHash_eq (C : Crypto) (tx : Tx) : txHash C tx = hashBytes C (txPreimage tx) := rfl

/-! ### What the strings determine -/

lemma toList_hash_inj {a b : Hash32} (h : a.toList = b.toList) : a = b :=
  Vector.toList_inj.mp h

lemma headerPreimage_injective : Function.Injective headerPreimage := by
  intro h h' heq
  unfold headerPreimage at heq
  generalize utf8 "IONA_BLK" = tag at heq
  have hpk : h.proposerPk.length = h'.proposerPk.length := by
    have hlen := congrArg List.length heq
    simp only [length_append, length_ofU64, length_ofU32, length_le,
      Vector.length_toList] at hlen
    omega
  simp only [append_assoc] at heq
  obtain ⟨-, heq⟩ := append_inj heq rfl
  obtain ⟨hheight, heq⟩ := append_inj heq (by simp)
  obtain ⟨hround, heq⟩ := append_inj heq (by simp)
  obtain ⟨hprev, heq⟩ := append_inj heq (by simp)
  obtain ⟨-, heq⟩ := append_inj heq (by simp)
  obtain ⟨hproposer, heq⟩ := append_inj heq hpk
  obtain ⟨htxRoot, heq⟩ := append_inj heq (by simp)
  obtain ⟨hreceipts, heq⟩ := append_inj heq (by simp)
  obtain ⟨hstate, heq⟩ := append_inj heq (by simp)
  obtain ⟨hbase, heq⟩ := append_inj heq (by simp)
  obtain ⟨hgas, heq⟩ := append_inj heq (by simp)
  obtain ⟨hintrinsic, heq⟩ := append_inj heq (by simp)
  obtain ⟨hexec, heq⟩ := append_inj heq (by simp)
  obtain ⟨hvm, heq⟩ := append_inj heq (by simp)
  obtain ⟨hevm, heq⟩ := append_inj heq (by simp)
  obtain ⟨hchain, heq⟩ := append_inj heq (by simp)
  obtain ⟨htime, hversion⟩ := append_inj heq (by simp)
  cases h
  cases h'
  simp only [BlockHeader.mk.injEq]
  exact ⟨ofU64_injective hheight, ofU32_injective hround, toList_hash_inj hprev,
    hproposer, toList_hash_inj htxRoot, toList_hash_inj hreceipts, toList_hash_inj hstate,
    ofU64_injective hbase, ofU64_injective hgas, ofU64_injective hintrinsic,
    ofU64_injective hexec, ofU64_injective hvm, ofU64_injective hevm,
    ofU64_injective hchain, ofU64_injective htime, ofU32_injective hversion⟩

def Tx.SameContent (t u : Tx) : Prop := { t with signature := u.signature } = u

def Tx.Within (maxKey maxFrom : ℕ) (t : Tx) : Prop :=
  t.pubkey.length ≤ maxKey ∧ (utf8 t.from).length ≤ maxFrom

lemma txPreimage_inj {t u : Tx} (ht : t.Within 65535 65535) (hu : u.Within 65535 65535)
    (heq : txPreimage t = txPreimage u) : t.SameContent u := by
  simp only [txPreimage, append_assoc] at heq
  obtain ⟨-, heq⟩ := append_inj heq rfl
  obtain ⟨hpubkey, heq⟩ := framed_inj (Nat.lt_succ_of_le ht.1) (Nat.lt_succ_of_le hu.1) heq
  obtain ⟨hfrom, heq⟩ := framed_inj (Nat.lt_succ_of_le ht.2) (Nat.lt_succ_of_le hu.2) heq
  obtain ⟨hnonce, heq⟩ := append_inj heq (by simp)
  obtain ⟨hmaxFee, heq⟩ := append_inj heq (by simp)
  obtain ⟨hmaxTip, heq⟩ := append_inj heq (by simp)
  obtain ⟨hgas, heq⟩ := append_inj heq (by simp)
  obtain ⟨hchain, heq⟩ := append_inj heq (by simp)
  obtain ⟨-, hpayload⟩ := append_inj heq (by simp)
  cases t
  cases u
  simp only [Tx.SameContent, Tx.mk.injEq]
  exact ⟨hpubkey, utf8_injective hfrom, ofU64_injective hnonce,
    ofU64_injective hmaxFee, ofU64_injective hmaxTip, ofU64_injective hgas,
    utf8_injective hpayload, trivial, ofU64_injective hchain⟩

/-! ### Two readings of one string -/

def zeros (n : ℕ) : List UInt8 := replicate n 0

@[simp] lemma length_zeros (n : ℕ) : (zeros n).length = n := length_replicate

@[simp] lemma zeros_append_zeros (m n : ℕ) : zeros m ++ zeros n = zeros (m + n) :=
  replicate_append_replicate

@[simp] lemma zeros_append_append (m n : ℕ) (l : List UInt8) :
    zeros m ++ (zeros n ++ l) = zeros (m + n) ++ l := by
  rw [← append_assoc, zeros_append_zeros]

lemma eq_zero_of_mem_zeros {n : ℕ} {b : UInt8} (h : b ∈ zeros n) : b = 0 :=
  eq_of_mem_replicate h

def controlText (bytes : List UInt8) : String :=
  String.ofList (bytes.map fun b => Char.ofNat b.toNat)

lemma utf8_controlText {bytes : List UInt8} (h : ∀ b ∈ bytes, b = 0 ∨ b = 1) :
    utf8 (controlText bytes) = bytes := by
  rw [controlText, utf8_ofList, flatMap_map]
  conv_rhs => rw [← flatMap_singleton' bytes]
  refine flatMap_congr fun b hb => ?_
  rcases h b hb with rfl | rfl <;> decide

def blankTx (pubkey : PublicKeyBytes) (sender payload : String) : Tx where
  pubkey := pubkey
  «from» := sender
  nonce := 0
  maxFeePerGas := 0
  maxPriorityFeePerGas := 0
  gasLimit := 0
  payload := payload
  signature := []
  chainId := 0

lemma txPreimage_blankTx (pubkey : PublicKeyBytes) (sender payload : String) :
    txPreimage (blankTx pubkey sender payload) =
      utf8 "IONA_TX" ++ (le 2 pubkey.length ++ (pubkey ++
        (le 2 (utf8 sender).length ++ (utf8 sender ++ (zeros 40 ++
          (le 4 (utf8 payload).length ++ utf8 payload)))))) := by
  have hzero : ofU64 0 = zeros 8 := by decide
  simp only [txPreimage, blankTx, hzero, append_assoc, zeros_append_append]

def payloadPrefix : List UInt8 := [0, 0, 1, 0]

def zeroPayload (n : ℕ) : Tx := blankTx [] "" (controlText (zeros (n + 46)))

def longKey (n : ℕ) : Tx := blankTx (zeros 42 ++ (payloadPrefix ++ zeros n)) "" ""

def longFrom (n : ℕ) : Tx :=
  blankTx [] (controlText (zeros 40 ++ (payloadPrefix ++ zeros (n + 2)))) ""

section Ambiguous

variable {n : ℕ}

lemma utf8_empty : utf8 "" = [] := by decide

lemma utf8_zeroPayload : utf8 (zeroPayload n).payload = zeros (n + 46) :=
  utf8_controlText fun _ hb => .inl (eq_zero_of_mem_zeros hb)

lemma utf8_longFrom :
    utf8 (longFrom n).from = zeros 40 ++ (payloadPrefix ++ zeros (n + 2)) := by
  have hprefix : ∀ b ∈ payloadPrefix, b = 0 ∨ b = 1 := by simp [payloadPrefix]
  refine utf8_controlText fun b hb => ?_
  rcases mem_append.mp hb with hb | hb
  · exact .inl (eq_zero_of_mem_zeros hb)
  rcases mem_append.mp hb with hb | hb
  · exact hprefix b hb
  · exact .inl (eq_zero_of_mem_zeros hb)

lemma length_longKey : (longKey n).pubkey.length = n + 46 := by
  simp [longKey, blankTx, payloadPrefix]
  omega

lemma length_longFrom : (utf8 (longFrom n).from).length = n + 46 := by
  rw [utf8_longFrom]
  simp [payloadPrefix]
  omega

lemma txPreimage_ambiguous (hshort : le 2 (n + 46) = zeros 2)
    (hlong : le 4 (n + 46) = payloadPrefix) :
    txPreimage (longKey n) = txPreimage (zeroPayload n) ∧
      txPreimage (longFrom n) = txPreimage (zeroPayload n) := by
  have hempty : le 2 0 = zeros 2 := by decide
  have hnone : le 4 0 = zeros 4 := by decide
  have hpayload := txPreimage_blankTx [] "" (controlText (zeros (n + 46)))
  have hkey := txPreimage_blankTx (zeros 42 ++ (payloadPrefix ++ zeros n)) "" ""
  have hfrom := txPreimage_blankTx []
    (controlText (zeros 40 ++ (payloadPrefix ++ zeros (n + 2)))) ""
  rw [← zeroPayload, show utf8 (controlText _) = _ from utf8_zeroPayload, length_zeros,
    hlong] at hpayload
  rw [← longKey, show (zeros 42 ++ (payloadPrefix ++ zeros n)).length = _ from length_longKey,
    hshort] at hkey
  rw [← longFrom, show utf8 (controlText _) = _ from utf8_longFrom,
    ← utf8_longFrom, length_longFrom, utf8_longFrom, hshort] at hfrom
  rw [hpayload, hkey, hfrom]
  simp only [utf8_empty, length_nil, hempty, hnone, nil_append, append_nil,
    append_assoc, zeros_append_append, zeros_append_zeros, add_assoc,
    Nat.reduceAdd, and_self]

end Ambiguous

lemma le_wraps : le 2 (65490 + 46) = zeros 2 ∧ le 4 (65490 + 46) = payloadPrefix := by
  decide

/-- A key of 65536 bytes: hashed as a transaction with an empty key. -/
theorem long_key_collides :
    txPreimage (longKey 65490) = txPreimage (zeroPayload 65490) ∧
      ¬ (longKey 65490).SameContent (zeroPayload 65490) := by
  refine ⟨(txPreimage_ambiguous le_wraps.1 le_wraps.2).1, fun h => ?_⟩
  have hlen := congrArg (fun t : Tx => t.pubkey.length) h
  exact absurd (length_longKey.symm.trans hlen) (by decide)

/-- **When the strings determine what is hashed**: for headers always, for transactions exactly if
the key and the sender are shorter than 65536 bytes. -/
theorem preimages_injective_iff (maxKey maxFrom : ℕ) :
    (∀ h h' : BlockHeader, headerPreimage h = headerPreimage h' → h = h') ∧
      ((∀ t u : Tx, t.Within maxKey maxFrom → u.Within maxKey maxFrom →
          txPreimage t = txPreimage u → t.SameContent u) ↔
        maxKey < 65536 ∧ maxFrom < 65536) := by
  refine ⟨fun h h' heq => headerPreimage_injective heq, fun hinj => ?_, ?_⟩
  · obtain ⟨hkeys, hsenders⟩ := txPreimage_ambiguous le_wraps.1 le_wraps.2
    have hpayload : (zeroPayload 65490).Within maxKey maxFrom := by
      refine ⟨Nat.zero_le _, ?_⟩
      have hnil : (utf8 (zeroPayload 65490).from).length = 0 :=
        congrArg List.length utf8_empty
      rw [hnil]
      exact Nat.zero_le _
    constructor
    · -- a longer key is allowed: the string of the payload can be read with such a key
      by_contra hbound
      have hwithin : (longKey 65490).Within maxKey maxFrom := by
        refine ⟨?_, hpayload.2⟩
        rw [length_longKey]
        omega
      have hlen := congrArg (fun t : Tx => t.pubkey.length)
        (hinj _ _ hwithin hpayload hkeys)
      exact absurd (length_longKey.symm.trans hlen) (by decide)
    · by_contra hbound
      have hwithin : (longFrom 65490).Within maxKey maxFrom := by
        refine ⟨Nat.zero_le _, ?_⟩
        rw [length_longFrom]
        omega
      have hlen := congrArg (fun t : Tx => (utf8 t.from).length)
        (hinj _ _ hwithin hpayload hsenders)
      exact absurd (length_longFrom.symm.trans (hlen.trans (congrArg List.length utf8_empty)))
        (by decide)
  · rintro ⟨hkey, hfrom⟩ t u ht hu heq
    exact txPreimage_inj ⟨by have := ht.1; omega, by have := ht.2; omega⟩
      ⟨by have := hu.1; omega, by have := hu.2; omega⟩ heq

end Iona
