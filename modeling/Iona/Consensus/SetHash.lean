import Iona.Consensus.Quorum
import Iona.Lib.Grouping

/-!
# The hash of a validator set

From `consensus/validator_set.rs`.
-/

namespace Iona

namespace ValidatorSet

def entryBytes (v : Validator) : List UInt8 := v.pk ++ Bytes.ofU64 v.power

def sortedVals (vset : ValidatorSet) : List Validator :=
  vset.vals.insertionSort fun a b => (compare a.pk b.pk).isLE

def hashPreimage (vset : ValidatorSet) : List UInt8 :=
  Bytes.utf8 "iona/vset/v1:" ++ Bytes.ofU64 (.ofNat vset.sortedVals.length) ++
    vset.sortedVals.flatMap entryBytes

variable {s t : ValidatorSet}

/-! ### What the bytes determine -/

lemma perm_sortedVals (vset : ValidatorSet) : vset.sortedVals.Perm vset.vals :=
  List.perm_insertionSort _ _

lemma entryBytes_append_inj {n : ℕ} {v w : Validator} {a b : List UInt8} (hv : v.pk.length = n)
    (hw : w.pk.length = n) (h : entryBytes v ++ a = entryBytes w ++ b) : v = w ∧ a = b := by
  unfold entryBytes at h
  rw [List.append_assoc, List.append_assoc] at h
  obtain ⟨hpk, hrest⟩ := List.append_inj h (hv.trans hw.symm)
  obtain ⟨hpower, hrest⟩ := List.append_inj hrest (by simp)
  refine ⟨?_, hrest⟩
  obtain ⟨pk, power⟩ := v
  obtain ⟨pk', power'⟩ := w
  obtain rfl : pk = pk' := hpk
  obtain rfl : power = power' := Bytes.ofU64_injective hpower
  rfl

lemma entryBytes_ne_nil (v : Validator) : entryBytes v ≠ [] := by
  intro h
  have hlen := congrArg List.length h
  simp [entryBytes] at hlen

lemma hashPreimage_eq_iff {n : ℕ} (hnodup : (s.vals.map Validator.pk).Nodup)
    (hs : ∀ v ∈ s.vals, v.pk.length = n) (ht : ∀ v ∈ t.vals, v.pk.length = n) :
    s.hashPreimage = t.hashPreimage ↔ s.vals.Perm t.vals := by
  constructor
  · intro h
    unfold hashPreimage at h
    obtain ⟨_, hentries⟩ := List.append_inj h (by simp)
    have hsorted : s.sortedVals = t.sortedVals := by
      refine Grouping.flatMap_inj (D := fun v => v.pk.length = n)
        (fun v w a b hv hw heq => entryBytes_append_inj hv hw heq)
        (fun v _ => entryBytes_ne_nil v) (fun v hv => hs v ?_) (fun v hv => ht v ?_) hentries
      · exact s.perm_sortedVals.mem_iff.mp hv
      · exact t.perm_sortedVals.mem_iff.mp hv
    exact (hsorted ▸ s.perm_sortedVals.symm).trans t.perm_sortedVals
  · intro hperm
    have hsorted : s.sortedVals = t.sortedVals :=
      Grouping.insertionSort_congr Validator.pk hperm (List.inj_on_of_nodup_map hnodup)
    rw [hashPreimage, hsorted, ← hashPreimage]

/-! ### What a permutation keeps -/

lemma totalPower_of_perm (h : s.vals.Perm t.vals) : s.totalPower = t.totalPower := by
  have hpower : s.power = t.power := (h.map _).sum_eq
  refine UInt64.toNat_inj.mp ?_
  rw [toNat_totalPower, toNat_totalPower, hpower]

lemma powerOf_of_notMem {pk : PublicKeyBytes} (h : ∀ v ∈ s.vals, v.pk ≠ pk) :
    s.powerOf pk = 0 := by
  have hnone : (s.vals.find? fun v => v.pk = pk) = none := by
    rw [List.find?_eq_none]
    intro v hv
    simpa using h v hv
  rw [powerOf, hnone]
  rfl

lemma powerOf_of_perm (h : s.vals.Perm t.vals) (hnodup : (s.vals.map Validator.pk).Nodup)
    (pk : PublicKeyBytes) : s.powerOf pk = t.powerOf pk := by
  have hnodup' : (t.vals.map Validator.pk).Nodup := (h.map _).nodup_iff.mp hnodup
  by_cases hmem : ∃ v ∈ s.vals, v.pk = pk
  · obtain ⟨v, hv, rfl⟩ := hmem
    rw [powerOf_of_mem hnodup hv, powerOf_of_mem hnodup' (h.mem_iff.mp hv)]
  · have hs : ∀ v ∈ s.vals, v.pk ≠ pk := fun v hv heq => hmem ⟨v, hv, heq⟩
    rw [powerOf_of_notMem hs, powerOf_of_notMem fun v hv => hs v (h.mem_iff.mpr hv)]

lemma proposerFor_of_lt {i : ℕ} (hi : i < s.vals.length) (hlen : s.vals.length ≤ Machine.u64Max) :
    s.proposerFor (.ofNat i) 0 = s.vals[i]? := by
  have hindex :
      ((UInt64.ofNat i + (0 : UInt32).toUInt64) % UInt64.ofNat s.vals.length).toNat = i := by
    rw [UInt64.toNat_mod, Machine.toNat_ofNat hlen]
    have hzero : UInt64.ofNat i + (0 : UInt32).toUInt64 = UInt64.ofNat i := UInt64.add_zero _
    rw [hzero, Machine.toNat_ofNat (by omega), Nat.mod_eq_of_lt hi]
  rw [proposerFor, hindex]

lemma proposerFor_eq_iff (h : s.vals.length = t.vals.length)
    (hlen : s.vals.length ≤ Machine.u64Max) :
    (∀ height round, s.proposerFor height round = t.proposerFor height round) ↔
      s.vals = t.vals := by
  constructor
  · intro hprop
    refine List.ext_getElem? fun i => ?_
    by_cases hi : i < s.vals.length
    · rw [← proposerFor_of_lt hi hlen, hprop, proposerFor_of_lt (h ▸ hi) (h ▸ hlen)]
    · rw [List.getElem?_eq_none (not_lt.mp hi), List.getElem?_eq_none (h ▸ not_lt.mp hi)]
  · intro hvals height round
    rw [proposerFor, proposerFor, hvals]

end ValidatorSet

/-- **What the hash determines**: the powers of all keys and the threshold, and the proposers
exactly if the two sets list their validators in one order. -/
theorem hash_determines {vals : List Validator} {maxSize n : ℕ} {s t : ValidatorSet}
    (hs : ValidatorSet.new vals maxSize = .ok s) (hlen : s.vals.length ≤ Machine.u64Max)
    (hns : ∀ v ∈ s.vals, v.pk.length = n) (hnt : ∀ v ∈ t.vals, v.pk.length = n)
    (h : s.hashPreimage = t.hashPreimage) :
    s.totalPower = t.totalPower ∧ (∀ pk, s.powerOf pk = t.powerOf pk) ∧
      s.quorumThreshold = t.quorumThreshold ∧
      ((∀ height round, s.proposerFor height round = t.proposerFor height round) ↔
        s.vals = t.vals) := by
  have hnodup := ValidatorSet.nodup_of_new hs
  have hperm := (ValidatorSet.hashPreimage_eq_iff hnodup hns hnt).mp h
  have htotal := ValidatorSet.totalPower_of_perm hperm
  refine ⟨htotal, ValidatorSet.powerOf_of_perm hperm hnodup, ?_,
    ValidatorSet.proposerFor_eq_iff hperm.length_eq hlen⟩
  rw [ValidatorSet.quorumThreshold, htotal, ← ValidatorSet.quorumThreshold]

def rotation : ValidatorSet := ⟨[⟨[1], 5⟩, ⟨[2], 7⟩]⟩

def swapped : ValidatorSet := ⟨[⟨[2], 7⟩, ⟨[1], 5⟩]⟩

theorem hash_determines_rotation :
    rotation.hashPreimage = swapped.hashPreimage ∧ rotation.totalPower = swapped.totalPower ∧
      (∀ pk, rotation.powerOf pk = swapped.powerOf pk) ∧
      ¬ ∀ height round, rotation.proposerFor height round = swapped.proposerFor height round := by
  have hpre : rotation.hashPreimage = swapped.hashPreimage := by decide +kernel
  have hres := hash_determines (n := 1) (show ValidatorSet.new rotation.vals 100 = .ok rotation by
    decide +kernel) (by decide) (by decide) (by decide) hpre
  exact ⟨hpre, hres.1, hres.2.1, fun hprop => absurd (hres.2.2.2.mp hprop) (by decide)⟩

/-- The two are hashed alike, and the first proposer is another one. -/
theorem proposers_not_determined :
    ValidatorSet.new rotation.vals 100 = .ok rotation ∧
      ValidatorSet.new swapped.vals 100 = .ok swapped ∧
      rotation.hashPreimage = swapped.hashPreimage ∧
      rotation.proposerFor 0 0 ≠ swapped.proposerFor 0 0 := by
  decide +kernel

end Iona
