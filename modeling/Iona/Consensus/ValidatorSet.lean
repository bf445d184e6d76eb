import Iona.Types
import Iona.Lib.Machine
import Iona.Lib.VoteLog

/-!
# Validator sets

From `consensus/validator_set.rs` and `consensus/quorum.rs`.
-/

namespace Iona

structure Validator where
  pk : PublicKeyBytes
  power : UInt64
  deriving DecidableEq

structure ValidatorSet where
  vals : List Validator
  deriving DecidableEq

namespace ValidatorSet

variable (vset : ValidatorSet)

def totalPower : UInt64 := vset.vals.foldl (fun acc v => Machine.satAdd acc v.power) 0

def powerOf (pk : PublicKeyBytes) : UInt64 :=
  ((vset.vals.find? fun v => v.pk = pk).map Validator.power).getD 0

def contains (pk : PublicKeyBytes) : Bool := vset.powerOf pk > 0

/-- `proposer_for`: round robin; an empty set panics. -/
def proposerFor (height : Height) (round : Round) : Option Validator :=
  vset.vals[((height + round.toUInt64) % UInt64.ofNat vset.vals.length).toNat]?

def power : ℕ := (vset.vals.map fun v => v.power.toNat).sum

def powerWhere (p : PublicKeyBytes → Bool) : ℕ :=
  ((vset.vals.filter fun v => p v.pk).map fun v => v.power.toNat).sum

end ValidatorSet

def quorumThreshold (totalPower : UInt64) : Option UInt64 :=
  if totalPower = 0 then some 1
  else do
    let doubled ← Machine.checked (totalPower.toNat * 2)
    Machine.checked (doubled.toNat / 3 + 1)

lemma quorumThreshold_eq_some {total q : UInt64} (h : quorumThreshold total = some q) :
    q.toNat = total.toNat * 2 / 3 + 1 := by
  unfold quorumThreshold at h
  split at h
  · rename_i hzero
    cases h
    rw [hzero]
    rfl
  · obtain ⟨doubled, hdoubled, hq⟩ := Option.bind_eq_some_iff.mp h
    rw [Machine.checked_eq_some_iff.mp hq, Machine.checked_eq_some_iff.mp hdoubled]

namespace ValidatorSet

variable {vset : ValidatorSet}

lemma toNat_totalPower (vset : ValidatorSet) :
    vset.totalPower.toNat = min vset.power Machine.u64Max := by
  simpa [totalPower, power] using Machine.toNat_foldl_satAdd Validator.power vset.vals 0

lemma sum_powerOf_le (vset : ValidatorSet) (Q : Finset PublicKeyBytes) :
    ∑ pk ∈ Q, (vset.powerOf pk).toNat ≤ vset.powerWhere (· ∈ Q) := by
  obtain ⟨vals⟩ := vset
  induction vals generalizing Q with
  | nil => simp [powerOf, powerWhere]
  | cons v vals ih =>
    have hne : ∀ pk, pk ≠ v.pk → powerOf ⟨v :: vals⟩ pk = powerOf ⟨vals⟩ pk := by
      intro pk hpk
      simp [powerOf, Ne.symm hpk]
    by_cases hv : v.pk ∈ Q
    · have hself : powerOf ⟨v :: vals⟩ v.pk = v.power := by simp [powerOf]
      have hrest : ∑ pk ∈ Q.erase v.pk, (powerOf ⟨v :: vals⟩ pk).toNat
          = ∑ pk ∈ Q.erase v.pk, (powerOf ⟨vals⟩ pk).toNat :=
        Finset.sum_congr rfl fun pk hpk => by rw [hne pk (Finset.ne_of_mem_erase hpk)]
      have herase : ∑ pk ∈ Q.erase v.pk, (powerOf ⟨vals⟩ pk).toNat
          ≤ ∑ pk ∈ Q, (powerOf ⟨vals⟩ pk).toNat :=
        Finset.sum_le_sum_of_subset (Finset.erase_subset _ _)
      rw [← Finset.add_sum_erase Q _ hv, hself, hrest]
      have := ih Q
      simp only [powerWhere, List.filter_cons, hv, decide_true, if_true, List.map_cons,
        List.sum_cons] at this ⊢
      omega
    · have hsame : ∑ pk ∈ Q, (powerOf ⟨v :: vals⟩ pk).toNat
          = ∑ pk ∈ Q, (powerOf ⟨vals⟩ pk).toNat :=
        Finset.sum_congr rfl fun pk hpk => by rw [hne pk fun h => hv (h ▸ hpk)]
      rw [hsame]
      simpa [powerWhere, List.filter_cons, hv] using ih Q

lemma powerWhere_mono (vset : ValidatorSet) {p q : PublicKeyBytes → Bool}
    (h : ∀ pk, p pk = true → q pk = true) : vset.powerWhere p ≤ vset.powerWhere q := by
  unfold powerWhere
  refine ((List.monotone_filter_right vset.vals fun v hv => h v.pk hv).map _).sum_le_sum ?_
  simp

lemma powerWhere_le_power (vset : ValidatorSet) (p : PublicKeyBytes → Bool) :
    vset.powerWhere p ≤ vset.power := by
  have h := vset.powerWhere_mono (p := p) (q := fun _ => true) fun _ _ => rfl
  simpa [powerWhere, power] using h

def quorumSystem (vset : ValidatorSet) (faulty : Finset PublicKeyBytes)
    (hfaulty : 3 * vset.powerWhere (· ∈ faulty) < vset.power) :
    VoteLog.System PublicKeyBytes where
  members := (vset.vals.map Validator.pk).toFinset
  weight pk := (vset.powerOf pk).toNat
  faulty := faulty
  threshold := vset.power * 2 / 3 + 1
  intersect := by
    have hall := (vset.sum_powerOf_le (vset.vals.map Validator.pk).toFinset).trans
      (vset.powerWhere_le_power _)
    have hbad := (vset.sum_powerOf_le ((vset.vals.map Validator.pk).toFinset ∩ faulty)).trans
      (vset.powerWhere_mono (q := (· ∈ faulty)) fun pk hpk =>
        decide_eq_true (Finset.mem_inter.mp (of_decide_eq_true hpk)).2)
    omega

lemma mem_of_contains {pk : PublicKeyBytes} (h : vset.contains pk = true) :
    pk ∈ (vset.vals.map Validator.pk).toFinset := by
  unfold contains powerOf at h
  cases hfind : vset.vals.find? fun v => v.pk = pk with
  | none => simp [hfind] at h
  | some v =>
    rw [List.mem_toFinset, List.mem_map]
    exact ⟨v, List.mem_of_find?_eq_some hfind, by simpa using List.find?_some hfind⟩

end ValidatorSet

end Iona
