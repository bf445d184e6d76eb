import Iona.Consensus.ValidatorSet

/-! # Quorum intersection -/

namespace Iona

open Machine List

inductive ValidatorSetError where
  | emptySet
  | duplicatePublicKey (key : String)
  | zeroPower
  | tooLarge (count max : ℕ)
  deriving DecidableEq

def checkValidators (seen : List String) : List Validator → Except ValidatorSetError Unit
  | [] => .ok ()
  | v :: vals =>
    if v.power = 0 then .error .zeroPower
    else
      let key := Bytes.hexEncode v.pk
      if key ∈ seen then .error (.duplicatePublicKey key)
      else checkValidators (key :: seen) vals

namespace ValidatorSet

def new (vals : List Validator) (maxSize : ℕ) : Except ValidatorSetError ValidatorSet :=
  if vals.isEmpty then .error .emptySet
  else if maxSize < vals.length then .error (.tooLarge vals.length maxSize)
  else match checkValidators [] vals with
    | .error e => .error e
    | .ok () => .ok ⟨vals⟩

def quorumThreshold (vset : ValidatorSet) : UInt64 :=
  satAdd (satMul vset.totalPower 2 / 3) 1

def members (vset : ValidatorSet) : Finset PublicKeyBytes := (vset.vals.map Validator.pk).toFinset

def weigh (vset : ValidatorSet) (keys : Finset PublicKeyBytes) : ℕ :=
  ∑ pk ∈ keys, (vset.powerOf pk).toNat

/-! ### Validated sets -/

variable {vset : ValidatorSet} {vals : List Validator}

lemma nodup_of_checkValidators {seen : List String} (h : checkValidators seen vals = .ok ()) :
    (vals.map Validator.pk).Nodup ∧ ∀ v ∈ vals, Bytes.hexEncode v.pk ∉ seen := by
  induction vals generalizing seen with
  | nil => exact ⟨nodup_nil, by simp⟩
  | cons v vals ih =>
    rw [checkValidators] at h
    split at h
    · cases h
    simp only at h
    split at h
    · cases h
    rename_i hfresh
    obtain ⟨hnodup, hunseen⟩ := ih h
    refine ⟨nodup_cons.mpr ⟨fun hmem => ?_, hnodup⟩, fun w hw => ?_⟩
    · obtain ⟨w, hw, hpk⟩ := mem_map.mp hmem
      exact hunseen w hw (by rw [hpk]; exact mem_cons_self)
    · rcases mem_cons.mp hw with rfl | hw
      · exact hfresh
      · exact fun hmem => hunseen w hw (mem_cons_of_mem _ hmem)

lemma nodup_of_new {maxSize : ℕ} (h : new vals maxSize = .ok vset) :
    (vset.vals.map Validator.pk).Nodup := by
  unfold new at h
  split at h
  · cases h
  split at h
  · cases h
  split at h
  · cases h
  rename_i hcheck
  cases h
  exact (nodup_of_checkValidators hcheck).1

lemma powerOf_of_mem (h : (vset.vals.map Validator.pk).Nodup) {v : Validator} (hv : v ∈ vset.vals) :
    vset.powerOf v.pk = v.power := by
  have hfind : (vset.vals.find? fun w => w.pk = v.pk) = some v := by
    rw [find?_eq_some_iff_append]
    refine ⟨by simp, ?_⟩
    obtain ⟨pre, post, hsplit⟩ := append_of_mem hv
    refine ⟨pre, post, hsplit, fun w hw => ?_⟩
    rw [hsplit, map_append, map_cons] at h
    have hne := (nodup_append.mp h).2.2 w.pk (mem_map_of_mem hw) v.pk mem_cons_self
    simpa using hne
  rw [powerOf, hfind]
  rfl

lemma weigh_members (h : (vset.vals.map Validator.pk).Nodup) :
    vset.weigh vset.members = vset.power := by
  rw [weigh, members, sum_toFinset _ h, map_map, power]
  refine congrArg List.sum (map_congr_left fun v hv => ?_)
  rw [Function.comp_apply, powerOf_of_mem h hv]

/-! ### Two quorums -/

lemma weigh_add (vset : ValidatorSet) (S T : Finset PublicKeyBytes) :
    vset.weigh (S ∪ T) + vset.weigh (S ∩ T) = vset.weigh S + vset.weigh T :=
  Finset.sum_union_inter

lemma weigh_mono (vset : ValidatorSet) {S T : Finset PublicKeyBytes} (h : S ⊆ T) :
    vset.weigh S ≤ vset.weigh T :=
  Finset.sum_le_sum_of_subset h

lemma toNat_quorumThreshold (vset : ValidatorSet) :
    vset.quorumThreshold.toNat = min (vset.totalPower.toNat * 2) u64Max / 3 + 1 := by
  have htwo : (2 : UInt64).toNat = 2 := rfl
  have hthree : (3 : UInt64).toNat = 3 := rfl
  have hone : (1 : UInt64).toNat = 1 := rfl
  have hmax : u64Max / 3 + 1 ≤ u64Max := by decide
  rw [quorumThreshold, toNat_satAdd, UInt64.toNat_div, toNat_satMul, htwo, hthree,
    hone]
  omega

lemma weigh_inter {S T : Finset PublicKeyBytes} {q : ℕ}
    (hq : q = vset.weigh vset.members * 2 / 3 + 1) (hS : S ⊆ vset.members) (hT : T ⊆ vset.members)
    (hqS : q ≤ vset.weigh S) (hqT : q ≤ vset.weigh T) :
    vset.weigh vset.members < 3 * vset.weigh (S ∩ T) := by
  have hunion := vset.weigh_mono (Finset.union_subset hS hT)
  have hadd := vset.weigh_add S T
  omega

end ValidatorSet

lemma quorumThreshold_agrees_iff (vset : ValidatorSet) :
    quorumThreshold vset.totalPower = some vset.quorumThreshold ↔
      vset.totalPower.toNat * 2 ≤ u64Max := by
  have hsat := vset.toNat_quorumThreshold
  constructor
  · intro h
    unfold quorumThreshold at h
    split at h
    · rename_i hzero
      rw [hzero]
      decide
    · obtain ⟨doubled, hdoubled, _⟩ := Option.bind_eq_some_iff.mp h
      rw [← checked_eq_some_iff.mp hdoubled]
      exact toNat_le doubled
  · intro hfit
    unfold quorumThreshold
    split
    · rename_i hzero
      refine congrArg some (UInt64.toNat_inj.mp ?_)
      rw [hsat, hzero]
      decide
    · have hdoubled : checked (vset.totalPower.toNat * 2) =
          some (.ofNat (vset.totalPower.toNat * 2)) := if_pos hfit
      rw [hdoubled, Option.bind_eq_bind, Option.bind_some, toNat_ofNat hfit,
        checked_eq_some_iff, hsat, Nat.min_eq_left hfit]

/-- **Quorum intersection**: any two quorums share more than a third of the power exactly if twice
the total power fits in `u64`. -/
theorem quorum_intersection_iff {vals : List Validator} {maxSize : ℕ} {vset : ValidatorSet}
    (h : ValidatorSet.new vals maxSize = .ok vset) :
    ((∀ S T, S ⊆ vset.members → T ⊆ vset.members →
        vset.quorumThreshold.toNat ≤ vset.weigh S → vset.quorumThreshold.toNat ≤ vset.weigh T →
        vset.weigh vset.members < 3 * vset.weigh (S ∩ T)) ∧
      quorumThreshold vset.totalPower = some vset.quorumThreshold) ↔
      2 * vset.weigh vset.members ≤ u64Max := by
  have hweigh := ValidatorSet.weigh_members (ValidatorSet.nodup_of_new h)
  have htotal := ValidatorSet.toNat_totalPower vset
  constructor
  · rintro ⟨_, hagree⟩
    have hfit := (quorumThreshold_agrees_iff vset).mp hagree
    have hmax : 0 < u64Max := by decide
    omega
  · intro hfit
    refine ⟨fun S T hS hT hqS hqT => ValidatorSet.weigh_inter ?_ hS hT hqS hqT,
      (quorumThreshold_agrees_iff vset).mpr (by omega)⟩
    rw [ValidatorSet.toNat_quorumThreshold]
    omega

def heavyPair : ValidatorSet := ⟨[⟨[1], 0x8000000000000000⟩, ⟨[2], 0x8000000000000000⟩]⟩

/-- Each of them alone is a quorum, and the other threshold is not defined. -/
theorem disjoint_quorums :
    ValidatorSet.new heavyPair.vals 100 = .ok heavyPair ∧
      heavyPair.quorumThreshold.toNat ≤ heavyPair.weigh {[1]} ∧
      heavyPair.quorumThreshold.toNat ≤ heavyPair.weigh {[2]} ∧
      heavyPair.weigh ({[1]} ∩ {[2]}) = 0 ∧
      quorumThreshold heavyPair.totalPower = none := by
  decide +kernel

def evenSet : ValidatorSet := ⟨[⟨[1], 5⟩, ⟨[2], 5⟩, ⟨[3], 5⟩, ⟨[4], 5⟩]⟩

theorem quorum_intersection_even :
    ((∀ S T, S ⊆ evenSet.members → T ⊆ evenSet.members →
        evenSet.quorumThreshold.toNat ≤ evenSet.weigh S →
        evenSet.quorumThreshold.toNat ≤ evenSet.weigh T →
        evenSet.weigh evenSet.members < 3 * evenSet.weigh (S ∩ T)) ∧
      quorumThreshold evenSet.totalPower = some evenSet.quorumThreshold) ↔
      2 * evenSet.weigh evenSet.members ≤ u64Max :=
  quorum_intersection_iff (show ValidatorSet.new evenSet.vals 100 = .ok evenSet by decide +kernel)

end Iona
