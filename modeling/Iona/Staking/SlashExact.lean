import Iona.Staking.Bond

/-!
# What a slash takes

From `economics/staking.rs`.
-/

namespace Iona

/-! ### The arithmetic -/

def checkedMul128 (a b : ℕ) : Option ℕ := if a * b ≤ u128Max then some (a * b) else none

def mulDivBpsChecked (a : ℕ) (bps : UInt64) : Option ℕ := do
  let b := bps.toNat
  let c := maxBps.toNat
  let high ← checkedMul128 (a / c) b
  let low ← checkedMul128 (a % c) b
  checkedAdd128 high (low / c)

variable {bps : UInt64}

lemma mulDivBpsChecked_eq {a : ℕ} (ha : a ≤ u128Max) (hbps : bps ≤ maxBps) :
    mulDivBpsChecked a bps = some (cut bps a) := by
  have hc : maxBps.toNat = 10000 := rfl
  have hb : bps.toNat ≤ 10000 := hbps
  have hhigh : a / 10000 * bps.toNat ≤ u128Max := by
    calc a / 10000 * bps.toNat ≤ a / 10000 * 10000 := Nat.mul_le_mul_left _ hb
      _ ≤ a := Nat.div_mul_le_self a 10000
      _ ≤ u128Max := ha
  have hlow : a % 10000 * bps.toNat ≤ u128Max := by
    have hmod : a % 10000 ≤ 10000 := (Nat.mod_lt a (by decide)).le
    exact (Nat.mul_le_mul hmod hb).trans (by decide)
  have hsum : a / 10000 * bps.toNat + a % 10000 * bps.toNat / 10000 = cut bps a :=
    mulDivBps_eq_cut a bps
  simp only [mulDivBpsChecked, hc, checkedMul128, if_pos hhigh, if_pos hlow, Option.bind_eq_bind,
    Option.bind_some, checkedAdd128, hsum]
  rw [if_pos ((cut_le hbps a).trans ha)]

/-! ### When a slash succeeds -/

namespace StakingState

variable {s s' : StakingState} {validator : String} {bps : UInt64}

def Slashable (s : StakingState) (validator : String) (bps : UInt64) : Prop :=
  ∃ v, s.validators[validator]? = some v ∧
    cut bps v.selfStake + s.bondedCuts validator bps ≤ v.totalStake ∧
    cut bps v.selfStake + s.bondedCuts validator bps + s.pendingCuts validator bps ≤ u128Max

def afterSlash (s : StakingState) (validator : String) (bps : UInt64) (v : EconValidator) :
    StakingState :=
  { s with
    validators := s.validators.insert validator
      { v with
        selfStake := v.selfStake - cut bps v.selfStake
        totalStake := v.totalStake - (cut bps v.selfStake + s.bondedCuts validator bps)
        jailed := true }
    delegations := s.slashDelegations validator bps }

lemma slash_eq_ok_iff (hbps : bps ≤ maxBps) {out : SlashOutcome} :
    s.slash validator bps = some (.ok out, s') ↔
      ∃ v, s.validators[validator]? = some v ∧
        cut bps v.selfStake + s.bondedCuts validator bps ≤ v.totalStake ∧
        cut bps v.selfStake + s.bondedCuts validator bps + s.pendingCuts validator bps ≤ u128Max ∧
        out = ⟨validator, bps, cut bps v.selfStake, s.bondedCuts validator bps,
          s.pendingCuts validator bps,
          cut bps v.selfStake + s.bondedCuts validator bps + s.pendingCuts validator bps, true⟩ ∧
        s' = s.afterSlash validator bps v := by
  have hrange : ¬ bps > maxBps := UInt64.not_lt.mpr hbps
  unfold slash
  rw [if_neg hrange]
  cases hv : s.validators[validator]? with
  | none => simp
  | some v =>
    simp only [slashedDelegations_toList, Option.some.injEq, exists_eq_left', mulDivBps_eq_cut]
    by_cases hfit : s.bondedCuts validator bps ≤ u128Max ∧ s.pendingCuts validator bps ≤ u128Max
    · simp only [if_pos hfit, Option.bind_eq_bind, Option.bind_some, Option.pure_def]
      by_cases hbond : cut bps v.selfStake + s.bondedCuts validator bps ≤ u128Max
      · simp only [checkedAdd128_of_le hbond]
        by_cases hshort : v.totalStake < cut bps v.selfStake + s.bondedCuts validator bps
        · simp only [if_pos hshort, Option.some.injEq, Prod.mk.injEq, reduceCtorEq, false_and,
            false_iff]
          omega
        · simp only [if_neg hshort]
          by_cases htotal : cut bps v.selfStake + s.bondedCuts validator bps +
              s.pendingCuts validator bps ≤ u128Max
          · simp only [checkedAdd128_of_le htotal, Option.some.injEq, Prod.mk.injEq,
              Except.ok.injEq, MapSum.insert_insert, not_lt.mp hshort, htotal, true_and]
            rw [eq_comm, eq_comm (b := s')]
            rfl
          · simp [checkedAdd128_of_lt (not_le.mp htotal), htotal]
      · simp only [checkedAdd128_of_lt (not_le.mp hbond), Option.some.injEq, Prod.mk.injEq,
          reduceCtorEq, false_and, false_iff]
        omega
    · simp only [if_neg hfit, Option.bind_eq_bind, Option.bind_none, reduceCtorEq, false_iff]
      omega

end StakingState

/-! ### Exactness -/

structure StakingState.Ranged (s : StakingState) : Prop where
  validators : ∀ (addr : String) (v : EconValidator), s.validators[addr]? = some v →
    v.selfStake ≤ u128Max ∧ v.totalStake ≤ u128Max
  delegations : ∀ (key : String × String) (d : Delegation), s.delegations[key]? = some d →
    d.amount ≤ u128Max ∧ ∀ entry ∈ d.unbondings, entry.amount ≤ u128Max

def CutBy (bps : UInt64) (before after : ℕ) : Prop :=
  mulDivBpsChecked before bps = some (cut bps before) ∧ after + cut bps before = before

structure UnbondingEntry.CutBy (bps : UInt64) (before after : UnbondingEntry) : Prop where
  id : after.id = before.id
  unlockEpoch : after.unlockEpoch = before.unlockEpoch
  amount : Iona.CutBy bps before.amount after.amount

structure SlashedExactly (validator : String) (bps : UInt64) (s : StakingState) (v : EconValidator)
    (out : SlashOutcome) (s' : StakingState) (v' : EconValidator) : Prop where
  selfStake : CutBy bps v.selfStake v'.selfStake
  bonded : ∀ (delegator : String) (d : Delegation),
    s.delegations[(delegator, validator)]? = some d →
    ∃ d' : Delegation, s'.delegations[(delegator, validator)]? = some d' ∧
      CutBy bps d.amount d'.amount ∧
      List.Forall₂ (UnbondingEntry.CutBy bps) d.unbondings d'.unbondings
  reported : out.totalSlashed =
    cut bps v.selfStake + s.bondedCuts validator bps + s.pendingCuts validator bps
  total : v.totalStake = v.selfStake + delegatedTo s.delegations validator →
    v'.totalStake = v'.selfStake + delegatedTo s'.delegations validator
  noMore : ∀ delegator : String, s.delegations[(delegator, validator)]? = none →
    s'.delegations[(delegator, validator)]? = none
  otherValidators : ∀ addr : String, addr ≠ validator → s'.validators[addr]? = s.validators[addr]?
  otherDelegations : ∀ key : String × String, key.2 ≠ validator →
    s'.delegations[key]? = s.delegations[key]?

def SlashExact (s : StakingState) (validator : String) (bps : UInt64) : Prop :=
  ∃ v out s' v', s.validators[validator]? = some v ∧ s'.validators[validator]? = some v' ∧
    s.slash validator bps = some (.ok out, s') ∧ SlashedExactly validator bps s v out s' v'

lemma CutBy.of_le (hbps : bps ≤ maxBps) {a : ℕ} (ha : a ≤ u128Max) :
    CutBy bps a (a - cut bps a) :=
  ⟨mulDivBpsChecked_eq ha hbps, Nat.sub_add_cancel (cut_le hbps a)⟩

lemma forall₂_cutBy_slash (hbps : bps ≤ maxBps) {entries : List UnbondingEntry}
    (h : ∀ entry ∈ entries, entry.amount ≤ u128Max) :
    List.Forall₂ (UnbondingEntry.CutBy bps) entries (entries.map (·.slash bps)) := by
  rw [List.forall₂_map_right_iff, List.forall₂_same]
  intro entry hmem
  refine ⟨rfl, rfl, ?_⟩
  rw [UnbondingEntry.slash, mulDivBps_eq_cut]
  exact CutBy.of_le hbps (h entry hmem)

namespace StakingState

variable {s : StakingState} {validator : String} {bps : UInt64} {v : EconValidator}

lemma slashDelegations_self (s : StakingState) (delegator validator : String) (bps : UInt64) :
    (s.slashDelegations validator bps)[(delegator, validator)]? =
      s.delegations[(delegator, validator)]?.map (·.slash bps) := by
  rw [slashDelegations, Std.ExtTreeMap.getElem?_map]
  simp

lemma slashDelegations_of_ne (s : StakingState) (bps : UInt64) {key : String × String}
    (h : key.2 ≠ validator) :
    (s.slashDelegations validator bps)[key]? = s.delegations[key]? := by
  rw [slashDelegations, Std.ExtTreeMap.getElem?_map]
  simp [h]

lemma slashedExactly_afterSlash (hs : s.Ranged) (hbps : bps ≤ maxBps)
    (hv : s.validators[validator]? = some v) {out : SlashOutcome}
    (hout : out.totalSlashed =
      cut bps v.selfStake + s.bondedCuts validator bps + s.pendingCuts validator bps) :
    SlashedExactly validator bps s v out (s.afterSlash validator bps v)
      { v with
        selfStake := v.selfStake - cut bps v.selfStake
        totalStake := v.totalStake - (cut bps v.selfStake + s.bondedCuts validator bps)
        jailed := true } where
  selfStake := CutBy.of_le hbps (hs.validators validator v hv).1
  bonded := by
    intro delegator d hd
    have hrange := hs.delegations (delegator, validator) d hd
    refine ⟨d.slash bps, ?_, ?_, forall₂_cutBy_slash hbps hrange.2⟩
    · rw [afterSlash, slashDelegations_self, hd]
      rfl
    · rw [Delegation.slash, mulDivBps_eq_cut]
      exact CutBy.of_le hbps hrange.1
  reported := hout
  total := by
    intro htotal
    have hcut := delegatedTo_slashDelegations s validator hbps
    have hself := cut_le hbps v.selfStake
    simp only [afterSlash]
    omega
  noMore := by
    intro delegator hd
    rw [afterSlash, slashDelegations_self, hd]
    rfl
  otherValidators := by
    intro addr hne
    rw [afterSlash, MapSum.getElem?_insert_ite, if_neg hne]
  otherDelegations := fun key hne => slashDelegations_of_ne s bps hne

end StakingState

/-- **A slash of at most everything is exact if and only if** the validator is registered, its total
covers the cut of its bond, and the sum of all cuts is a `u128`. -/
theorem slashExact_iff (s : StakingState) (hs : s.Ranged) (validator : String) (bps : UInt64)
    (hbps : bps ≤ maxBps) : SlashExact s validator bps ↔ s.Slashable validator bps := by
  constructor
  · rintro ⟨_, out, s', _, _, _, hslash, _⟩
    obtain ⟨v, hv, hcover, hfit, _, _⟩ := (StakingState.slash_eq_ok_iff hbps).mp hslash
    exact ⟨v, hv, hcover, hfit⟩
  · rintro ⟨v, hv, hcover, hfit⟩
    refine ⟨v, _, _, _, hv, ?_, (StakingState.slash_eq_ok_iff hbps).mpr
      ⟨v, hv, hcover, hfit, rfl, rfl⟩, StakingState.slashedExactly_afterSlash hs hbps hv rfl⟩
    rw [StakingState.afterSlash, Std.ExtTreeMap.getElem?_insert_self]

def twoLeaving (amount : ℕ) : StakingState where
  validators := (∅ : BTreeMap String EconValidator).insert "val" ⟨"val", 15001, 35002, false, 500⟩
  delegations := ((∅ : BTreeMap (String × String) Delegation).insert ("a", "val")
    ⟨20001, [⟨1, amount, 9⟩]⟩).insert ("b", "val") ⟨0, [⟨2, amount, 9⟩]⟩
  nextUnbondingId := 3

lemma twoLeaving_ranged {amount : ℕ} (h : amount ≤ u128Max) : (twoLeaving amount).Ranged where
  validators := by
    intro addr v hv
    rcases MapSum.getElem?_insert_eq_some_iff.mp hv with ⟨_, rfl⟩ | ⟨_, hv⟩
    · decide
    · simp at hv
  delegations := by
    intro key d hd
    rcases MapSum.getElem?_insert_eq_some_iff.mp hd with ⟨_, rfl⟩ | ⟨_, hd⟩
    · exact ⟨Nat.zero_le _, fun entry hmem => List.mem_singleton.mp hmem ▸ h⟩
    rcases MapSum.getElem?_insert_eq_some_iff.mp hd with ⟨_, rfl⟩ | ⟨_, hd⟩
    · have hbond : 20001 ≤ u128Max := by decide
      exact ⟨hbond, fun entry hmem => List.mem_singleton.mp hmem ▸ h⟩
    · simp at hd

theorem slashExact_twoLeaving : SlashExact (twoLeaving 7001) "val" 500 :=
  (slashExact_iff (twoLeaving 7001) (twoLeaving_ranged (by decide)) "val" 500 (by decide)).mpr
    ⟨⟨"val", 15001, 35002, false, 500⟩, by decide +kernel⟩

/-- Two pending amounts that are each a `u128`, and whose sum is not: the node stops. -/
theorem slash_overflows : (twoLeaving u128Max).Ranged ∧
    (twoLeaving u128Max).slash "val" maxBps = none ∧
    ¬ SlashExact (twoLeaving u128Max) "val" maxBps := by
  have hnone : (twoLeaving u128Max).slash "val" maxBps = none := by decide +kernel
  refine ⟨twoLeaving_ranged le_rfl, hnone, ?_⟩
  rintro ⟨_, _, _, _, _, _, hslash, _⟩
  rw [hnone] at hslash
  cases hslash

end Iona
