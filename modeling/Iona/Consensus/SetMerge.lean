import Iona.Consensus.SetHash
import Iona.Lib.MapDiff

/-!
# Merging and comparing validator sets

From `consensus/validator_set.rs`.
-/

namespace Iona

open List

open Std (ExtTreeMap ReflCmp LawfulEqCmp)

namespace ValidatorSet

def keys (vset : ValidatorSet) : List PublicKeyBytes := vset.vals.map Validator.pk

/-! ### The functions -/

def positions (vals : List Validator) : ExtTreeMap PublicKeyBytes ℕ :=
  (vals.zipIdx.map fun e => (e.1.pk, e.2)).foldl (fun index e => index.insert e.1 e.2) ∅

def mergeRound (acc : List Validator × ExtTreeMap PublicKeyBytes ℕ) (v : Validator) :
    Option (List Validator × ExtTreeMap PublicKeyBytes ℕ) :=
  match acc.2[v.pk]? with
  | some i => do
    let old ← acc.1[i]?
    some (acc.1.set i { old with power := v.power }, acc.2)
  | none => some (acc.1 ++ [v], acc.2.insert v.pk acc.1.length)

def merge (vset other : ValidatorSet) : Option ValidatorSet := do
  let acc ← other.vals.foldlM mergeRound (vset.vals, positions vset.vals)
  some ⟨acc.1⟩

def byKey (vals : List Validator) : ExtTreeMap PublicKeyBytes Validator :=
  (vals.map fun v => (v.pk, v)).foldl (fun index e => index.insert e.1 e.2) ∅

def diffRound (selfMap : ExtTreeMap PublicKeyBytes Validator)
    (acc : List Validator × List Validator) (v : Validator) : List Validator × List Validator :=
  match selfMap[v.pk]? with
  | none => (acc.1 ++ [v], acc.2)
  | some existing => if existing.power ≠ v.power then (acc.1, acc.2 ++ [v]) else acc

def diff (vset other : ValidatorSet) : List Validator × List Validator × List Validator :=
  let loop := other.vals.foldl (diffRound (byKey vset.vals)) ([], [])
  let removed := vset.vals.filter fun v => !other.keys.contains v.pk
  (loop.1, removed, loop.2)

/-! ### What `new` accepts -/

variable {vals : List Validator}

lemma checkValidators_eq_ok_iff {seen : List String} :
    checkValidators seen vals = .ok () ↔
      (vals.map Validator.pk).Nodup ∧ (∀ v ∈ vals, v.power ≠ 0) ∧
        ∀ v ∈ vals, Bytes.hexEncode v.pk ∉ seen := by
  induction vals generalizing seen with
  | nil => simp [checkValidators]
  | cons v vals ih =>
    rw [checkValidators]
    by_cases hpower : v.power = 0
    · simp [hpower]
    by_cases hseen : Bytes.hexEncode v.pk ∈ seen
    · simp [hpower, hseen]
    simp only [hpower, if_false, hseen, ih, map_cons, nodup_cons]
    rw [forall_mem_cons, forall_mem_cons]
    simp only [mem_cons, not_or]
    have hkeys : (∀ w ∈ vals, Bytes.hexEncode w.pk ≠ Bytes.hexEncode v.pk) ↔
        v.pk ∉ vals.map Validator.pk := by
      constructor
      · intro h hmem
        obtain ⟨w, hw, hpk⟩ := List.mem_map.mp hmem
        exact h w hw (by rw [hpk])
      · intro h w hw hhex
        exact h (List.mem_map.mpr ⟨w, hw, Bytes.hexEncode_injective hhex⟩)
    rw [← hkeys]
    constructor
    · rintro ⟨hnodup, hpowers, hfresh⟩
      exact ⟨⟨fun w hw => (hfresh w hw).1, hnodup⟩, ⟨hpower, hpowers⟩, hseen,
        fun w hw => (hfresh w hw).2⟩
    · rintro ⟨⟨hne, hnodup⟩, ⟨-, hpowers⟩, -, hfresh⟩
      exact ⟨hnodup, hpowers, fun w hw => ⟨hne w hw, hfresh w hw⟩⟩

lemma new_eq_ok_iff {maxSize : ℕ} {vset : ValidatorSet} :
    new vals maxSize = .ok vset ↔
      vset.vals = vals ∧ vals ≠ [] ∧ vals.length ≤ maxSize ∧ vset.keys.Nodup ∧
        ∀ v ∈ vset.vals, v.power ≠ 0 := by
  have hcheck := @checkValidators_eq_ok_iff vals []
  simp only [not_mem_nil, not_false_eq_true, implies_true, and_true] at hcheck
  unfold new
  by_cases hempty : vals = []
  · simp [hempty]
  by_cases hsize : maxSize < vals.length
  · simp [hempty, hsize]
  rw [if_neg (by simpa using hempty), if_neg hsize]
  constructor
  · intro h
    split at h
    · cases h
    rename_i hok
    cases h
    exact ⟨rfl, hempty, not_lt.mp hsize, hcheck.mp hok⟩
  · rintro ⟨rfl, _, _, hwf⟩
    rw [hcheck.mpr hwf]

/-! ### The loop of `merge` -/

structure Indexed (vals : List Validator) (index : ExtTreeMap PublicKeyBytes ℕ) : Prop where
  nodup : (vals.map Validator.pk).Nodup
  get : ∀ (pk : PublicKeyBytes) (i : ℕ), index[pk]? = some i ↔ (vals.map Validator.pk)[i]? = some pk

variable {vals : List Validator} {index : ExtTreeMap PublicKeyBytes ℕ}

lemma indexed_positions (h : (vals.map Validator.pk).Nodup) : Indexed vals (positions vals) := by
  have hmem : ∀ e, e ∈ (vals.zipIdx.map fun e => (e.1.pk, e.2)) ↔
      (vals.map Validator.pk)[e.2]? = some e.1 := by
    intro e
    simp only [List.mem_map, mk_mem_zipIdx_iff_getElem?, Prod.exists, getElem?_map,
      Option.map_eq_some_iff]
    constructor
    · rintro ⟨v, i, hv, rfl⟩
      exact ⟨v, hv, rfl⟩
    · rintro ⟨v, hv, hpk⟩
      exact ⟨v, e.2, hv, by rw [hpk]⟩
  have hpos : ∀ (pk : PublicKeyBytes) (i : ℕ), (vals.map Validator.pk)[i]? = some pk →
      (positions vals)[pk]? = some i := by
    intro pk i hi
    refine MapDiff.getElem?_insertAll_of_agree (fun e he hpk => ?_) (.inr ⟨(pk, i), (hmem _).mpr hi, rfl⟩)
    have hj := (hmem e).mp he
    rw [hpk] at hj
    exact (getElem?_inj (List.getElem?_eq_some_iff.mp hj).1 h).mp (hj.trans hi.symm)
  refine ⟨h, fun pk i => ⟨fun hi => ?_, hpos pk i⟩⟩
  by_cases hpk : pk ∈ vals.map Validator.pk
  · obtain ⟨j, hj⟩ := mem_iff_getElem?.mp hpk
    rw [hpos pk j hj] at hi
    cases hi
    exact hj
  · have hnone : (positions vals)[pk]? = none := by
      rw [positions, MapDiff.getElem?_insertAll_of_ne]
      · simp
      · intro e he heq
        exact hpk (heq ▸ mem_of_getElem? ((hmem e).mp he))
    rw [hnone] at hi
    cases hi

namespace Indexed

lemma set {v : Validator} {i : ℕ} (h : Indexed vals index) (hpos : index[v.pk]? = some i) :
    Indexed (vals.set i v) index ∧ (vals.set i v).map Validator.pk = vals.map Validator.pk ∧
      ∀ w, w ∈ vals.set i v ↔ w = v ∨ (w ∈ vals ∧ w.pk ≠ v.pk) := by
  have hkey := (h.get _ _).mp hpos
  have hi : i < vals.length := by simpa using (List.getElem?_eq_some_iff.mp hkey).1
  have hkeys : (vals.set i v).map Validator.pk = vals.map Validator.pk := by
    obtain ⟨hi', hkey⟩ := List.getElem?_eq_some_iff.mp hkey
    rw [map_set, ← hkey, set_getElem_self]
  refine ⟨⟨hkeys ▸ h.nodup, hkeys ▸ h.get⟩, hkeys, fun w => ?_⟩
  -- the key stands at one position only
  have hother : ∀ j w, vals[j]? = some w → (w.pk = v.pk ↔ i = j) := by
    intro j w hj
    have hj' : (vals.map Validator.pk)[j]? = some w.pk := by rw [getElem?_map, hj]; rfl
    constructor
    · intro hw
      rw [hw] at hj'
      exact Option.some.inj (hpos.symm.trans ((h.get _ _).mpr hj'))
    · rintro rfl
      exact Option.some.inj (hj'.symm.trans hkey)
  rw [mem_iff_getElem?]
  constructor
  · rintro ⟨j, hj⟩
    by_cases hij : i = j
    · subst hij
      rw [getElem?_set_self hi] at hj
      exact .inl (Option.some.inj hj).symm
    · rw [getElem?_set_ne hij] at hj
      exact .inr ⟨mem_of_getElem? hj, fun hw => hij ((hother j w hj).mp hw)⟩
  · rintro (rfl | ⟨hw, hne⟩)
    · exact ⟨i, getElem?_set_self hi⟩
    · obtain ⟨j, hj⟩ := mem_iff_getElem?.mp hw
      exact ⟨j, by rw [getElem?_set_ne fun hij => hne ((hother j w hj).mpr hij), hj]⟩

lemma append {v : Validator} (h : Indexed vals index) (hfresh : v.pk ∉ vals.map Validator.pk) :
    Indexed (vals ++ [v]) (index.insert v.pk vals.length) := by
  have hkeys : (vals ++ [v]).map Validator.pk = vals.map Validator.pk ++ [v.pk] := by simp
  have hnone : ∀ i, index[v.pk]? ≠ some i := by
    intro i hi
    exact hfresh (mem_of_getElem? ((h.get _ _).mp hi))
  refine ⟨?_, fun pk i => ?_⟩
  · rw [hkeys]
    exact concat_eq_append ▸ h.nodup.concat hfresh
  rw [hkeys, ExtTreeMap.getElem?_insert]
  by_cases hi : i < (vals.map Validator.pk).length
  · -- an old position: the key standing there is not the new one
    rw [getElem?_append_left hi, ← h.get]
    by_cases hpk : v.pk = pk
    · subst hpk
      rw [if_pos ReflCmp.compare_self]
      simp only [Option.some.injEq, hnone i, iff_false]
      rw [length_map] at hi
      omega
    · rw [if_neg (by rwa [LawfulEqCmp.compare_eq_iff_eq])]
  · rw [getElem?_append_right (not_lt.mp hi), getElem?_singleton]
    have hold : index[pk]? ≠ some i := by
      rw [Ne, h.get, getElem?_eq_none (not_lt.mp hi)]
      simp
    rw [length_map] at hi ⊢
    by_cases hpk : v.pk = pk
    · subst hpk
      rw [if_pos ReflCmp.compare_self]
      simp
      omega
    · rw [if_neg (by rwa [LawfulEqCmp.compare_eq_iff_eq])]
      simp [hold, hpk]

end Indexed

lemma mergeRound_spec (h : Indexed vals index) (v : Validator) :
    ∃ vals' index', mergeRound (vals, index) v = some (vals', index') ∧ Indexed vals' index' ∧
      vals.map Validator.pk <+: vals'.map Validator.pk ∧
      ∀ w, w ∈ vals' ↔ w = v ∨ (w ∈ vals ∧ w.pk ≠ v.pk) := by
  cases hpos : index[v.pk]? with
  | some i =>
    obtain ⟨hset, hkeys, hmem⟩ := h.set hpos
    obtain ⟨old, hold, hpk⟩ : ∃ old, vals[i]? = some old ∧ old.pk = v.pk := by
      simpa [getElem?_map] using (h.get _ _).mp hpos
    have hnew : ({ old with power := v.power } : Validator) = v := by
      cases v
      cases hpk
      rfl
    refine ⟨vals.set i v, index, ?_, hset, hkeys ▸ prefix_rfl, hmem⟩
    simp only [mergeRound, hpos, hold, Option.bind_eq_bind, Option.bind_some, hnew]
  | none =>
    have hfresh : v.pk ∉ vals.map Validator.pk := by
      intro hmem
      obtain ⟨i, hi⟩ := mem_iff_getElem?.mp hmem
      rw [(h.get _ _).mpr hi] at hpos
      cases hpos
    refine ⟨vals ++ [v], index.insert v.pk vals.length, ?_, h.append hfresh, ?_, fun w => ?_⟩
    · simp only [mergeRound, hpos]
    · rw [map_append]
      exact prefix_append _ _
    · rw [mem_append, mem_singleton, or_comm]
      refine or_congr_right ⟨fun hw => ⟨hw, fun hpk => ?_⟩, And.left⟩
      exact hfresh (hpk ▸ List.mem_map_of_mem hw)

lemma mergeLoop_spec (h : Indexed vals index) {others : List Validator}
    (hnodup : (others.map Validator.pk).Nodup) :
    ∃ vals' index', others.foldlM mergeRound (vals, index) = some (vals', index') ∧
      Indexed vals' index' ∧ vals.map Validator.pk <+: vals'.map Validator.pk ∧
      ∀ w, w ∈ vals' ↔ w ∈ others ∨ (w ∈ vals ∧ w.pk ∉ others.map Validator.pk) := by
  induction others generalizing vals index with
  | nil => exact ⟨vals, index, rfl, h, prefix_rfl, by simp⟩
  | cons v others ih =>
    rw [map_cons, nodup_cons] at hnodup
    obtain ⟨vals₁, index₁, hround, h₁, hprefix₁, hmem₁⟩ := mergeRound_spec h v
    obtain ⟨vals₂, index₂, hloop, h₂, hprefix₂, hmem₂⟩ := ih h₁ hnodup.2
    refine ⟨vals₂, index₂, ?_, h₂, hprefix₁.trans hprefix₂, fun w => ?_⟩
    · rw [foldlM_cons, hround]
      exact hloop
    · rw [hmem₂, hmem₁, mem_cons, map_cons, mem_cons, not_or]
      constructor
      · rintro (hw | ⟨rfl | ⟨hw, hne⟩, hnot⟩)
        · exact .inl (.inr hw)
        · exact .inl (.inl rfl)
        · exact .inr ⟨hw, hne, hnot⟩
      · rintro ((rfl | hw) | ⟨hw, hne, hnot⟩)
        · exact .inr ⟨.inl rfl, hnodup.1⟩
        · exact .inl hw
        · exact .inr ⟨.inr ⟨hw, hne⟩, hnot⟩

lemma merge_spec {a b : ValidatorSet} (ha : a.keys.Nodup) (hb : b.keys.Nodup) :
    ∃ merged, a.merge b = some merged ∧ merged.keys.Nodup ∧ a.keys <+: merged.keys ∧
      ∀ w, w ∈ merged.vals ↔ w ∈ b.vals ∨ (w ∈ a.vals ∧ w.pk ∉ b.keys) := by
  obtain ⟨vals, index, hloop, hindexed, hprefix, hmem⟩ := mergeLoop_spec (indexed_positions ha) hb
  refine ⟨⟨vals⟩, ?_, hindexed.nodup, hprefix, hmem⟩
  rw [merge, hloop]
  rfl

/-! ### The loop of `diff` -/

lemma getElem?_byKey {v : Validator} (h : (vals.map Validator.pk).Nodup) (hv : v ∈ vals) :
    (byKey vals)[v.pk]? = some v := by
  refine MapDiff.getElem?_insertAll_of_agree (fun e he hpk => ?_) (.inr ⟨(v.pk, v), ?_, rfl⟩)
  · obtain ⟨w, hw, rfl⟩ := List.mem_map.mp he
    exact inj_on_of_nodup_map h hw hv hpk
  · exact List.mem_map_of_mem hv

lemma diff_of_subset {s t : ValidatorSet} (hs : s.keys.Nodup) (hsub : ∀ v ∈ t.vals, v ∈ s.vals) :
    (s.diff t).1 = [] ∧ (s.diff t).2.2 = [] := by
  have hloop : t.vals.foldl (diffRound (byKey s.vals)) ([], []) = ([], []) := by
    refine Grouping.foldl_eq_self (fun v hv acc => ?_) _
    rw [diffRound, getElem?_byKey hs (hsub v hv)]
    simp
  exact ⟨congrArg Prod.fst hloop, congrArg Prod.snd hloop⟩

end ValidatorSet

/-- **Merging agrees with comparing**: the merged set is valid, has the powers of `b` on its keys
and of `a` elsewhere, and differs from `b` in keys of `a` only. -/
theorem merge_agrees_with_diff {valsA valsB : List Validator} {maxA maxB : ℕ} {a b : ValidatorSet}
    (ha : ValidatorSet.new valsA maxA = .ok a) (hb : ValidatorSet.new valsB maxB = .ok b) :
    ∃ merged, a.merge b = some merged ∧
      (∀ maxSize, merged.vals.length ≤ maxSize →
        ValidatorSet.new merged.vals maxSize = .ok merged) ∧
      merged.keys.Nodup ∧ (∀ v ∈ merged.vals, v.power ≠ 0) ∧
      (∀ pk, merged.powerOf pk = if pk ∈ b.keys then b.powerOf pk else a.powerOf pk) ∧
      a.keys <+: merged.keys ∧
      (merged.diff b).1 = [] ∧ (merged.diff b).2.2 = [] := by
  obtain ⟨rfl, hne, -, hnodupA, hpowerA⟩ := ValidatorSet.new_eq_ok_iff.mp ha
  obtain ⟨rfl, -, -, hnodupB, hpowerB⟩ := ValidatorSet.new_eq_ok_iff.mp hb
  obtain ⟨merged, hmerge, hnodup, hprefix, hmem⟩ := ValidatorSet.merge_spec hnodupA hnodupB
  have hpower : ∀ v ∈ merged.vals, v.power ≠ 0 := by
    intro v hv
    rcases (hmem v).mp hv with hv | ⟨hv, -⟩
    · exact hpowerB v hv
    · exact hpowerA v hv
  have hnonempty : merged.vals ≠ [] := by
    intro hnil
    rw [ValidatorSet.keys, ValidatorSet.keys, hnil, List.map_nil, List.prefix_nil,
      List.map_eq_nil_iff] at hprefix
    exact hne hprefix
  refine ⟨merged, hmerge, fun maxSize hsize => ?_, hnodup, hpower, fun pk => ?_, hprefix,
    ValidatorSet.diff_of_subset hnodup fun v hv => (hmem v).mpr (.inl hv)⟩
  · exact ValidatorSet.new_eq_ok_iff.mpr ⟨rfl, hnonempty, hsize, hnodup, hpower⟩
  · split
    · rename_i hpk
      obtain ⟨v, hv, rfl⟩ := List.mem_map.mp hpk
      rw [ValidatorSet.powerOf_of_mem hnodup ((hmem v).mpr (.inl hv)),
        ValidatorSet.powerOf_of_mem hnodupB hv]
    · rename_i hpk
      by_cases hin : ∃ v ∈ a.vals, v.pk = pk
      · obtain ⟨v, hv, rfl⟩ := hin
        rw [ValidatorSet.powerOf_of_mem hnodup ((hmem v).mpr (.inr ⟨hv, hpk⟩)),
          ValidatorSet.powerOf_of_mem hnodupA hv]
      · have hnotA : ∀ v ∈ a.vals, v.pk ≠ pk := fun v hv heq => hin ⟨v, hv, heq⟩
        rw [ValidatorSet.powerOf_of_notMem hnotA, ValidatorSet.powerOf_of_notMem]
        intro v hv
        rcases (hmem v).mp hv with hv | ⟨hv, -⟩
        · exact fun heq => hpk (heq ▸ List.mem_map_of_mem hv)
        · exact hnotA v hv

def rotationUpdate : ValidatorSet := ⟨[⟨[3], 1⟩, ⟨[1], 9⟩]⟩

theorem merge_agrees_with_diff_rotation :
    ∃ merged, rotation.merge rotationUpdate = some merged ∧
      merged.vals = [⟨[1], 9⟩, ⟨[2], 7⟩, ⟨[3], 1⟩] ∧
      (merged.diff rotationUpdate).1 = [] ∧ (merged.diff rotationUpdate).2.2 = [] := by
  obtain ⟨merged, hmerge, -, -, -, -, -, hdiff⟩ := merge_agrees_with_diff
    (show ValidatorSet.new rotation.vals 100 = .ok rotation by decide +kernel)
    (show ValidatorSet.new rotationUpdate.vals 100 = .ok rotationUpdate by decide +kernel)
  refine ⟨merged, hmerge, ?_, hdiff⟩
  have hrun : rotation.merge rotationUpdate = some ⟨[⟨[1], 9⟩, ⟨[2], 7⟩, ⟨[3], 1⟩]⟩ := by
    decide +kernel
  rw [hmerge] at hrun
  rw [Option.some.inj hrun]

end Iona
