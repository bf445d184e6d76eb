import Mathlib

/-! # Sums over the values of a map -/

namespace MapSum

open Std ExtTreeMap

variable {κ ν : Type*} {cmp : κ → κ → Ordering} [TransCmp cmp]

/-- The sum of `f` over the values. -/
def sumBy (f : ν → ℕ) (m : ExtTreeMap κ ν cmp) : ℕ := (m.toList.map fun e => f e.2).sum

/-- The sum of `f` over the entries. -/
def sumOn (f : κ → ν → ℕ) (m : ExtTreeMap κ ν cmp) : ℕ := (m.toList.map fun e => f e.1 e.2).sum

/-- What an entry that may be absent adds. -/
def share (f : ν → ℕ) (v : Option ν) : ℕ := v.elim 0 f

variable {m : ExtTreeMap κ ν cmp} {k : κ}

@[simp] lemma share_none (f : ν → ℕ) : share f none = 0 := rfl

@[simp] lemma share_some (f : ν → ℕ) (v : ν) : share f (some v) = f v := rfl

lemma nodup_toList (m : ExtTreeMap κ ν cmp) : m.toList.Nodup := by
  refine m.distinct_keys_toList.imp fun {a b} hab heq => hab ?_
  rw [heq]
  exact ReflCmp.compare_self

lemma sumOn_add (f g : κ → ν → ℕ) (m : ExtTreeMap κ ν cmp) :
    sumOn (fun k v => f k v + g k v) m = sumOn f m + sumOn g m :=
  List.sum_map_add

lemma sumOn_map (f : κ → ν → ℕ) (g : κ → ν → ν) (m : ExtTreeMap κ ν cmp) :
    sumOn f (m.map g) = sumOn (fun k v => f k (g k v)) m := by
  rw [sumOn, toList_map, List.map_map]
  rfl

variable [LawfulEqCmp cmp]

lemma toList_insert_perm (hk : m[k]? = none) (v : ν) :
    (m.insert k v).toList.Perm ((k, v) :: m.toList) := by
  have hnd : ((k, v) :: m.toList).Nodup := by
    refine List.nodup_cons.mpr ⟨fun h => ?_, nodup_toList m⟩
    rw [mem_toList_iff_getElem?_eq_some, hk] at h
    cases h
  rw [List.perm_ext_iff_of_nodup (nodup_toList _) hnd]
  rintro ⟨a, w⟩
  rw [mem_toList_iff_getElem?_eq_some, getElem?_insert, List.mem_cons,
    mem_toList_iff_getElem?_eq_some]
  by_cases ha : k = a
  · subst ha
    rw [if_pos ReflCmp.compare_self, hk]
    simp [eq_comm]
  · have hne : a ≠ k := fun h => ha h.symm
    simp [ha, hne]

/-! ### Reading back a written map -/

lemma getElem?_insert_eq_some_iff {a : κ} {v w : ν} :
    (m.insert k v)[a]? = some w ↔ a = k ∧ w = v ∨ a ≠ k ∧ m[a]? = some w := by
  rw [getElem?_insert]
  by_cases ha : a = k
  · subst ha
    rw [if_pos ReflCmp.compare_self, Option.some.injEq, eq_comm]
    simp
  · have hne : k ≠ a := fun h => ha h.symm
    simp [ha, hne]

lemma getElem?_erase_eq_some_iff {a : κ} {w : ν} :
    (m.erase k)[a]? = some w ↔ a ≠ k ∧ m[a]? = some w := by
  rw [getElem?_erase]
  by_cases ha : a = k
  · subst ha
    simp
  · have hne : k ≠ a := fun h => ha h.symm
    simp [ha, hne]

section Ite

variable [DecidableEq κ]

lemma getElem?_insert_ite (m : ExtTreeMap κ ν cmp) (k a : κ) (v : ν) :
    (m.insert k v)[a]? = if a = k then some v else m[a]? := by
  rw [getElem?_insert]
  by_cases ha : a = k
  · rw [if_pos ha, if_pos (ha ▸ ReflCmp.compare_self)]
  · rw [if_neg ha, if_neg fun heq => ha (LawfulEqCmp.eq_of_compare heq).symm]

lemma getElem?_erase_ite (m : ExtTreeMap κ ν cmp) (k a : κ) :
    (m.erase k)[a]? = if a = k then none else m[a]? := by
  rw [getElem?_erase]
  by_cases ha : a = k
  · rw [if_pos ha, if_pos (ha ▸ ReflCmp.compare_self)]
  · rw [if_neg ha, if_neg fun heq => ha (LawfulEqCmp.eq_of_compare heq).symm]

lemma getD_insert_ite (m : ExtTreeMap κ ν cmp) (k a : κ) (v fallback : ν) :
    (m.insert k v).getD a fallback = if a = k then v else m.getD a fallback := by
  rw [getD_eq_getD_getElem?, getD_eq_getD_getElem?, getElem?_insert_ite]
  split <;> rfl

end Ite

lemma insert_erase_self (m : ExtTreeMap κ ν cmp) (k : κ) (v : ν) :
    (m.erase k).insert k v = m.insert k v := by
  refine ext_getElem? fun {a} => ?_
  rw [getElem?_insert, getElem?_insert, getElem?_erase]
  split <;> simp_all

lemma insert_insert (m : ExtTreeMap κ ν cmp) (k : κ) (v w : ν) :
    (m.insert k v).insert k w = m.insert k w := by
  refine ext_getElem? fun {a} => ?_
  rw [getElem?_insert, getElem?_insert, getElem?_insert]
  split <;> simp_all

lemma insert_self {v : ν} (h : m[k]? = some v) : m.insert k v = m := by
  refine ext_getElem? fun {a} => ?_
  rw [getElem?_insert]
  split
  · rename_i ha
    rw [← LawfulEqCmp.eq_of_compare ha, h]
  · rfl

lemma erase_of_none (h : m[k]? = none) : m.erase k = m := by
  refine ext_getElem? fun {a} => ?_
  rw [getElem?_erase]
  split
  · rename_i ha
    rw [← LawfulEqCmp.eq_of_compare ha, h]
  · rfl

lemma insert_eq_self_iff {v : ν} : m.insert k v = m ↔ m[k]? = some v := by
  constructor
  · intro h
    rw [← h]
    exact getElem?_insert_self
  · exact insert_self

lemma erase_eq_self_iff : m.erase k = m ↔ m[k]? = none := by
  constructor
  · intro h
    rw [← h]
    exact getElem?_erase_self
  · exact erase_of_none

lemma toList_filter_insert {p : κ → Bool} (hk : p k = false) (v : ν) :
    (m.insert k v).toList.filter (fun e => p e.1) = m.toList.filter fun e => p e.1 := by
  have hfilter : ∀ m : ExtTreeMap κ ν cmp,
      m.toList.filter (fun e => p e.1) = (m.filter fun k _ => p k).toList := by
    intro m
    rw [toList_filter]
  rw [hfilter, hfilter]
  refine congrArg toList (ext_getElem? fun {a} => ?_)
  rw [getElem?_filter', getElem?_filter', getElem?_insert]
  split
  · rename_i ha
    rw [← LawfulEqCmp.eq_of_compare ha]
    cases m[k]? with
    | none => simp [hk]
    | some w => simp [hk]
  · rfl

/-! ### Sums that read the key -/

lemma sumOn_insert_of_none (f : κ → ν → ℕ) (hk : m[k]? = none) (v : ν) :
    sumOn f (m.insert k v) = f k v + sumOn f m := by
  have := ((toList_insert_perm hk v).map fun e => f e.1 e.2).sum_eq
  rwa [List.map_cons, List.sum_cons] at this

lemma sumOn_erase (f : κ → ν → ℕ) (m : ExtTreeMap κ ν cmp) (k : κ) :
    sumOn f (m.erase k) + share (f k) m[k]? = sumOn f m := by
  cases h : m[k]? with
  | none => rw [erase_of_none h, share_none, Nat.add_zero]
  | some v =>
    have hins := sumOn_insert_of_none f (getElem?_erase_self (t := m) (k := k)) v
    rw [insert_erase_self, insert_self h] at hins
    rw [hins, share_some, Nat.add_comm]

lemma sumOn_insert (f : κ → ν → ℕ) (m : ExtTreeMap κ ν cmp) (k : κ) (v : ν) :
    sumOn f (m.insert k v) + share (f k) m[k]? = sumOn f m + f k v := by
  have hins := sumOn_insert_of_none f (getElem?_erase_self (t := m) (k := k)) v
  rw [insert_erase_self] at hins
  rw [hins, ← sumOn_erase f m k]
  omega

lemma share_le_sumOn (f : κ → ν → ℕ) (m : ExtTreeMap κ ν cmp) (k : κ) :
    share (f k) m[k]? ≤ sumOn f m := by
  rw [← sumOn_erase f m k]
  exact Nat.le_add_left _ _

lemma sumOn_congr {f g : κ → ν → ℕ} (h : ∀ k v, m[k]? = some v → f k v = g k v) :
    sumOn f m = sumOn g m := by
  refine congrArg List.sum (List.map_congr_left ?_)
  rintro ⟨k, v⟩ he
  exact h k v (mem_toList_iff_getElem?_eq_some.mp he)

/-! ### Sums over the values alone -/

lemma sumBy_insert_of_none (f : ν → ℕ) (hk : m[k]? = none) (v : ν) :
    sumBy f (m.insert k v) = f v + sumBy f m :=
  sumOn_insert_of_none (fun _ => f) hk v

lemma sumBy_erase (f : ν → ℕ) (m : ExtTreeMap κ ν cmp) (k : κ) :
    sumBy f (m.erase k) + share f m[k]? = sumBy f m :=
  sumOn_erase (fun _ => f) m k

lemma sumBy_insert (f : ν → ℕ) (m : ExtTreeMap κ ν cmp) (k : κ) (v : ν) :
    sumBy f (m.insert k v) + share f m[k]? = sumBy f m + f v :=
  sumOn_insert (fun _ => f) m k v

omit [LawfulEqCmp cmp] in
lemma share_getD (f : ν → ℕ) (m : ExtTreeMap κ ν cmp) (k : κ) {d : ν} (hd : f d = 0) :
    share f m[k]? = f (m.getD k d) := by
  rw [getD_eq_getD_getElem?]
  cases m[k]? with
  | none => rw [Option.getD_none, hd, share_none]
  | some w => rfl

lemma sumBy_insert_getD (f : ν → ℕ) (m : ExtTreeMap κ ν cmp) (k : κ) (v : ν) {d : ν}
    (hd : f d = 0) : sumBy f (m.insert k v) + f (m.getD k d) = sumBy f m + f v := by
  rw [← sumBy_insert f m k v, share_getD f m k hd]

lemma share_le_sumBy (f : ν → ℕ) (m : ExtTreeMap κ ν cmp) (k : κ) :
    share f m[k]? ≤ sumBy f m :=
  share_le_sumOn (fun _ => f) m k

/-! ### Writes that only grow -/

lemma insert_keeps_or_grows (f : ν → ℕ) {v : ν} (hpos : 0 < f v)
    (h : ∀ w, m[k]? = some w → w = v ∨ f w < f v) :
    m.insert k v = m ∨ sumBy f m < sumBy f (m.insert k v) := by
  have hsum := sumBy_insert f m k v
  cases hk : m[k]? with
  | none =>
    rw [hk, share_none] at hsum
    exact .inr (by omega)
  | some w =>
    rw [hk, share_some] at hsum
    rcases h w hk with rfl | hlt
    · exact .inl (insert_self hk)
    · exact .inr (by omega)

lemma foldl_keeps_or_grows {σ α : Type*} {step : σ → α → σ} {μ : σ → ℕ}
    (hstep : ∀ s a, step s a = s ∨ μ s < μ (step s a)) (l : List α) (s : σ) :
    (∀ a ∈ l, step s a = s) ∧ l.foldl step s = s ∨ μ s < μ (l.foldl step s) := by
  induction l generalizing s with
  | nil => simp
  | cons a l ih =>
    rw [List.foldl_cons]
    rcases hstep s a with hkeep | hgrow
    · rw [hkeep]
      rcases ih s with ⟨hall, hfold⟩ | hgrow
      · exact .inl ⟨List.forall_mem_cons.mpr ⟨hkeep, hall⟩, hfold⟩
      · exact .inr hgrow
    · rcases ih (step s a) with ⟨-, hfold⟩ | hgrow'
      · exact .inr (by rwa [hfold])
      · exact .inr (hgrow.trans hgrow')

lemma foldl_eq_self_iff {σ α : Type*} {step : σ → α → σ} {μ : σ → ℕ}
    (hstep : ∀ s a, step s a = s ∨ μ s < μ (step s a)) (l : List α) (s : σ) :
    l.foldl step s = s ↔ ∀ a ∈ l, step s a = s := by
  rcases foldl_keeps_or_grows hstep l s with ⟨hall, hfold⟩ | hgrow
  · exact iff_of_true hfold hall
  · have hne : l.foldl step s ≠ s := by
      intro heq
      rw [heq] at hgrow
      exact lt_irrefl _ hgrow
    refine iff_of_false hne fun hall => hne ?_
    clear hne hgrow
    induction l with
    | nil => rfl
    | cons a l ih =>
      obtain ⟨ha, hl⟩ := List.forall_mem_cons.mp hall
      rw [List.foldl_cons, ha, ih hl]

end MapSum
