import Mathlib

/-! # The difference of two maps -/

namespace MapDiff

open Std ExtTreeMap

variable {κ ν : Type*} {cmp : κ → κ → Ordering} [TransCmp cmp]

/-- What to write to get from `m` to `m'`. -/
def puts [DecidableEq ν] (m m' : ExtTreeMap κ ν cmp) : List (κ × ν) :=
  m'.toList.filter fun e => m[e.1]? ≠ some e.2

/-- What to erase to get from `m` to `m'`. -/
def dels (m m' : ExtTreeMap κ ν cmp) : List κ := m.keys.filter fun k => !m'.contains k

/-- Erasures and then writes. -/
def patch (m : ExtTreeMap κ ν cmp) (ks : List κ) (es : List (κ × ν)) : ExtTreeMap κ ν cmp :=
  es.foldl (fun m e => m.insert e.1 e.2) (ks.foldl (fun m k => m.erase k) m)

variable [LawfulEqCmp cmp] {m m' : ExtTreeMap κ ν cmp} {k : κ}

lemma getElem?_eraseAll [DecidableEq κ] (m : ExtTreeMap κ ν cmp) (ks : List κ) (k : κ) :
    (ks.foldl (fun m k => m.erase k) m)[k]? = if k ∈ ks then none else m[k]? := by
  induction ks generalizing m with
  | nil => rfl
  | cons k' ks ih =>
    rw [List.foldl_cons, ih, getElem?_erase]
    by_cases hk : k' = k
    · subst hk
      simp
    · have hne : k ≠ k' := fun h => hk h.symm
      simp [hk, hne]

lemma getElem?_insertAll [DecidableEq κ] {α : Type*} (f : α → κ) (g : α → ν) (l : List α)
    (m : ExtTreeMap κ ν cmp) (k : κ) :
    (l.foldl (fun m a => m.insert (f a) (g a)) m)[k]? =
      ((l.reverse.find? fun a => f a = k).map g).or m[k]? := by
  induction l generalizing m with
  | nil => rfl
  | cons a l ih =>
    rw [List.foldl_cons, ih, List.reverse_cons, List.find?_append, getElem?_insert]
    cases l.reverse.find? fun a => decide (f a = k) with
    | some found => rfl
    | none => by_cases heq : f a = k <;> simp [heq]

section Entries

variable [DecidableEq κ] {es : List (κ × ν)} {v : ν}

lemma getElem?_insertAll_of_agree (hagree : ∀ e ∈ es, e.1 = k → e.2 = v)
    (hk : m[k]? = some v ∨ ∃ e ∈ es, e.1 = k) :
    (es.foldl (fun m e => m.insert e.1 e.2) m)[k]? = some v := by
  rw [getElem?_insertAll]
  cases hfind : es.reverse.find? fun e => decide (e.1 = k) with
  | some e =>
    have hmem := List.mem_reverse.mp (List.mem_of_find?_eq_some hfind)
    have hkey := List.find?_some hfind
    exact congrArg some (hagree e hmem (of_decide_eq_true hkey))
  | none =>
    refine hk.resolve_right ?_
    rintro ⟨e, hmem, he⟩
    exact List.find?_eq_none.mp hfind e (List.mem_reverse.mpr hmem) (decide_eq_true he)

lemma getElem?_insertAll_of_ne (h : ∀ e ∈ es, e.1 ≠ k) :
    (es.foldl (fun m e => m.insert e.1 e.2) m)[k]? = m[k]? := by
  rw [getElem?_insertAll, List.find?_eq_none.mpr]
  · rfl
  · intro e hmem he
    exact h e (List.mem_reverse.mp hmem) (of_decide_eq_true he)

end Entries

lemma mem_puts [DecidableEq ν] {e : κ × ν} :
    e ∈ puts m m' ↔ m'[e.1]? = some e.2 ∧ m[e.1]? ≠ some e.2 := by
  rw [puts, List.mem_filter, mem_toList_iff_getElem?_eq_some, decide_eq_true_eq]

lemma mem_dels : k ∈ dels m m' ↔ m[k]? ≠ none ∧ m'[k]? = none := by
  rw [dels, List.mem_filter, mem_keys, mem_iff_isSome_getElem?,
    Option.isSome_iff_ne_none, Bool.not_eq_true', contains_eq_isSome_getElem?,
    Option.isSome_eq_false_iff, Option.isNone_iff_eq_none]

lemma patch_diff [DecidableEq κ] [DecidableEq ν] (m m' : ExtTreeMap κ ν cmp) : patch m (dels m m') (puts m m') = m' := by
  classical
  refine ext_getElem? fun {k} => ?_
  cases hk : m'[k]? with
  | none =>
    rw [patch, getElem?_insertAll_of_ne, getElem?_eraseAll]
    · split
      · rfl
      · rename_i hdel
        by_contra hne
        exact hdel (mem_dels.mpr ⟨hne, hk⟩)
    · intro e he heq
      rw [mem_puts, heq, hk] at he
      cases he.1
  | some v =>
    have hdel : k ∉ dels m m' := fun h => by
      rw [mem_dels, hk] at h
      cases h.2
    refine getElem?_insertAll_of_agree (fun e he heq => ?_) ?_
    · rw [mem_puts, heq, hk] at he
      exact (Option.some.inj he.1).symm
    · rw [getElem?_eraseAll, if_neg hdel]
      by_cases hm : m[k]? = some v
      · exact .inl hm
      · exact .inr ⟨(k, v), mem_puts.mpr ⟨hk, hm⟩, rfl⟩

end MapDiff
