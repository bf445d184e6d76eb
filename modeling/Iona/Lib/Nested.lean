import Iona.Lib.MapSum

/-! # Maps of maps that hold no empty map -/

set_option linter.unusedSectionVars false

namespace Nested

open Std MapSum ExtTreeMap

section Map

variable {κ μ ν : Type*} {cmp : κ → κ → Ordering} {cmp' : μ → μ → Ordering} [TransCmp cmp]
  [TransCmp cmp']

variable (m : ExtTreeMap κ (ExtTreeMap μ ν cmp') cmp)

/-- The inner map of a key. -/
def row (k : κ) : ExtTreeMap μ ν cmp' := m.getD k ∅

/-- An entry of an inner map. -/
def get (k : κ) (a : μ) : Option ν := (row m k)[a]?

/-- An inner map put in place; an empty one is dropped. -/
def store (k : κ) (q : ExtTreeMap μ ν cmp') : ExtTreeMap κ (ExtTreeMap μ ν cmp') cmp :=
  if q.isEmpty then m.erase k else m.insert k q

/-- An entry removed. -/
def remove (k : κ) (a : μ) : ExtTreeMap κ (ExtTreeMap μ ν cmp') cmp := store m k ((row m k).erase a)

/-- The entries that pass, without empty rows. -/
def filterRows (f : μ → ν → Bool) : ExtTreeMap κ (ExtTreeMap μ ν cmp') cmp :=
  m.filterMap fun _ q => if (q.filter f).isEmpty then none else some (q.filter f)

/-- The number of entries. -/
def size : ℕ := sumBy ExtTreeMap.size m

/-- All entries. -/
def entries : List (κ × μ × ν) := m.toList.flatMap fun e => e.2.toList.map fun f => (e.1, f)

variable {m}

variable {q r : ExtTreeMap μ ν cmp'} {k : κ} {a : μ} {v : ν}

lemma row_of_getElem? (h : m[k]? = some q) : row m k = q := by
  rw [row, getD_eq_getD_getElem?, h, Option.getD_some]

variable [LawfulEqCmp cmp] [LawfulEqCmp cmp']

lemma share_size (k : κ) : share ExtTreeMap.size m[k]? = (row m k).size :=
  share_getD ExtTreeMap.size m k rfl

lemma size_store (k : κ) (q : ExtTreeMap μ ν cmp') :
    size (store m k q) + (row m k).size = size m + q.size := by
  unfold store size
  split
  · rename_i hempty
    rw [isEmpty_iff.mp hempty, ← share_size, sumBy_erase]
    rfl
  · rw [← share_size, sumBy_insert]

lemma size_insert_row (h : get m k a = none) (v : ν) :
    ((row m k).insert a v).size = (row m k).size + 1 := by
  have hnot : (row m k).contains a = false := by
    rw [contains_eq_isSome_getElem?]
    change (get m k a).isSome = false
    rw [h, Option.isSome_none]
  rw [size_insert, hnot, if_neg (by simp)]

lemma contains_of_get (h : get m k a = some v) : (row m k).contains a = true := by
  rw [contains_eq_isSome_getElem?]
  change (get m k a).isSome = true
  rw [h, Option.isSome_some]

lemma size_row_pos (h : get m k a = some v) : 0 < (row m k).size := by
  refine Nat.pos_of_ne_zero fun hzero => ?_
  have hempty : (row m k).isEmpty = true := by rw [isEmpty_eq_size_beq_zero, hzero]; rfl
  rw [get, isEmpty_iff.mp hempty] at h
  simp at h

lemma size_remove (h : get m k a = some v) : size (remove m k a) + 1 = size m := by
  have hstore := size_store k ((row m k).erase a) (m := m)
  have hpos := size_row_pos h
  rw [size_erase, if_pos (contains_of_get h)] at hstore
  rw [remove]
  omega

lemma mem_entries : (k, a, v) ∈ entries m ↔ get m k a = some v := by
  rw [entries, List.mem_flatMap]
  constructor
  · rintro ⟨⟨k', q⟩, hq, hmem⟩
    obtain ⟨f, hf, heq⟩ := List.mem_map.mp hmem
    cases heq
    rw [get, row_of_getElem? (mem_toList_iff_getElem?_eq_some.mp hq)]
    exact mem_toList_iff_getElem?_eq_some.mp hf
  · intro h
    cases hk : m[k]? with
    | none =>
      rw [get, row, getD_eq_getD_getElem?, hk, Option.getD_none] at h
      simp at h
    | some q =>
      rw [get, row_of_getElem? hk] at h
      exact ⟨(k, q), mem_toList_iff_getElem?_eq_some.mpr hk,
        List.mem_map_of_mem (mem_toList_iff_getElem?_eq_some.mpr h)⟩

lemma length_entries : (entries m).length = size m := by
  rw [entries, List.length_flatMap, size, sumBy]
  refine congrArg List.sum (List.map_congr_left fun e _ => ?_)
  rw [List.length_map, length_toList]

lemma exists_get_of_size_pos (h : 0 < size m) : ∃ k a v, get m k a = some v := by
  rw [← length_entries, List.length_pos_iff_exists_mem] at h
  obtain ⟨⟨k, a, v⟩, hmem⟩ := h
  exact ⟨k, a, v, mem_entries.mp hmem⟩

section Ite

variable [DecidableEq κ]

lemma getElem?_store (k k' : κ) (q : ExtTreeMap μ ν cmp') :
    (store m k q)[k']? = if k' = k then (if q.isEmpty then none else some q) else m[k']? := by
  unfold store
  split
  · rw [getElem?_erase_ite]
  · rw [getElem?_insert_ite]

lemma row_store (k k' : κ) (q : ExtTreeMap μ ν cmp') :
    row (store m k q) k' = if k' = k then q else row m k' := by
  rw [row, getD_eq_getD_getElem?, getElem?_store]
  split
  · split
    · rename_i hempty
      exact (isEmpty_iff.mp hempty).symm
    · rfl
  · rw [row, getD_eq_getD_getElem?]

lemma get_store (k k' : κ) (q : ExtTreeMap μ ν cmp') (a : μ) :
    get (store m k q) k' a = if k' = k then q[a]? else get m k' a := by
  rw [get, row_store]
  split <;> rfl

lemma get_remove [DecidableEq μ] (k k' : κ) (a b : μ) :
    get (remove m k a) k' b = if k' = k ∧ b = a then none else get m k' b := by
  rw [remove, get_store]
  by_cases hk : k' = k
  · subst hk
    rw [if_pos rfl, getElem?_erase_ite]
    simp [get]
  · simp [hk]

lemma row_remove_of_ne {k k' : κ} (hk : k' ≠ k) (a : μ) : row (remove m k a) k' = row m k' := by
  rw [remove, row_store, if_neg hk]

lemma insert_insert (k : κ) (q r : ExtTreeMap μ ν cmp') :
    (m.insert k q).insert k r = m.insert k r := by
  refine ext_getElem? fun {k'} => ?_
  rw [getElem?_insert_ite, getElem?_insert_ite, getElem?_insert_ite]
  split <;> rfl

lemma row_insert_row (k k' : κ) : row (m.insert k (row m k)) k' = row m k' := by
  rw [row, getD_eq_getD_getElem?, getElem?_insert_ite]
  split
  · rename_i hk
    rw [hk, Option.getD_some]
  · rw [row, getD_eq_getD_getElem?]

lemma get_insert_row (k k' : κ) (a : μ) : get (m.insert k (row m k)) k' a = get m k' a := by
  rw [get, row_insert_row, get]

lemma insert_remove_row (k k' : κ) (a : μ) (q : ExtTreeMap μ ν cmp') :
    (remove (m.insert k (row m k)) k' a).insert k q = (remove m k' a).insert k q := by
  refine ext_getElem? fun {i} => ?_
  rw [getElem?_insert_ite, getElem?_insert_ite]
  split
  · rfl
  · rename_i hi
    rw [remove, remove, getElem?_store, getElem?_store, row_insert_row, getElem?_insert_ite,
      if_neg hi]

end Ite

lemma getElem?_row (hrow : 0 < (row m k).size) : m[k]? = some (row m k) := by
  cases hk : m[k]? with
  | none =>
    rw [row, getD_eq_getD_getElem?, hk, Option.getD_none] at hrow
    simp at hrow
  | some q => rw [row_of_getElem? hk]

lemma insert_row (hrow : 0 < (row m k).size) : m.insert k (row m k) = m := by
  refine ext_getElem? fun {k'} => ?_
  rw [getElem?_insert]
  split
  · rename_i hk
    rw [← LawfulEqCmp.eq_of_compare hk, getElem?_row hrow]
  · rfl

lemma store_insert (k : κ) (q : ExtTreeMap μ ν cmp') (a : μ) (v : ν) :
    store m k (q.insert a v) = m.insert k (q.insert a v) := by
  have hpos : (q.insert a v).size ≠ 0 := by
    rw [size_insert]
    split
    · rename_i hmem
      intro hzero
      have hempty : q.isEmpty = true := by rw [isEmpty_eq_size_beq_zero, hzero]; rfl
      rw [isEmpty_iff.mp hempty] at hmem
      simp at hmem
    · exact Nat.succ_ne_zero _
  rw [store, if_neg (by rw [isEmpty_eq_size_beq_zero]; simpa using hpos)]

lemma size_filter_le (q : ExtTreeMap μ ν cmp') (f : μ → ν → Bool) : (q.filter f).size ≤ q.size := by
  rw [← length_toList, ← length_toList, toList_filter]
  exact List.length_filter_le _ _

lemma getElem?_filterRows_eq_some_iff {f : μ → ν → Bool} :
    (filterRows m f)[k]? = some r ↔ ∃ q : ExtTreeMap μ ν cmp', m[k]? = some q ∧
      r = q.filter f ∧ r.isEmpty = false := by
  rw [filterRows, getElem?_filterMap', Option.bind_eq_some_iff]
  refine exists_congr fun q => and_congr_right fun _ => ?_
  split
  · rename_i hempty
    simp only [reduceCtorEq, false_iff, not_and]
    rintro rfl
    simp [hempty]
  · rename_i hfull
    rw [Option.some.injEq]
    constructor
    · rintro rfl
      exact ⟨rfl, by simpa using hfull⟩
    · rintro ⟨rfl, -⟩
      rfl

lemma size_filterRows_le (f : μ → ν → Bool) : size (filterRows m f) ≤ size m := by
  rw [size, size, sumBy, sumBy, filterRows, toList_filterMap]
  induction m.toList with
  | nil => exact le_rfl
  | cons e es ih =>
    have hrow := size_filter_le e.2 f
    rw [List.map_cons, List.sum_cons, List.filterMap_cons]
    split
    · omega
    · rename_i r hr
      split at hr
      · cases hr
      · cases hr
        rw [List.map_cons, List.sum_cons]
        exact Nat.add_le_add hrow ih

/-- The first entry of a row. -/
def head (q : ExtTreeMap μ ν cmp') : Option (μ × ν) := q.toList.head?

lemma head_eq_none_iff : head q = none ↔ q.isEmpty = true := by
  rw [head, List.head?_eq_none_iff, ← isEmpty_toList, List.isEmpty_iff]

lemma head_spec (h : head q = some (a, v)) :
    q[a]? = some v ∧ ∀ b w, (q.erase a)[b]? = some w → cmp' a b = .lt := by
  obtain ⟨rest, hlist⟩ := List.head?_eq_some_iff.mp h
  refine ⟨mem_toList_iff_getElem?_eq_some.mp (by rw [hlist]; exact List.mem_cons_self), ?_⟩
  intro b w hw
  obtain ⟨hne, hget⟩ := getElem?_erase_eq_some_iff.mp hw
  have hmem := mem_toList_iff_getElem?_eq_some.mpr hget
  have hsorted := ordered_keys_toList (t := q)
  rw [hlist, List.pairwise_cons] at hsorted
  rw [hlist] at hmem
  rcases List.mem_cons.mp hmem with heq | hin
  · exact absurd (congrArg Prod.fst heq) hne
  · exact hsorted.1 _ hin

lemma exists_getElem?_of_isEmpty (h : q.isEmpty = false) : ∃ (a : μ) (v : ν), q[a]? = some v := by
  cases hhead : head q with
  | none =>
    rw [head_eq_none_iff, h] at hhead
    cases hhead
  | some e => exact ⟨e.1, e.2, (head_spec hhead).1⟩

end Map

/-- A choice of a least element, which may be any of several. -/
structure Pick {α β : Type*} [LE β] (f : α → β) where
  pick : List α → Option α
  mem : ∀ {l a}, pick l = some a → a ∈ l
  le : ∀ {l a}, pick l = some a → ∀ b ∈ l, f a ≤ f b
  none_iff : ∀ {l}, pick l = none ↔ l = []

/-- The first of the least ones. -/
def Pick.argmin {α β : Type*} [LinearOrder β] (f : α → β) : Pick f where
  pick := List.argmin f
  mem h := List.argmin_mem h
  le h _ hb := List.le_of_mem_argmin hb h
  none_iff := List.argmin_eq_none

end Nested
