import Mathlib

/-! # Machine arithmetic -/

namespace Machine

/-- The largest `u64`. -/
def u64Max : ℕ := 2 ^ 64 - 1

/-- `saturating_add`. -/
def satAdd (a b : UInt64) : UInt64 := .ofNat (min (a.toNat + b.toNat) u64Max)

/-- `saturating_mul`. -/
def satMul (a b : UInt64) : UInt64 := .ofNat (min (a.toNat * b.toNat) u64Max)

/-- `saturating_sub`. -/
def satSub (a b : UInt64) : UInt64 := .ofNat (a.toNat - b.toNat)

/-- A number as a `u64` if it fits: `checked_add`, `checked_mul` and the panics of `+`. -/
def checked (n : ℕ) : Option UInt64 := if n ≤ u64Max then some (.ofNat n) else none

lemma toNat_le (a : UInt64) : a.toNat ≤ u64Max := Nat.le_pred_of_lt a.toNat_lt

lemma toNat_ofNat {n : ℕ} (h : n ≤ u64Max) : (UInt64.ofNat n).toNat = n :=
  UInt64.toNat_ofNat_of_lt' (Nat.lt_of_le_pred (by norm_num) h)

@[simp] lemma toNat_satAdd (a b : UInt64) :
    (satAdd a b).toNat = min (a.toNat + b.toNat) u64Max :=
  toNat_ofNat (Nat.min_le_right _ _)

@[simp] lemma toNat_satMul (a b : UInt64) :
    (satMul a b).toNat = min (a.toNat * b.toNat) u64Max :=
  toNat_ofNat (Nat.min_le_right _ _)

@[simp] lemma toNat_satSub (a b : UInt64) : (satSub a b).toNat = a.toNat - b.toNat :=
  toNat_ofNat ((Nat.sub_le _ _).trans (toNat_le a))

lemma toNat_add_one {a : UInt64} (h : a.toNat + 1 ≠ UInt64.size) : (a + 1).toNat = a.toNat + 1 := by
  rw [UInt64.toNat_add, UInt64.toNat_one]
  have hsize : UInt64.size = 2 ^ 64 := rfl
  have hlt := a.toNat_lt
  omega

lemma toNat_add_one_u32 {a : UInt32} (h : a.toNat + 1 ≠ UInt32.size) :
    (a + 1).toNat = a.toNat + 1 := by
  rw [UInt32.toNat_add, UInt32.toNat_one]
  have hsize : UInt32.size = 2 ^ 32 := rfl
  have hlt := a.toNat_lt
  omega

lemma toNat_foldl_satAdd {α : Type*} (f : α → UInt64) (l : List α) (acc : UInt64) :
    (l.foldl (fun acc x => satAdd acc (f x)) acc).toNat =
      min (acc.toNat + (l.map fun x => (f x).toNat).sum) u64Max := by
  induction l generalizing acc with
  | nil => simp [toNat_le acc]
  | cons x l ih =>
    rw [List.foldl_cons, ih, toNat_satAdd, List.map_cons, List.sum_cons]
    omega

lemma checked_eq_some_iff {n : ℕ} {v : UInt64} : checked n = some v ↔ v.toNat = n := by
  unfold checked
  split
  · rename_i h
    rw [Option.some.injEq]
    constructor
    · rintro rfl
      exact toNat_ofNat h
    · intro hv
      exact UInt64.toNat_inj.mp ((toNat_ofNat h).trans hv.symm)
  · rename_i h
    exact ⟨fun hv => by simp at hv, fun hv => absurd (hv ▸ toNat_le v) h⟩

lemma checked_eq_none_iff {n : ℕ} : checked n = none ↔ u64Max < n := by
  simp [checked]

lemma foldl_min_add {α : Type*} (f : α → ℕ) (bound : ℕ) (es : List α) {acc : ℕ}
    (h : acc ≤ bound) :
    es.foldl (fun acc e => min (acc + f e) bound) acc = min (acc + (es.map f).sum) bound := by
  induction es generalizing acc with
  | nil => simp [h]
  | cons e es ih =>
    rw [List.foldl_cons, ih (Nat.min_le_right _ _), List.map_cons, List.sum_cons]
    omega

end Machine
