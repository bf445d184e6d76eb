import Mathlib

/-! # Shuffles -/

namespace Shuffle

variable {α σ : Type*}

/-- Two elements exchanged. -/
def swapAt (l : List α) (i j : ℕ) : List α :=
  match l[i]?, l[j]? with
  | some a, some b => (l.set i b).set j a
  | _, _ => l

lemma swapAt_perm (l : List α) (i j : ℕ) : (swapAt l i j).Perm l := by
  unfold swapAt
  split
  · rename_i a b hi hj
    obtain ⟨hilt, rfl⟩ := List.getElem?_eq_some_iff.mp hi
    obtain ⟨hjlt, rfl⟩ := List.getElem?_eq_some_iff.mp hj
    exact List.set_set_perm hilt hjlt
  · exact .refl l

lemma swapAt_eq {l : List α} {i j : ℕ} (hi : i < l.length) (hj : j < l.length) :
    swapAt l i j = (l.set i l[j]).set j l[i] := by
  simp [swapAt, hi, hj]

@[simp] lemma swapAt_self (l : List α) (i : ℕ) : swapAt l i i = l := by
  unfold swapAt
  split
  · rename_i a b hi hj
    obtain ⟨hilt, rfl⟩ := List.getElem?_eq_some_iff.mp hi
    simp
  · rfl

/-- The shuffle that draws a partner for each place, from the last to the second. -/
def shuffle (next : σ → σ) (draw : σ → ℕ) : ℕ → σ → List α → List α
  | 0, _, l => l
  | i + 1, s, l => shuffle next draw i (next s) (swapAt l (i + 1) (draw (next s) % (i + 2)))

lemma shuffle_perm (next : σ → σ) (draw : σ → ℕ) (i : ℕ) (s : σ) (l : List α) :
    (shuffle next draw i s l).Perm l := by
  induction i generalizing s l with
  | zero => exact .refl l
  | succ i ih => exact (ih _ _).trans (swapAt_perm l _ _)

lemma shuffle_eq_swapAt {next : σ → σ} {draw : σ → ℕ} {t : ℕ → σ} {m q x : ℕ}
    (hnext : ∀ k < m, next (t k) = t (k + 1)) (hq : 0 < q) (hx : x ≤ q)
    (hdraw : ∀ k, 0 < k → k < m → draw (t k) = if m - k = q then x else m - k)
    (i k : ℕ) (hik : i + k + 1 = m) (l : List α) :
    shuffle next draw i (t k) l = if q ≤ i then swapAt l q x else l := by
  induction i generalizing k l with
  | zero => simp [shuffle, hq.ne']
  | succ i ih =>
    have hpos : m - (k + 1) = i + 1 := by omega
    rw [shuffle, hnext k (by omega), ih (k + 1) (by omega), hdraw (k + 1) (by omega) (by omega), hpos]
    by_cases heq : i + 1 = q
    · rw [if_pos heq, if_neg (by omega), if_pos (by omega), Nat.mod_eq_of_lt (by omega), heq]
    · rw [if_neg heq, Nat.mod_eq_of_lt (by omega), swapAt_self]
      by_cases hle : q ≤ i
      · rw [if_pos hle, if_pos (by omega)]
      · rw [if_neg hle, if_neg (by omega)]

end Shuffle
