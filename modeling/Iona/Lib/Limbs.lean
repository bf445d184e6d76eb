import Mathlib

/-! # Numbers in limbs -/

namespace Limbs

open List

open Nat (ofDigits)

section

variable {R : ℕ} {l : List ℕ} {i x : ℕ}

lemma ofDigits_take_succ (h : l[i]? = some x) :
    ofDigits R (l.take (i + 1)) = ofDigits R (l.take i) + x * R ^ i := by
  obtain ⟨hlt, -⟩ := List.getElem?_eq_some_iff.mp h
  rw [take_add_one, h, Option.toList_some, Nat.ofDigits_append, Nat.ofDigits_singleton,
    length_take, Nat.min_eq_left (Nat.le_of_lt hlt), mul_comm]

lemma ofDigits_set (h : l[i]? = some x) (y : ℕ) :
    ofDigits R (l.set i y) + x * R ^ i = ofDigits R l + y * R ^ i := by
  induction l generalizing i with
  | nil => simp at h
  | cons d l ih =>
    cases i with
    | zero =>
      obtain rfl : d = x := by simpa using h
      rw [set_cons_zero, Nat.ofDigits_cons, Nat.ofDigits_cons]
      ring
    | succ i =>
      have ih := ih (i := i) (by simpa using h)
      rw [set_cons_succ, Nat.ofDigits_cons, Nat.ofDigits_cons]
      calc d + R * ofDigits R (l.set i y) + x * R ^ (i + 1)
          = d + R * (ofDigits R (l.set i y) + x * R ^ i) := by ring
        _ = d + R * (ofDigits R l + y * R ^ i) := by rw [ih]
        _ = d + R * ofDigits R l + y * R ^ (i + 1) := by ring

end

/-! ### The limbs of a number -/

/-- Digit `i` of `v` in base `R`. -/
def limb (R v i : ℕ) : ℕ := v / R ^ i % R

variable {R : ℕ}

lemma limb_ofDigits {l : List ℕ} (hl : ∀ d ∈ l, d < R) {i x : ℕ} (h : l[i]? = some x) :
    limb R (ofDigits R l) i = x := by
  have hx : x ∈ l := mem_of_getElem? h
  have hdrop : l.drop i = x :: l.drop (i + 1) := by
    obtain ⟨hlt, hget⟩ := List.getElem?_eq_some_iff.mp h
    rw [drop_eq_getElem_cons hlt, hget]
  rw [limb, Nat.ofDigits_div_pow_eq_ofDigits_drop i (Nat.zero_lt_of_lt (hl x hx)) l hl, hdrop,
    Nat.ofDigits_cons, Nat.add_mul_mod_self_left, Nat.mod_eq_of_lt (hl x hx)]

lemma limb_mod_pow (v : ℕ) {n i : ℕ} (hi : i < n) : limb R (v % R ^ n) i = limb R v i := by
  have hpow : R ^ n = R ^ i * (R * R ^ (n - 1 - i)) := by
    rw [← pow_succ', ← pow_add]
    congr 1
    omega
  rw [limb, limb, hpow, Nat.mod_mul_right_div_self, Nat.mod_mul_right_mod]

lemma eq_iff_limbs {u v n : ℕ} (hu : u < R ^ n) (hv : v < R ^ n) :
    u = v ↔ ∀ i < n, limb R u i = limb R v i := by
  constructor
  · rintro rfl i -
    rfl
  · intro h
    -- the first `k` limbs, for each `k`
    have hmod : ∀ k ≤ n, u % R ^ k = v % R ^ k := by
      intro k
      induction k with
      | zero => simp [Nat.mod_one]
      | succ k ih =>
        intro hk
        have hlimb := h k hk
        unfold limb at hlimb
        rw [pow_succ, Nat.mod_mul, Nat.mod_mul, ih (by omega), hlimb]
    have hn := hmod n le_rfl
    rwa [Nat.mod_eq_of_lt hu, Nat.mod_eq_of_lt hv] at hn

/-- The number with its `n` lowest digits in reverse order. -/
def mirror (R n v : ℕ) : ℕ := ofDigits R ((List.range n).map fun i => limb R v (n - 1 - i))

lemma limb_lt (hR : 0 < R) (v i : ℕ) : limb R v i < R := Nat.mod_lt _ hR

lemma mirror_digits_lt (hR : 0 < R) (n v : ℕ) :
    ∀ d ∈ (List.range n).map fun i => limb R v (n - 1 - i), d < R := by
  intro d hd
  obtain ⟨i, -, rfl⟩ := List.mem_map.mp hd
  exact limb_lt hR v _

lemma limb_mirror (hR : 0 < R) (v : ℕ) {n i : ℕ} (hi : i < n) :
    limb R (mirror R n v) i = limb R v (n - 1 - i) :=
  limb_ofDigits (mirror_digits_lt hR n v) (by simp [hi])

lemma mirror_lt (hR : 1 < R) (n v : ℕ) : mirror R n v < R ^ n := by
  have hlt := Nat.ofDigits_lt_base_pow_length hR (mirror_digits_lt (Nat.zero_lt_of_lt hR) n v)
  rwa [length_map, length_range] at hlt

lemma mirror_mirror (hR : 1 < R) {n v : ℕ} (hv : v < R ^ n) :
    mirror R n (mirror R n v) = v := by
  have hpos : 0 < R := Nat.zero_lt_of_lt hR
  refine (eq_iff_limbs (mirror_lt hR n _) hv).mpr fun i hi => ?_
  rw [limb_mirror hpos _ hi, limb_mirror hpos _ (by omega)]
  congr 1
  omega

lemma mirror_of_lt (n : ℕ) {v : ℕ} (hv : v < R) : mirror R (n + 1) v = v * R ^ n := by
  have hzeros : (List.range n).map (fun i => limb R v (n + 1 - 1 - i)) = replicate n 0 := by
    refine eq_replicate_iff.mpr ⟨by simp, fun d hd => ?_⟩
    obtain ⟨i, hi, rfl⟩ := List.mem_map.mp hd
    have hi := mem_range.mp hi
    have hlt : v < R ^ (n + 1 - 1 - i) :=
      lt_of_lt_of_le hv (Nat.le_self_pow (by omega) R)
    rw [limb, Nat.div_eq_of_lt hlt, Nat.zero_mod]
  rw [mirror, range_succ, map_append, hzeros, Nat.ofDigits_append,
    Nat.ofDigits_replicate_zero, length_replicate]
  simp [limb, Nat.mod_eq_of_lt hv, mul_comm]

/-! ### Limbs of 64 bits -/

/-- The number of a list of limbs, least significant first. -/
def value (l : List UInt64) : ℕ := ofDigits (2 ^ 64) (l.map UInt64.toNat)

@[simp] lemma value_nil : value [] = 0 := rfl

lemma toNat_lt_of_mem {l : List UInt64} : ∀ d ∈ l.map UInt64.toNat, d < 2 ^ 64 := by
  intro d hd
  obtain ⟨x, -, rfl⟩ := List.mem_map.mp hd
  exact x.toNat_lt

lemma value_lt (l : List UInt64) : value l < (2 ^ 64) ^ l.length := by
  have hlt := Nat.ofDigits_lt_base_pow_length (b := 2 ^ 64) (by norm_num) (toNat_lt_of_mem (l := l))
  rwa [length_map] at hlt

lemma value_append (l l' : List UInt64) :
    value (l ++ l') = value l + (2 ^ 64) ^ l.length * value l' := by
  rw [value, map_append, Nat.ofDigits_append, length_map]
  rfl

@[simp] lemma value_replicate_zero (n : ℕ) : value (replicate n 0) = 0 := by
  rw [value, map_replicate, UInt64.toNat_zero, Nat.ofDigits_replicate_zero]

lemma value_take_add_drop {l : List UInt64} {k : ℕ} (hk : k ≤ l.length) :
    value l = value (l.take k) + (2 ^ 64) ^ k * value (l.drop k) := by
  have hcut := value_append (l.take k) (l.drop k)
  rwa [take_append_drop, length_take, Nat.min_eq_left hk] at hcut

variable {l : List UInt64} {i : ℕ} {x : UInt64}

lemma value_take_succ (h : l[i]? = some x) :
    value (l.take (i + 1)) = value (l.take i) + x.toNat * (2 ^ 64) ^ i := by
  rw [value, map_take, ofDigits_take_succ (x := x.toNat) (by simp [h]), ← map_take]
  rfl

lemma value_set (h : l[i]? = some x) (y : UInt64) :
    value (l.set i y) + x.toNat * (2 ^ 64) ^ i = value l + y.toNat * (2 ^ 64) ^ i := by
  rw [value, map_set]
  exact ofDigits_set (by simp [h]) y.toNat

lemma limb_value (h : l[i]? = some x) : limb (2 ^ 64) (value l) i = x.toNat :=
  limb_ofDigits toNat_lt_of_mem (by simp [h])

end Limbs
