import Mathlib

/-! # Byte strings as numbers -/

namespace Digits

open List

/-- The number a byte string writes, most significant byte first. -/
def value : List UInt8 → ℕ
  | [] => 0
  | b :: l => b.toNat * 256 ^ l.length + value l

variable {l l' : List UInt8} {i n v : ℕ}

@[simp] lemma value_nil : value [] = 0 := rfl

lemma value_cons (b : UInt8) (l : List UInt8) :
    value (b :: l) = b.toNat * 256 ^ l.length + value l := rfl

lemma value_append (l l' : List UInt8) :
    value (l ++ l') = value l * 256 ^ l'.length + value l' := by
  induction l with
  | nil => simp
  | cons b l ih =>
    rw [cons_append, value_cons, value_cons, ih, length_append, pow_add]
    ring

lemma value_lt (l : List UInt8) : value l < 256 ^ l.length := by
  induction l with
  | nil => simp
  | cons b l ih =>
    have hb : b.toNat + 1 ≤ 256 := b.toNat_lt
    calc value (b :: l) = b.toNat * 256 ^ l.length + value l := rfl
      _ < b.toNat * 256 ^ l.length + 256 ^ l.length := by omega
      _ = (b.toNat + 1) * 256 ^ l.length := by ring
      _ ≤ 256 * 256 ^ l.length := Nat.mul_le_mul_right _ hb
      _ = 256 ^ (b :: l).length := by rw [length_cons, pow_succ, mul_comm]

lemma value_lt_two_pow (h : 8 * l.length = n) : value l < 2 ^ n := by
  have hlt := value_lt l
  rwa [show (256 : ℕ) = 2 ^ 8 by norm_num, ← pow_mul, h] at hlt

@[simp] lemma value_replicate_zero (n : ℕ) : value (replicate n 0) = 0 := by
  induction n with
  | zero => rfl
  | succ n ih => rw [replicate_succ, value_cons, ih]; simp

lemma value_eq_zero_iff : value l = 0 ↔ ∀ b ∈ l, b = 0 := by
  induction l with
  | nil => simp
  | cons b l ih =>
    rw [value_cons, Nat.add_eq_zero_iff, ih, forall_mem_cons, Nat.mul_eq_zero]
    have hpow : (256 : ℕ) ^ l.length ≠ 0 := by positivity
    simp only [hpow, or_false, ← UInt8.toNat_inj, UInt8.toNat_zero]

lemma value_take_succ {b : UInt8} (h : l[i]? = some b) :
    value (l.take (i + 1)) = 256 * value (l.take i) + b.toNat := by
  rw [take_add_one, h, Option.toList_some, value_append]
  simp [value_cons, mul_comm]

lemma value_set {old : UInt8} (h : l[i]? = some old) (b : UInt8) :
    value (l.set i b) + old.toNat * 256 ^ (l.length - 1 - i) =
      value l + b.toNat * 256 ^ (l.length - 1 - i) := by
  induction l generalizing i with
  | nil => simp at h
  | cons c l ih =>
    cases i with
    | zero =>
      obtain rfl : c = old := by simpa using h
      simp only [set_cons_zero, value_cons, length_cons, Nat.add_sub_cancel, Nat.sub_zero]
      omega
    | succ i =>
      have hexp : (c :: l).length - 1 - (i + 1) = l.length - 1 - i := by
        rw [length_cons]
        omega
      have ih := ih (i := i) (by simpa using h)
      rw [set_cons_succ, value_cons, value_cons, length_set, hexp]
      omega

lemma lt_iff_value_lt (h : l.length = l'.length) : l < l' ↔ value l < value l' := by
  induction l generalizing l' with
  | nil =>
    cases l' with
    | nil => simp
    | cons b l' => simp at h
  | cons b l ih =>
    cases l' with
    | nil => simp at h
    | cons b' l' =>
      have hlen : l.length = l'.length := Nat.succ.inj h
      have hl := value_lt l
      have hl' := value_lt l'
      rw [cons_lt_cons_iff, ih hlen, value_cons, value_cons, ← hlen]
      rw [← hlen] at hl'
      rcases lt_trichotomy b.toNat b'.toNat with hlt | heq | hgt
      · -- the first byte decides, whatever follows
        have hstep : (b.toNat + 1) * 256 ^ l.length ≤ b'.toNat * 256 ^ l.length :=
          Nat.mul_le_mul_right _ hlt
        rw [Nat.add_mul, one_mul] at hstep
        exact ⟨fun _ => by omega, fun _ => .inl hlt⟩
      · have hb : b = b' := UInt8.toNat_inj.mp heq
        subst hb
        constructor
        · rintro (hlt | ⟨-, hlt⟩)
          · exact absurd hlt (UInt8.lt_irrefl b)
          · omega
        · intro hlt
          exact .inr ⟨rfl, by omega⟩
      · have hstep : (b'.toNat + 1) * 256 ^ l.length ≤ b.toNat * 256 ^ l.length :=
          Nat.mul_le_mul_right _ hgt
        rw [Nat.add_mul, one_mul] at hstep
        constructor
        · rintro (hlt | ⟨heq, -⟩)
          · exact absurd hlt (Nat.lt_asymm hgt)
          · exact absurd (congrArg UInt8.toNat heq) (Nat.ne_of_gt hgt)
        · intro hlt
          omega

lemma value_inj (hlen : l.length = l'.length) (h : value l = value l') : l = l' := by
  have hlt : ¬ l < l' := by
    rw [lt_iff_value_lt hlen]
    omega
  have hgt : ¬ l' < l := by
    rw [lt_iff_value_lt hlen.symm]
    omega
  exact List.le_antisymm hgt hlt

/-! ### Carry loops -/

/-- A loop over the bytes from the last to the first that carries a number. -/
def down (round : ℕ → ℕ → Option (UInt8 × ℕ)) : ℕ → ℕ → List UInt8 → Option (List UInt8 × ℕ)
  | 0, carry, acc => some (acc, carry)
  | i + 1, carry, acc => do
    let (byte, carry) ← round i carry
    down round i carry (byte :: acc)

variable {round : ℕ → ℕ → Option (UInt8 × ℕ)}

lemma down_succ {carry : ℕ} {acc : List UInt8} {byte : UInt8} {carry' : ℕ}
    (h : round i carry = some (byte, carry')) :
    down round (i + 1) carry acc = down round i carry' (byte :: acc) := by
  rw [down, h]
  rfl

lemma exists_down {x X : ℕ → ℤ} {s : ℤ} {bound carry : ℕ} (acc : List UInt8)
    (hround : ∀ i < n, ∀ c ≤ bound, ∃ b, ∃ c' ≤ bound, round i c = some (b, c') ∧ (b.toNat : ℤ) +
      256 * s * c' = x i + s * c) (hzero : X 0 = 0) (hsucc : ∀ i < n, X (i + 1) = 256 * X i + x i)
    (hcarry : carry ≤ bound) :
    ∃ l, ∃ c ≤ bound, down round n carry acc = some (l, c) ∧ l.length = n + acc.length ∧
      (value l : ℤ) + s * c * 256 ^ (n + acc.length) =
        (X n + s * carry) * 256 ^ acc.length + value acc := by
  induction n generalizing carry acc with
  | zero =>
    refine ⟨acc, carry, hcarry, rfl, (Nat.zero_add _).symm, ?_⟩
    rw [hzero, Nat.zero_add]
    ring
  | succ n ih =>
    obtain ⟨b, c', hc', hb, hcol⟩ := hround n (Nat.lt_succ_self n) carry hcarry
    obtain ⟨l, c, hc, hl, hlen, hval⟩ := ih (b :: acc) (fun i hi => hround i (by omega))
      (fun i hi => hsucc i (by omega)) hc'
    rw [length_cons] at hlen hval
    refine ⟨l, c, hc, by rw [down_succ hb, hl], by omega, ?_⟩
    -- the column of this round, split as the round splits it
    have hb' : (b.toNat : ℤ) = x n + s * carry - 256 * s * c' := by linarith
    rw [value_cons] at hval
    push_cast at hval
    rw [hb'] at hval
    rw [hsucc n (Nat.lt_succ_self n), show n + 1 + acc.length = n + (acc.length + 1) by omega, hval]
    ring

/-! ### Long division in base two -/

/-- The `i` leading bits of an `n`-bit number. -/
def top (v n i : ℕ) : ℕ := v / 2 ^ (n - i)

/-- Its bit `i`, counted from the top. -/
def digit (v n i : ℕ) : ℕ := v / 2 ^ (n - 1 - i) % 2

lemma top_succ (h : i < n) : top v n (i + 1) = 2 * top v n i + digit v n i := by
  unfold top digit
  have hexp : n - i = (n - 1 - i) + 1 := by omega
  rw [show n - (i + 1) = n - 1 - i by omega, hexp, pow_succ, ← Nat.div_div_eq_div_mul]
  omega

lemma top_zero (h : v < 2 ^ n) : top v n 0 = 0 := Nat.div_eq_of_lt h

lemma top_le (v n i : ℕ) : top v n i ≤ v := Nat.div_le_self _ _

lemma digit_mul_two_pow_add (q r : ℕ) {k : ℕ} (h : n - 1 - i < k) :
    digit (q * 2 ^ k + r) n i = digit r n i := by
  obtain ⟨j, rfl⟩ := Nat.exists_eq_add_of_lt h
  have hsplit : q * 2 ^ (n - 1 - i + j + 1) = 2 ^ (n - 1 - i) * (2 * (2 ^ j * q)) := by ring
  rw [digit, digit, hsplit, Nat.mul_add_div (by positivity), Nat.mul_add_mod]

lemma top_succ_split (h : i < n) (m : ℕ) :
    top v n (i + 1) = (2 * (top v n i % m) + digit v n i) + m * (2 * (top v n i / m)) := by
  have hmod := Nat.mod_add_div (top v n i) m
  rw [top_succ h]
  calc 2 * top v n i + digit v n i
      = 2 * (top v n i % m + m * (top v n i / m)) + digit v n i := by rw [hmod]
    _ = _ := by ring

lemma top_succ_of_lt {m : ℕ} (hi : i < n) (h : 2 * (top v n i % m) + digit v n i < m) :
    top v n (i + 1) % m = 2 * (top v n i % m) + digit v n i ∧
      top v n (i + 1) / m = 2 * (top v n i / m) := by
  rw [top_succ_split hi m, Nat.add_mul_mod_self_left, Nat.add_mul_div_left _ _ (by omega),
    Nat.mod_eq_of_lt h, Nat.div_eq_of_lt h, zero_add]
  exact ⟨rfl, rfl⟩

lemma top_succ_of_le {m : ℕ} (hi : i < n) (hm : 0 < m) (h : m ≤ 2 * (top v n i % m) + digit v n i) :
    top v n (i + 1) % m = 2 * (top v n i % m) + digit v n i - m ∧
      top v n (i + 1) / m = 2 * (top v n i / m) + 1 := by
  have hlt : top v n i % m < m := Nat.mod_lt _ hm
  have hbit : digit v n i < 2 := Nat.mod_lt _ (by decide)
  have hone : (2 * (top v n i % m) + digit v n i) / m = 1 :=
    Nat.div_eq_of_lt_le (by omega) (by omega)
  rw [top_succ_split hi m, Nat.add_mul_mod_self_left, Nat.add_mul_div_left _ _ hm, hone,
    Nat.mod_eq_sub_mod h, Nat.mod_eq_of_lt (by omega)]
  exact ⟨rfl, Nat.add_comm 1 _⟩

lemma top_full (v n : ℕ) : top v n n = v := by
  rw [top, Nat.sub_self, pow_zero, Nat.div_one]

lemma digit_value {b : UInt8} (h : l[i / 8]? = some b) :
    digit (value l) (8 * l.length) i = b.toNat / 2 ^ (7 - i % 8) % 2 := by
  obtain ⟨hlt, -⟩ := List.getElem?_eq_some_iff.mp h
  -- the bytes behind the one of the digit, and the digits behind it in its byte
  have hexp : 8 * l.length - 1 - i = 8 * (l.length - (i / 8 + 1)) + (7 - i % 8) := by omega
  have hsplit := value_append (l.take (i / 8 + 1)) (l.drop (i / 8 + 1))
  have hrest := value_lt (l.drop (i / 8 + 1))
  rw [take_append_drop, length_drop, value_take_succ h] at hsplit
  rw [length_drop] at hrest
  have hpow : (2 : ℕ) ^ (8 * (l.length - (i / 8 + 1))) = 256 ^ (l.length - (i / 8 + 1)) := by
    rw [pow_mul]
    norm_num
  have hhead : value l / 256 ^ (l.length - (i / 8 + 1)) =
      256 * value (l.take (i / 8)) + b.toNat := by
    rw [hsplit, mul_comm, Nat.mul_add_div (by positivity), Nat.div_eq_of_lt hrest, add_zero]
  have h256 : (256 : ℕ) = 2 ^ (7 - i % 8) * (2 ^ (i % 8) * 2) := by
    rw [← pow_succ, ← pow_add, show 7 - i % 8 + (i % 8 + 1) = 8 by omega]
    norm_num
  have hdiv : (256 * value (l.take (i / 8)) + b.toNat) / 2 ^ (7 - i % 8) =
      2 ^ (i % 8) * 2 * value (l.take (i / 8)) + b.toNat / 2 ^ (7 - i % 8) := by
    rw [h256, mul_assoc, Nat.mul_add_div (by positivity)]
  rw [digit, hexp, pow_add, ← Nat.div_div_eq_div_mul, hpow, hhead, hdiv,
    show 2 ^ (i % 8) * 2 * value (l.take (i / 8)) = 2 * (2 ^ (i % 8) * value (l.take (i / 8))) by ring,
    Nat.mul_add_mod]

lemma testBit_value {j : ℕ} (hj : j / 8 < l.length) :
    (value l).testBit j = ((l.getD (l.length - 1 - j / 8) 0).toNat).testBit (j % 8) := by
  have hi : (8 * l.length - 1 - j) / 8 = l.length - 1 - j / 8 := by omega
  have hmod : 7 - (8 * l.length - 1 - j) % 8 = j % 8 := by omega
  have hget : l[(8 * l.length - 1 - j) / 8]? = some (l.getD (l.length - 1 - j / 8) 0) := by
    rw [hi, getD_eq_getElem?_getD, getElem?_eq_getElem (by omega), Option.getD_some]
  have hdigit := digit_value hget
  rw [digit, hmod, show 8 * l.length - 1 - (8 * l.length - 1 - j) = j by omega] at hdigit
  rw [Nat.testBit_eq_decide_div_mod_eq, Nat.testBit_eq_decide_div_mod_eq, hdigit]

end Digits
