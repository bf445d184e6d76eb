import Iona.Vm.Bits

/-! # Multiplication of words -/

namespace Iona.Vm

open Limbs (limb mirror)

def Word.mirrored (w : Word) : ℕ := mirror (2 ^ 64) 4 (Word.value w)

/-! ### Bytes and limbs -/

lemma limb_bytes {l : List UInt8} {n i : ℕ} (hlen : l.length = 8 * n) (hi : i < n) :
    limb (2 ^ 64) (Digits.value l) (n - 1 - i) = Digits.value ((l.drop (8 * i)).take 8) := by
  have hpow : (2 ^ 64) ^ (n - 1 - i) = 256 ^ (l.drop (8 * (i + 1))).length := by
    rw [List.length_drop, hlen, show 8 * n - 8 * (i + 1) = 8 * (n - 1 - i) by omega, pow_mul]
    norm_num
  -- the bytes before the limb, its own, and those behind it
  have hcut : l.take (8 * (i + 1)) = l.take (8 * i) ++ (l.drop (8 * i)).take 8 := by
    rw [show 8 * (i + 1) = 8 * i + 8 by omega, List.take_add]
  have hown : ((l.drop (8 * i)).take 8).length = 8 := by
    rw [List.length_take, List.length_drop]
    omega
  have hlt := Digits.value_lt ((l.drop (8 * i)).take 8)
  have hsplit := Digits.value_append (l.take (8 * (i + 1))) (l.drop (8 * (i + 1)))
  rw [List.take_append_drop, hcut, Digits.value_append, hown] at hsplit
  rw [hown] at hlt
  rw [limb, hpow, hsplit, mul_comm _ (256 ^ _), Nat.mul_add_div (by positivity),
    Nat.div_eq_of_lt (Digits.value_lt _), add_zero]
  norm_num at hlt ⊢
  omega

lemma value_flatMap {f : UInt64 → List UInt8} (hf : ∀ x, (f x).length = 8) (l : List UInt64) :
    Digits.value (l.reverse.flatMap f) =
      Nat.ofDigits (2 ^ 64) (l.map fun x => Digits.value (f x)) := by
  induction l with
  | nil => rfl
  | cons x l ih =>
    rw [List.reverse_cons, List.flatMap_append, Digits.value_append, ih, List.map_cons,
      Nat.ofDigits_cons, List.flatMap_singleton, hf]
    norm_num
    ring

lemma mirrored_lt (w : Word) : Word.mirrored w < (2 ^ 64) ^ 4 :=
  Limbs.mirror_lt (by norm_num) 4 _

lemma limb_mirrored (w : Word) {i : ℕ} (hi : i < 4) :
    limb (2 ^ 64) (Word.mirrored w) i = limb (2 ^ 64) (Word.value w) (3 - i) :=
  Limbs.limb_mirror (by norm_num) _ hi

lemma value_eq_of_limbs {limbs : Vector UInt64 4} {v : ℕ} (hv : v < (2 ^ 64) ^ 4)
    (h : ∀ (i : ℕ) (hi : i < 4), limbs[i].toNat = limb (2 ^ 64) v i) :
    Limbs.value limbs.toList = v := by
  have hlt := Limbs.value_lt limbs.toList
  rw [Vector.length_toList] at hlt
  refine (Limbs.eq_iff_limbs hlt hv).mpr fun i hi => ?_
  rw [Limbs.limb_value (show limbs.toList[i]? = some limbs[i] by simp [hi]), h i hi]

lemma value_bytesToU64Le (w : Word) :
    Limbs.value (bytesToU64Le w).toList = Word.mirrored w := by
  refine value_eq_of_limbs (mirrored_lt w) fun i hi => ?_
  have hlen : ((w.toList.drop (8 * i)).take 8).length = 8 := by
    rw [List.length_take, List.length_drop, length_toList]
    omega
  have hlt := Digits.value_lt_two_pow (l := (w.toList.drop (8 * i)).take 8) (n := 64) (by rw [hlen])
  rw [limb_mirrored w hi, Word.value, limb_bytes (n := 4) (by rw [length_toList]) hi]
  simp only [bytesToU64Le, Vector.getElem_ofFn]
  rw [UInt64.toNat_ofNat', Nat.mod_eq_of_lt hlt]

lemma exists_u64LeToBytes (limbs : Vector UInt64 4) :
    ∃ w, u64LeToBytes limbs = some w ∧ Word.mirrored w = Limbs.value limbs.toList := by
  have hlen : (limbs.toList.flatMap fun limb => (Bytes.ofU64 limb).reverse).length = 32 := by
    simp [List.length_flatMap]
  obtain ⟨w, hw, hbytes⟩ := wordOf_of_length hlen
  have hvalue : Word.value w = Limbs.value limbs.toList.reverse := by
    have hflat := value_flatMap (f := fun limb => (Bytes.ofU64 limb).reverse) (by simp)
      limbs.toList.reverse
    have hread : ∀ x : UInt64, Digits.value (Bytes.ofU64 x).reverse = x.toNat := by
      intro x
      rw [Bytes.ofU64, value_reverse_le, Nat.mod_eq_of_lt (by have := x.toNat_lt; omega)]
    simp only [hread, List.reverse_reverse] at hflat
    rw [Word.value, hbytes, hflat]
    rfl
  refine ⟨w, hw, (value_eq_of_limbs (mirrored_lt w) fun i hi => ?_).symm⟩
  have hget : limbs.toList.reverse[3 - i]? = some limbs[i] := by
    rw [List.getElem?_reverse (by rw [Vector.length_toList]; omega), Vector.length_toList,
      show 4 - 1 - (3 - i) = i by omega]
    simp [hi]
  rw [limb_mirrored w hi, hvalue, Limbs.limb_value hget]

/-! ### What the two functions compute -/

lemma mirrored_wordMul (a b : Word) : ∃ w, wordMul a b = some w ∧
    Word.mirrored w = Word.mirrored a * Word.mirrored b % (2 ^ 64) ^ 4 := by
  obtain ⟨limbs, hloop, hval⟩ := mul_loop (bytesToU64Le a) (bytesToU64Le b)
  obtain ⟨w, hw, hmirror⟩ := exists_u64LeToBytes limbs
  refine ⟨w, by rw [wordMul, hloop]; exact hw, ?_⟩
  rw [hmirror, hval, value_bytesToU64Le, value_bytesToU64Le]

lemma value_eq_mirror (w : Word) : Word.value w = mirror (2 ^ 64) 4 (Word.mirrored w) :=
  (Limbs.mirror_mirror (by norm_num) (lt_of_lt_of_eq (value_lt w) (by norm_num))).symm

lemma mirrored_of_lt {w : Word} (h : Word.value w < 2 ^ 64) :
    Word.mirrored w = Word.value w * (2 ^ 64) ^ 3 :=
  Limbs.mirror_of_lt 3 h

lemma wordMul_of_lt {a b : Word} (ha : Word.value a < 2 ^ 64) (hb : Word.value b < 2 ^ 64) :
    wordMul a b = some zero := by
  obtain ⟨w, hw, hmirror⟩ := mirrored_wordMul a b
  have hzero : Word.mirrored w = 0 := by
    rw [hmirror, mirrored_of_lt ha, mirrored_of_lt hb, show Word.value a * (2 ^ 64) ^ 3 *
      (Word.value b * (2 ^ 64) ^ 3) = Word.value a * Word.value b * (2 ^ 64) ^ 2 * (2 ^ 64) ^ 4 by ring]
    exact Nat.mul_mod_left _ _
  rw [hw, zero_eq, eq_ofBits (w := w) (v := 0)]
  rw [value_eq_mirror, hzero]
  decide

def swapBytes (v : ℕ) : ℕ := Digits.value (Bytes.le 8 v)

lemma swapBytes_lt (v : ℕ) : swapBytes v < 2 ^ 64 :=
  Digits.value_lt_two_pow (by rw [Bytes.length_le])

lemma limb_wordMulFull (a b : Word) : ∃ prod, wordMulFull a b = some prod ∧ prod.length = 64 ∧
    ∀ i < 8, limb (2 ^ 64) (Digits.value prod) i =
      swapBytes (limb (2 ^ 64) (Word.mirrored a * Word.mirrored b) i) := by
  obtain ⟨limbs, hloop, hval⟩ := mulFull_loop (bytesToU64Le a) (bytesToU64Le b)
  rw [value_bytesToU64Le, value_bytesToU64Le] at hval
  refine ⟨limbs.toList.reverse.flatMap Bytes.ofU64, by rw [wordMulFull, hloop]; rfl,
    by simp [List.length_flatMap], fun i hi => ?_⟩
  rw [value_flatMap Bytes.length_ofU64, ← hval,
    Limbs.limb_value (show limbs.toList[i]? = some limbs[i] by simp [hi])]
  refine Limbs.limb_ofDigits ?_ (by simp [hi, swapBytes, Bytes.ofU64])
  intro d hd
  obtain ⟨x, -, rfl⟩ := List.mem_map.mp hd
  exact swapBytes_lt x.toNat

structure MultipliesExactly (a b : Word) : Prop where
  low : ∃ w, wordMul a b = some w ∧ Word.value w = Word.value a * Word.value b % 2 ^ 256
  full : ∃ prod, wordMulFull a b = some prod ∧ prod.length = 64 ∧
    Digits.value prod = Word.value a * Word.value b

lemma wordMul_right_iff (a b : Word) :
    (∃ w, wordMul a b = some w ∧ Word.value w = Word.value a * Word.value b % 2 ^ 256) ↔
      ∀ i < 4, limb (2 ^ 64) (Word.mirrored a * Word.mirrored b) i =
        limb (2 ^ 64) (Word.value a * Word.value b) (3 - i) := by
  obtain ⟨w, hw, hmirror⟩ := mirrored_wordMul a b
  have hlimb : ∀ i < 4, limb (2 ^ 64) (Word.mirrored a * Word.mirrored b) i =
      limb (2 ^ 64) (Word.value w) (3 - i) := by
    intro i hi
    rw [← limb_mirrored w hi, hmirror, Limbs.limb_mod_pow _ hi]
  have hpow : (2 ^ 256 : ℕ) = (2 ^ 64) ^ 4 := by norm_num
  have hex : (∃ w, wordMul a b = some w ∧
      Word.value w = Word.value a * Word.value b % 2 ^ 256) ↔
      Word.value w = Word.value a * Word.value b % (2 ^ 64) ^ 4 := by
    rw [hw, ← hpow]
    simp
  rw [hex, Limbs.eq_iff_limbs (n := 4) (by rw [← hpow]; exact value_lt w)
    (Nat.mod_lt _ (by positivity))]
  constructor
  · intro h i hi
    rw [hlimb i hi, h (3 - i) (by omega), Limbs.limb_mod_pow _ (by omega)]
  · intro h i hi
    have hback := h (3 - i) (by omega)
    rw [hlimb (3 - i) (by omega), show 3 - (3 - i) = i by omega] at hback
    rw [hback, Limbs.limb_mod_pow _ hi]

lemma wordMulFull_right_iff (a b : Word) :
    (∃ prod, wordMulFull a b = some prod ∧ prod.length = 64 ∧
      Digits.value prod = Word.value a * Word.value b) ↔
      ∀ i < 8, swapBytes (limb (2 ^ 64) (Word.mirrored a * Word.mirrored b) i) =
        limb (2 ^ 64) (Word.value a * Word.value b) i := by
  obtain ⟨prod, hprod, hlen, hlimb⟩ := limb_wordMulFull a b
  have hlt : Digits.value prod < (2 ^ 64) ^ 8 := by
    rw [← pow_mul]
    exact Digits.value_lt_two_pow (by rw [hlen])
  have hmul : Word.value a * Word.value b < (2 ^ 64) ^ 8 :=
    lt_of_lt_of_eq (Nat.mul_lt_mul'' (value_lt a) (value_lt b)) (by norm_num)
  have hex : (∃ prod, wordMulFull a b = some prod ∧ prod.length = 64 ∧
      Digits.value prod = Word.value a * Word.value b) ↔
      Digits.value prod = Word.value a * Word.value b := by
    rw [hprod]
    simp [hlen]
  rw [hex, Limbs.eq_iff_limbs hlt hmul]
  exact forall₂_congr fun i hi => by rw [hlimb i hi]

lemma multipliesExactly_comm (a b : Word) : MultipliesExactly a b ↔ MultipliesExactly b a := by
  have hiff : ∀ a b : Word, MultipliesExactly a b ↔
      (∃ w, wordMul a b = some w ∧ Word.value w = Word.value a * Word.value b % 2 ^ 256) ∧
      ∃ prod, wordMulFull a b = some prod ∧ prod.length = 64 ∧
        Digits.value prod = Word.value a * Word.value b :=
    fun a b => ⟨fun h => ⟨h.low, h.full⟩, fun h => ⟨h.1, h.2⟩⟩
  rw [hiff a b, hiff b a, wordMul_right_iff, wordMul_right_iff, wordMulFull_right_iff,
    wordMulFull_right_iff, mul_comm (Word.mirrored a), mul_comm (Word.value a)]

lemma multipliesExactly_of_zero {a : Word} (ha : Word.value a = 0) (b : Word) :
    MultipliesExactly a b := by
  have hmirror : Word.mirrored a = 0 := by
    rw [mirrored_of_lt (by rw [ha]; norm_num), ha, zero_mul]
  have hswap : swapBytes 0 = 0 := by decide
  refine ⟨(wordMul_right_iff a b).mpr ?_, (wordMulFull_right_iff a b).mpr ?_⟩
  · simp [hmirror, ha, limb]
  · simp [hmirror, ha, limb, hswap]

/-- Multiplied by one, a word comes back as its top limb. -/
lemma eq_zero_of_multipliesExactly_one {a : Word} (h : MultipliesExactly a (Word.ofBits 1)) :
    Word.value a = 0 := by
  have hone : Word.value (Word.ofBits 1) = 1 := by
    rw [value_ofBits]
    rfl
  have hmirror : Word.mirrored (Word.ofBits 1) = (2 ^ 64) ^ 3 := by
    rw [mirrored_of_lt (by rw [hone]; norm_num), hone, one_mul]
  have hlimbs := (wordMul_right_iff a _).mp h.low
  rw [hmirror, hone, mul_one] at hlimbs
  -- the three low limbs of the product are zero, the fourth is the top limb of the word
  have hlow : ∀ i < 3, limb (2 ^ 64) (Word.value a) (3 - i) = 0 := by
    intro i hi
    rw [← hlimbs i (by omega), limb, show 3 = i + (2 - i) + 1 by omega, pow_succ, pow_add,
      mul_assoc, mul_left_comm, Nat.mul_div_cancel_left _ (by positivity), ← mul_assoc,
      Nat.mul_mod_left]
  have htop : limb (2 ^ 64) (Word.value a) 0 = 0 := by
    have hfourth := hlimbs 3 (by decide)
    rw [limb, Nat.mul_div_cancel _ (by positivity)] at hfourth
    have hmirrored := limb_mirrored a (i := 0) (by decide)
    rw [hlow 0 (by decide), limb, pow_zero, Nat.div_one] at hmirrored
    exact hfourth.symm.trans hmirrored
  refine (Limbs.eq_iff_limbs (R := 2 ^ 64) (n := 4) (lt_of_lt_of_eq (value_lt a) (by norm_num))
    (by positivity)).mpr fun i hi => ?_
  rw [limb, limb, Nat.zero_div, Nat.zero_mod, ← limb]
  obtain rfl | hpos := Nat.eq_zero_or_pos i
  · exact htop
  · rw [← hlow (3 - i) (by omega), show 3 - (3 - i) = i by omega]

/-- **Which words multiply exactly.** A word is multiplied exactly by every word, on either side,
only if it is zero; and of two words that fit one limb, `word_mul` and `word_mul_full` give the
product only if one of them is zero. -/
theorem multiplies_exactly_iff (a : Word) :
    ((∀ b, MultipliesExactly a b) ↔ Word.value a = 0) ∧
    ((∀ b, MultipliesExactly b a) ↔ Word.value a = 0) ∧
    (Word.value a < 2 ^ 64 → ∀ b, Word.value b < 2 ^ 64 →
      (MultipliesExactly a b ↔ Word.value a = 0 ∨ Word.value b = 0)) := by
  have hleft : (∀ b, MultipliesExactly a b) ↔ Word.value a = 0 :=
    ⟨fun h => eq_zero_of_multipliesExactly_one (h _), multipliesExactly_of_zero⟩
  refine ⟨hleft, ?_, fun ha b hb => ⟨fun h => ?_, ?_⟩⟩
  · rw [← hleft]
    exact forall_congr' fun b => multipliesExactly_comm b a
  · obtain ⟨w, hw, hval⟩ := h.low
    rw [wordMul_of_lt ha hb, Option.some.injEq] at hw
    have hlt : Word.value a * Word.value b < 2 ^ 256 :=
      lt_trans (Nat.mul_lt_mul'' ha hb) (by norm_num)
    rw [← hw, zero_eq, value_ofBits, Nat.mod_eq_of_lt hlt] at hval
    exact Nat.mul_eq_zero.mp hval.symm
  · rintro (hzero | hzero)
    · exact multipliesExactly_of_zero hzero b
    · exact (multipliesExactly_comm a b).mpr (multipliesExactly_of_zero hzero a)

/-- Two times three is zero. -/
theorem two_times_three :
    wordMul (Word.ofBits 2) (Word.ofBits 3) = some zero ∧
      ¬ MultipliesExactly (Word.ofBits 2) (Word.ofBits 3) := by
  have hmul : wordMul (Word.ofBits 2) (Word.ofBits 3) = some zero :=
    wordMul_of_lt (by rw [value_ofBits]; decide) (by rw [value_ofBits]; decide)
  refine ⟨hmul, fun hexact => ?_⟩
  obtain ⟨w, hw, hval⟩ := hexact.low
  rw [hmul, Option.some.injEq] at hw
  rw [← hw, value_ofBits, value_ofBits, zero_eq, value_ofBits] at hval
  exact absurd hval (by decide)

end Iona.Vm
