import Iona.Vm.WordLoops

/-! # Words as bit vectors -/

namespace Iona.Vm

def Word.bits (w : Word) : BitVec 256 := BitVec.ofNat 256 (Word.value w)

def Word.toInt (w : Word) : ℤ := (Word.bits w).toInt

def Word.ofBits (v : BitVec 256) : Word := ⟨(Bytes.le 32 v.toNat).reverse.toArray, by simp⟩

@[simp] lemma toNat_bits (w : Word) : (Word.bits w).toNat = Word.value w := by
  rw [Word.bits, BitVec.toNat_ofNat, Nat.mod_eq_of_lt (value_lt w)]

lemma value_injective : Function.Injective Word.value := by
  intro a b h
  have hlist : a.toList = b.toList := Digits.value_inj (by simp) h
  exact Vector.toList_inj.mp hlist

lemma bits_injective : Function.Injective Word.bits := by
  intro a b h
  refine value_injective ?_
  rw [← toNat_bits, h, toNat_bits]

lemma value_reverse_le (n v : ℕ) : Digits.value (Bytes.le n v).reverse = v % 256 ^ n := by
  induction n generalizing v with
  | zero => simp [Nat.mod_one]
  | succ n ih =>
    rw [Bytes.le_succ, List.reverse_cons, Digits.value_append, ih, Digits.value_cons, pow_succ']
    simp only [List.length_cons, List.length_nil, zero_add, pow_one, pow_zero, mul_one,
      Digits.value_nil, add_zero, UInt8.toNat_ofNat']
    rw [Nat.mod_mul]
    ring

@[simp] lemma value_ofBits (v : BitVec 256) : Word.value (Word.ofBits v) = v.toNat := by
  have hlist : (Word.ofBits v).toList = (Bytes.le 32 v.toNat).reverse := by
    simp [Word.ofBits, Vector.toList]
  rw [Word.value, hlist, value_reverse_le]
  exact Nat.mod_eq_of_lt (lt_of_lt_of_eq v.isLt (by norm_num))

lemma eq_ofBits {w : Word} {v : BitVec 256} (h : Word.value w = v.toNat) : w = Word.ofBits v :=
  value_injective (h.trans (value_ofBits v).symm)

@[simp] lemma bits_ofBits (v : BitVec 256) : Word.bits (Word.ofBits v) = v := by
  refine BitVec.eq_of_toNat_eq ?_
  rw [toNat_bits, value_ofBits]

@[simp] lemma ofBits_bits (w : Word) : Word.ofBits (Word.bits w) = w :=
  (eq_ofBits (toNat_bits w).symm).symm

lemma ofBits_injective : Function.Injective Word.ofBits := by
  intro v v' h
  rw [← bits_ofBits v, h, bits_ofBits]

lemma getLsbD_bits (w : Word) {j : ℕ} (hj : j < 256) :
    (Word.bits w).getLsbD j = (w[31 - j / 8]).toNat.testBit (j % 8) := by
  have hbit := Digits.testBit_value (l := w.toList) (j := j) (by rw [length_toList]; omega)
  rw [length_toList, List.getD_eq_getElem _ _ (by rw [length_toList]; omega)] at hbit
  rw [BitVec.getLsbD, toNat_bits, Word.value, hbit]
  simp

lemma wordIsNegative_eq (w : Word) : wordIsNegative w = (Word.bits w).msb := by
  have hall : ∀ n < 256, (UInt8.ofNat n &&& 0x80 != 0) = n.testBit 7 := by decide +kernel
  have hbyte := hall (w[0]).toNat (w[0]).toNat_lt
  rw [UInt8.ofNat_toNat] at hbyte
  rw [wordIsNegative, hbyte, BitVec.msb_eq_getLsbD_last, getLsbD_bits w (by decide)]

lemma bits_eq_zero_iff (w : Word) : Word.bits w = 0 ↔ Word.value w = 0 := by
  rw [← BitVec.toNat_inj, toNat_bits]
  rfl

lemma wordIsZero_iff (w : Word) : wordIsZero w = true ↔ Word.bits w = 0 := by
  rw [bits_eq_zero_iff, Word.value, Digits.value_eq_zero_iff, wordIsZero, List.all_eq_true]
  exact forall₂_congr fun _ _ => beq_iff_eq

lemma zero_eq : zero = Word.ofBits 0 := eq_ofBits (by decide +kernel)

/-! ### Difference and negation -/

lemma wordSub_eq (a b : Word) :
    wordSub a b = some (Word.ofBits (Word.bits a - Word.bits b)) := by
  obtain ⟨w, hw, c, hc, hval⟩ := exists_wordSub a b
  have hlt := value_lt w
  have ha := value_lt a
  have hb := value_lt b
  rw [hw, eq_ofBits (w := w)]
  rw [BitVec.toNat_sub, toNat_bits, toNat_bits]
  omega

lemma wordNeg_eq (a : Word) : wordNeg a = some (Word.ofBits (-Word.bits a)) := by
  obtain ⟨w, hw, c, hc, hval⟩ := exists_wordNeg a
  have hlt := value_lt w
  have ha := value_lt a
  rw [hw, eq_ofBits (w := w)]
  rw [BitVec.toNat_neg, toNat_bits]
  omega

lemma wordAbs_eq (a : Word) : wordAbs a = some (Word.ofBits (Word.bits a).abs) := by
  unfold wordAbs BitVec.abs
  rw [wordIsNegative_eq]
  split
  · exact wordNeg_eq a
  · rw [ofBits_bits]

end Iona.Vm
