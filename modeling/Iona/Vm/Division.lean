import Iona.Vm.Bits

/-! # Division of words -/

namespace Iona.Vm

/-! ### Long division -/

lemma or_place (x : UInt8) {i : ℕ} (h : x.toNat / 2 ^ (7 - i % 8) % 2 = 0) :
    (x ||| (1 <<< UInt8.ofNat (7 - i % 8))).toNat = x.toNat + 2 ^ (7 - i % 8) := by
  have hall : ∀ n < 256, ∀ j < 8, n / 2 ^ (7 - j) % 2 = 0 →
      (UInt8.ofNat n ||| (1 <<< UInt8.ofNat (7 - j))).toNat = n + 2 ^ (7 - j) := by decide +kernel
  have hx := hall x.toNat x.toNat_lt (i % 8) (Nat.mod_lt _ (by decide)) h
  rwa [UInt8.ofNat_toNat] at hx

lemma value_setBit (w : Word) {i : ℕ} (hi : i < 256) (hbyte : i / 8 < 32)
    (h : Digits.digit (Word.value w) 256 i = 0) :
    Word.value (w.set (i / 8) (w[i / 8] ||| (1 <<< UInt8.ofNat (7 - i % 8)))) =
      Word.value w + 2 ^ (255 - i) := by
  have hget : w.toList[i / 8]? = some w[i / 8] := by simp [hbyte]
  have hdigit := Digits.digit_value hget
  rw [length_toList] at hdigit
  have hplace := or_place w[i / 8] (i := i) (hdigit.symm.trans h)
  have hset := value_set (w := w) (Vector.getElem?_eq_getElem hbyte)
    (w[i / 8] ||| (1 <<< UInt8.ofNat (7 - i % 8))) hbyte
  have hpow : 2 ^ (255 - i) = 2 ^ (7 - i % 8) * 256 ^ (31 - i / 8) := by
    rw [show (256 : ℕ) = 2 ^ 8 by norm_num, ← pow_mul, ← pow_add]
    congr 1
    omega
  rw [hplace, Nat.add_mul, ← hpow] at hset
  omega

structure DividedTo (a b : Word) (i : ℕ) (acc : Word × Word) : Prop where
  rem : Word.value acc.1 = Digits.top (Word.value a) 256 i % Word.value b
  quo : Word.value acc.2 = Digits.top (Word.value a) 256 i / Word.value b * 2 ^ (256 - i)

lemma divideRound_dividedTo {a b : Word} (hb : 0 < Word.value b) {i : ℕ} (hi : i < 256)
    {acc : Word × Word} (h : DividedTo a b i acc) :
    ∃ acc', divideRound a.toList b acc i = some acc' ∧ DividedTo a b (i + 1) acc' := by
  have hmod := Nat.mod_lt (Digits.top (Word.value a) 256 i) hb
  have hble := value_lt b
  -- the first `i` bits are below `2 ^ i`, so the doubled remainder loses no bit
  have hfit : 2 * (Digits.top (Word.value a) 256 i % Word.value b) +
      Digits.digit (Word.value a) 256 i < 2 ^ 256 := by
    have hle := Nat.mod_le (Digits.top (Word.value a) 256 i) (Word.value b)
    have htop := Digits.top_le (Word.value a) 256 (i + 1)
    have ha := value_lt a
    rw [Digits.top_succ hi] at htop
    omega
  obtain ⟨acc', hround, hrem, hquo⟩ :=
    divideRound_spec (n := 256) (show 8 * a.toList.length = 256 by simp) hb hi hfit (.inl hi) h.rem
  have hpow : 2 ^ (256 - i) = 2 * 2 ^ (256 - (i + 1)) := by
    rw [← pow_succ']
    congr 1
    omega
  refine ⟨acc', hround, hrem, ?_⟩
  obtain ⟨hkeep, hdiv⟩ | ⟨hbyte, hset, hdiv⟩ := hquo
  · rw [hkeep, h.quo, Word.value, hdiv, hpow]
    ring
  · have hzero : Digits.digit (Word.value acc.2) 256 i = 0 := by
      rw [Digits.digit, h.quo, hpow, show 256 - 1 - i = 256 - (i + 1) by omega, ← mul_assoc,
        Nat.mul_div_cancel _ (by positivity), Nat.mul_mod_left]
    rw [hset, value_setBit acc.2 hi hbyte hzero, h.quo, Word.value, hdiv, hpow,
      show 255 - i = 256 - (i + 1) by omega]
    ring

lemma longDivide_eq (a : Word) {b : Word} (hb : Word.bits b ≠ 0) :
    longDivide a b = some (Word.ofBits (Word.bits a / Word.bits b),
      Word.ofBits (Word.bits a % Word.bits b)) := by
  have hpos : 0 < Word.value b := value_pos_of_not_zero (mt (wordIsZero_iff b).mp hb)
  have hstart : DividedTo a b 0 (zero, zero) := by
    have hzero : Word.value zero = 0 := by decide +kernel
    constructor
    · rw [Digits.top_zero (value_lt a), Nat.zero_mod, hzero]
    · rw [Digits.top_zero (value_lt a), Nat.zero_div, zero_mul, hzero]
  obtain ⟨⟨rem, quo⟩, hloop, hend⟩ := Checked.foldlM_range_inv (DividedTo a b)
    (fun i hi acc hacc => divideRound_dividedTo hpos hi hacc) hstart
  have hrem := hend.rem
  have hquo := hend.quo
  rw [Digits.top_full] at hrem hquo
  rw [longDivide, hloop, eq_ofBits (w := quo) (v := Word.bits a / Word.bits b),
    eq_ofBits (w := rem) (v := Word.bits a % Word.bits b)]
  · rfl
  · simpa using hrem
  · simpa using hquo

lemma wordDiv_eq (a b : Word) :
    wordDiv a b = some (Word.ofBits (Word.bits a / Word.bits b)) := by
  unfold wordDiv
  split
  · rename_i hzero
    rw [(wordIsZero_iff b).mp hzero, zero_eq]
    simp
  · rename_i hne
    rw [longDivide_eq a (mt (wordIsZero_iff b).mpr hne)]
    rfl

def Evm.mod (x y : BitVec 256) : BitVec 256 := if y = 0 then 0 else x % y

lemma wordMod_eq (a b : Word) :
    wordMod a b = some (Word.ofBits (Evm.mod (Word.bits a) (Word.bits b))) := by
  unfold wordMod Evm.mod
  split
  · rename_i hzero
    rw [if_pos ((wordIsZero_iff b).mp hzero), zero_eq]
  · rename_i hne
    have hb : Word.bits b ≠ 0 := mt (wordIsZero_iff b).mpr hne
    rw [if_neg hb, longDivide_eq a hb]
    rfl

/-! ### Signed division -/

def Evm.smod (x y : BitVec 256) : BitVec 256 := if y = 0 then 0 else x.srem y

section

variable {n : ℕ} (x y : BitVec n)

lemma abs_ne_zero {y : BitVec n} (hy : y ≠ 0) : y.abs ≠ 0 := by
  unfold BitVec.abs
  split
  · exact neg_ne_zero.mpr hy
  · exact hy

lemma srem_eq_abs : x.srem y = if x.msb then -(x.abs % y.abs) else x.abs % y.abs := by
  rw [BitVec.srem_eq]
  cases hx : x.msb <;> cases hy : y.msb <;> simp [BitVec.abs, hx, hy]

lemma sdiv_eq_abs : x.sdiv y = if x.msb ^^ y.msb then -(x.abs / y.abs) else x.abs / y.abs := by
  rw [BitVec.sdiv_eq]
  cases hx : x.msb <;> cases hy : y.msb <;> simp [BitVec.abs, hx, hy]

end

lemma wordSmod_eq (a b : Word) :
    wordSmod a b = some (Word.ofBits (Evm.smod (Word.bits a) (Word.bits b))) := by
  unfold wordSmod Evm.smod
  split
  · rename_i hzero
    rw [if_pos ((wordIsZero_iff b).mp hzero), zero_eq]
  · rename_i hne
    have hb : Word.bits b ≠ 0 := mt (wordIsZero_iff b).mpr hne
    simp only [wordAbs_eq, wordMod_eq, wordNeg_eq, bits_ofBits, Evm.mod, if_neg (abs_ne_zero hb),
      if_neg hb, wordIsNegative_eq, Option.bind_eq_bind, Option.bind_some, srem_eq_abs]
    cases hneg : (Word.bits a).msb with
    | false => rfl
    | true =>
      -- a zero remainder is not negated, and is its own complement
      cases hzero : wordIsZero (Word.ofBits ((Word.bits a).abs % (Word.bits b).abs)) with
      | false => rfl
      | true =>
        rw [wordIsZero_iff, bits_ofBits] at hzero
        rw [hzero]
        rfl

def SdivCase (x y : BitVec 256) : Prop := x.msb = true ∧ y.msb = false ∧ x.abs = y.abs

instance (x y : BitVec 256) : Decidable (SdivCase x y) :=
  inferInstanceAs (Decidable (_ ∧ _ ∧ _))

lemma wordSdiv_eq (a b : Word) : wordSdiv a b =
    some (if SdivCase (Word.bits a) (Word.bits b) then a
      else Word.ofBits ((Word.bits a).sdiv (Word.bits b))) := by
  unfold wordSdiv
  split
  · rename_i hzero
    have hb := (wordIsZero_iff b).mp hzero
    have hcase : ¬ SdivCase (Word.bits a) (Word.bits b) := by
      rintro ⟨hneg, -, habs⟩
      refine abs_ne_zero (fun ha : Word.bits a = 0 => ?_) (habs.trans (by rw [hb]; decide))
      rw [ha] at hneg
      exact absurd hneg (by decide)
    rw [if_neg hcase, hb, zero_eq]
    simp
  · simp only [wordAbs_eq, wordDiv_eq, wordNeg_eq, bits_ofBits, wordIsNegative_eq,
      Option.bind_eq_bind, Option.bind_some, sdiv_eq_abs]
    have hcase : ((Word.bits a).msb && !(Word.bits b).msb &&
        Word.ofBits (Word.bits a).abs == Word.ofBits (Word.bits b).abs) = true ↔
        SdivCase (Word.bits a) (Word.bits b) := by
      simp [SdivCase, ofBits_injective.eq_iff, and_assoc]
    rw [if_congr hcase rfl rfl]
    split
    · rfl
    · split <;> rfl

/-! ### All four operations -/

structure DividesRight (a b : Word) : Prop where
  unsigned : Word.value b ≠ 0 → ∃ q r, longDivide a b = some (q, r) ∧
    Word.value a = Word.value q * Word.value b + Word.value r ∧ Word.value r < Word.value b ∧
    wordDiv a b = some q ∧ wordMod a b = some r
  byZero : Word.value b = 0 → wordDiv a b = some zero ∧ wordMod a b = some zero
  sdiv : ∃ q, wordSdiv a b = some q ∧
    Word.toInt q = (Int.tdiv (Word.toInt a) (Word.toInt b)).bmod (2 ^ 256)
  smod : ∃ r, wordSmod a b = some r ∧
    Word.toInt r = if Word.toInt b = 0 then 0 else Int.tmod (Word.toInt a) (Word.toInt b)

lemma toInt_eq_zero_iff (b : Word) : Word.toInt b = 0 ↔ Word.bits b = 0 := by
  rw [Word.toInt, ← BitVec.toInt_inj]
  rfl

lemma unsigned_divides_right (a b : Word) (hb : Word.value b ≠ 0) :
    ∃ q r, longDivide a b = some (q, r) ∧
      Word.value a = Word.value q * Word.value b + Word.value r ∧ Word.value r < Word.value b ∧
      wordDiv a b = some q ∧ wordMod a b = some r := by
  have hbits : Word.bits b ≠ 0 := mt (bits_eq_zero_iff b).mp hb
  refine ⟨_, _, longDivide_eq a hbits, ?_, ?_, wordDiv_eq a b, ?_⟩
  · rw [value_ofBits, value_ofBits, BitVec.toNat_udiv, BitVec.toNat_umod, toNat_bits, toNat_bits,
      Nat.div_add_mod']
  · rw [value_ofBits, BitVec.toNat_umod, toNat_bits, toNat_bits]
    exact Nat.mod_lt _ (Nat.pos_of_ne_zero hb)
  · rw [wordMod_eq, Evm.mod, if_neg hbits]

lemma smod_right (a b : Word) : ∃ r, wordSmod a b = some r ∧
    Word.toInt r = if Word.toInt b = 0 then 0 else Int.tmod (Word.toInt a) (Word.toInt b) := by
  refine ⟨_, wordSmod_eq a b, ?_⟩
  rw [Word.toInt, bits_ofBits, Evm.smod, if_congr (toInt_eq_zero_iff b) rfl rfl]
  split
  · rfl
  · exact BitVec.toInt_srem _ _

lemma sdivCase_iff (x y : BitVec 256) : SdivCase x y ↔ 0 < y.toInt ∧ x.toInt = -y.toInt := by
  have hx := x.isLt
  have hy := y.isLt
  have hmsb : SdivCase x y ↔ 2 ^ 255 ≤ x.toNat ∧ y.toNat < 2 ^ 255 ∧ -x = y := by
    unfold SdivCase
    rw [BitVec.msb_eq_decide, BitVec.msb_eq_decide, decide_eq_true_iff, decide_eq_false_iff_not,
      not_le]
    refine and_congr_right fun hneg => and_congr_right fun hpos => ?_
    rw [BitVec.abs, BitVec.abs, if_pos (by rw [BitVec.msb_eq_decide]; exact decide_eq_true hneg),
      if_neg (by rw [BitVec.msb_eq_decide, decide_eq_true_iff]; exact Nat.not_le.mpr hpos)]
    rfl
  rw [hmsb, ← BitVec.toNat_inj, BitVec.toNat_neg, BitVec.toInt_eq_toNat_cond,
    BitVec.toInt_eq_toNat_cond]
  split <;> split <;> omega

/-- **Which words are divided rightly**: all but a divisor above one and its negation, which
`word_sdiv` takes for the overflow of the least negative number and returns. -/
theorem divides_right_iff (a b : Word) :
    DividesRight a b ↔ ¬ (1 < Word.toInt b ∧ Word.toInt a = -Word.toInt b) := by
  constructor
  · rintro hright ⟨hlt, hneg⟩
    obtain ⟨q, hq, hval⟩ := hright.sdiv
    have hcase : SdivCase (Word.bits a) (Word.bits b) :=
      (sdivCase_iff _ _).mpr ⟨Int.lt_trans Int.one_pos hlt, hneg⟩
    rw [wordSdiv_eq, if_pos hcase, Option.some.injEq] at hq
    rw [← hq, hneg, Int.neg_tdiv, Int.tdiv_self (by omega)] at hval
    have hone : (-1 : ℤ).bmod (2 ^ 256) = -1 := by decide
    omega
  · intro hnot
    refine ⟨unsigned_divides_right a b, ?_, ?_, smod_right a b⟩
    · intro hzero
      have hb := (bits_eq_zero_iff b).mpr hzero
      rw [wordDiv_eq, wordMod_eq, zero_eq, hb]
      simp [Evm.mod]
    · refine ⟨_, wordSdiv_eq a b, ?_⟩
      split
      · rename_i hcase
        -- a divisor of one, for which the dividend is the quotient
        obtain ⟨hpos, hneg⟩ := (sdivCase_iff _ _).mp hcase
        have hle : ¬ 1 < Word.toInt b := fun hlt => hnot ⟨hlt, hneg⟩
        have hone : Word.toInt b = 1 := Int.le_antisymm (Int.not_lt.mp hle) hpos
        have ha : Word.toInt a = -1 := by
          rw [← hone]
          exact hneg
        rw [ha, hone]
        decide
      · rw [Word.toInt, bits_ofBits]
        exact BitVec.toInt_sdiv _ _

/-- `-2` divided by `2` is `-2`. -/
theorem sdiv_minus_two_by_two :
    wordSdiv (Word.ofBits (-2)) (Word.ofBits 2) = some (Word.ofBits (-2)) ∧
      ¬ DividesRight (Word.ofBits (-2)) (Word.ofBits 2) := by
  have hdiv : wordSdiv (Word.ofBits (-2)) (Word.ofBits 2) = some (Word.ofBits (-2)) := by
    decide +kernel
  refine ⟨hdiv, fun hright => ?_⟩
  obtain ⟨q, hq, hval⟩ := hright.sdiv
  rw [hdiv, Option.some.injEq] at hq
  rw [← hq, Word.toInt, Word.toInt, bits_ofBits, bits_ofBits] at hval
  exact absurd hval (by decide)

end Iona.Vm
