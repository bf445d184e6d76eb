import Iona.Vm.Division
import Iona.Vm.Shifts

/-! # Sums, products and powers modulo a number, and sign extension -/

namespace Iona.Vm

open Option

/-! ### Sums -/

variable {m : Word}

lemma exists_addWithCarry (a b : Word) : ∃ w c, wordAddWithCarry a b = some (w, c) ∧
    Word.value w + (if c then 2 ^ 256 else 0) = Word.value a + Word.value b := by
  obtain ⟨l, c, w, hl, hc, hw, hval⟩ := add_loop a b
  refine ⟨w, c != 0, by simp [wordAddWithCarry, hl, hw], ?_⟩
  obtain rfl | rfl : c = 0 ∨ c = 1 := by omega
  · simp only [bne_self_eq_false, Bool.false_eq_true, if_false]
    omega
  · simp only [show ((1 : ℕ) != 0) = true from rfl, if_true]
    omega

lemma exists_reduced {s : Word} {c : Bool} {sum : ℕ}
    (hsum : Word.value s + (if c then 2 ^ 256 else 0) = sum) (hlt : sum < 2 ^ 256 + Word.value m) :
    ∃ w, (if c then wordSub s m else if wordLt s m then some s else wordSub s m) = some w ∧
      Word.value w = if sum < Word.value m then sum else sum - Word.value m := by
  obtain ⟨d, hd, borrow, hborrow, hval⟩ := exists_wordSub s m
  have hs := value_lt s
  have hm := value_lt m
  have hdlt := value_lt d
  cases c with
  | true =>
    simp only [if_true] at hsum ⊢
    exact ⟨d, hd, by rw [if_neg (by omega)]; omega⟩
  | false =>
    simp only [Bool.false_eq_true, if_false] at hsum ⊢
    by_cases hsm : Word.value s < Word.value m
    · exact ⟨s, if_pos ((wordLt_iff s m).mpr hsm), by rw [if_pos (by omega)]; omega⟩
    · refine ⟨d, by rw [if_neg (mt (wordLt_iff s m).mp hsm), hd], ?_⟩
      rw [if_neg (by omega)]
      omega

lemma mod_of_lt_two_mul {s m : ℕ} (h : s < 2 * m) : s % m = if s < m then s else s - m := by
  split
  · rename_i hlt
    exact Nat.mod_eq_of_lt hlt
  · rename_i hge
    rw [Nat.mod_eq_sub_mod (by omega), Nat.mod_eq_of_lt (by omega)]

lemma value_wordAddmod (a b : Word) (hm : Word.value m ≠ 0) :
    ∃ w, wordAddmod a b m = some w ∧ Word.value w =
      if 2 ^ 256 ≤ Word.value a + Word.value b then (Word.value a + Word.value b) % Word.value m
      else if Word.value a + Word.value b < Word.value m then Word.value a + Word.value b
      else Word.value a + Word.value b - Word.value m := by
  have hzero : ¬ wordIsZero m = true := by rwa [wordIsZero_iff, bits_eq_zero_iff]
  have hmod : ∀ x : Word, ∃ w, wordMod x m = some w ∧ Word.value w = Word.value x % Word.value m := by
    intro x
    refine ⟨_, wordMod_eq x m, ?_⟩
    rw [Evm.mod, if_neg (mt (bits_eq_zero_iff m).mp hm), value_ofBits, BitVec.toNat_umod, toNat_bits,
      toNat_bits]
  obtain ⟨sum, carry, hadd, hsum⟩ := exists_addWithCarry a b
  have hsumlt := value_lt sum
  unfold wordAddmod
  rw [if_neg hzero, hadd]
  cases carry with
  | true =>
    obtain ⟨aMod, ha, haval⟩ := hmod a
    obtain ⟨bMod, hb, hbval⟩ := hmod b
    obtain ⟨s, c, hs, hsval⟩ := exists_addWithCarry aMod bMod
    have halt := Nat.mod_lt (Word.value a) (Nat.pos_of_ne_zero hm)
    have hblt := Nat.mod_lt (Word.value b) (Nat.pos_of_ne_zero hm)
    have hmlt := value_lt m
    obtain ⟨w, hw, hval⟩ := exists_reduced hsval (m := m) (by omega)
    refine ⟨w, ?_, ?_⟩
    · simp only [bind_eq_bind, bind_some, if_true, ha, hb, hs]
      exact hw
    · rw [if_pos (by simp only [if_true] at hsum; omega), hval, haval, hbval, Nat.add_mod]
      exact (mod_of_lt_two_mul (by omega)).symm
  | false =>
    have hsum' : Word.value sum = Word.value a + Word.value b := hsum
    obtain ⟨w, hw, hval⟩ := exists_reduced hsum (m := m) (by omega)
    refine ⟨w, ?_, by rw [if_neg (by omega), hval]⟩
    simp only [bind_eq_bind, bind_some, Bool.false_eq_true, if_false] at hw ⊢
    exact hw

/-! ### Products -/

def fullProduct (a b : Word) : ℕ :=
  Nat.ofDigits (2 ^ 64) ((List.range 8).map fun i =>
    swapBytes (Limbs.limb (2 ^ 64) (Word.mirrored a * Word.mirrored b) i))

lemma value_wordMulFull (a b : Word) : ∃ prod, wordMulFull a b = some prod ∧ prod.length = 64 ∧
    Digits.value prod = fullProduct a b := by
  obtain ⟨prod, hprod, hlen, hlimb⟩ := limb_wordMulFull a b
  have hdigits : ∀ d ∈ (List.range 8).map fun i =>
      swapBytes (Limbs.limb (2 ^ 64) (Word.mirrored a * Word.mirrored b) i), d < 2 ^ 64 := by
    intro d hd
    obtain ⟨i, -, rfl⟩ := List.mem_map.mp hd
    exact swapBytes_lt _
  refine ⟨prod, hprod, hlen, (Limbs.eq_iff_limbs (R := 2 ^ 64) (n := 8) ?_ ?_).mpr fun i hi => ?_⟩
  · rw [← pow_mul]
    exact Digits.value_lt_two_pow (by rw [hlen])
  · exact lt_of_lt_of_eq (Nat.ofDigits_lt_base_pow_length (by norm_num) hdigits) (by simp)
  · rw [hlimb i hi]
    exact (Limbs.limb_ofDigits hdigits (by simp [hi])).symm

def halfDivided (v m : ℕ) : ℕ := (v / 2 ^ 256 % m) * 2 ^ 256 + v % 2 ^ 256

def lateRemainder (v m i : ℕ) : ℕ := Digits.top (halfDivided v m) 512 i % 2 ^ 256

lemma lateRemainder_succ (v m : ℕ) {i : ℕ} (hge : 256 ≤ i) (hi : i < 512) :
    lateRemainder v m (i + 1) = (2 * lateRemainder v m i + Digits.digit v 512 i) % 2 ^ 256 := by
  have hlow : 512 - 1 - i < 256 := by omega
  have hdigit : Digits.digit (halfDivided v m) 512 i = Digits.digit v 512 i := by
    rw [halfDivided, Digits.digit_mul_two_pow_add _ _ hlow,
      ← Digits.digit_mul_two_pow_add (v / 2 ^ 256) _ hlow, Nat.div_add_mod']
  rw [lateRemainder, lateRemainder, Digits.top_succ hi, hdigit]
  omega

lemma exists_upper_rounds {prod : List UInt8} (hlen : prod.length = 64) (hm : 0 < Word.value m) :
    ∃ acc, (List.range 256).foldlM (divideRound prod m) (zero, zero) =
      some acc ∧ Word.value acc.1 = lateRemainder (Digits.value prod) (Word.value m) 256 := by
  have hlt : Digits.value prod < 2 ^ 512 := Digits.value_lt_two_pow (by rw [hlen])
  obtain ⟨acc, hloop, hacc⟩ := Checked.foldlM_range_inv (f := divideRound prod m) (n := 256)
    (b := (zero, zero))
    (fun i acc => Word.value acc.1 = Digits.top (Digits.value prod) 512 i % Word.value m)
    (fun i hi acc hacc => by
      -- the first digits do not fill the word, so no bit is lost
      have hmod := Nat.mod_le (Digits.top (Digits.value prod) 512 i) (Word.value m)
      have htop : Digits.top (Digits.value prod) 512 (i + 1) < 2 ^ 256 := by
        rw [Digits.top, Nat.div_lt_iff_lt_mul (by positivity), ← pow_add]
        exact hlt.trans_le (pow_le_pow_right₀ one_le_two (by omega))
      rw [Digits.top_succ (show i < 512 by omega)] at htop
      obtain ⟨acc', hround, hrem, -⟩ := divideRound_spec (n := 512) (by rw [hlen]) hm (by omega)
        (by omega) (.inl hi) hacc
      exact ⟨acc', hround, hrem⟩)
    (by
      rw [Digits.top_zero hlt, Nat.zero_mod]
      decide +kernel)
  refine ⟨acc, hloop, ?_⟩
  have hmod := Nat.mod_lt (Digits.value prod / 2 ^ 256) hm
  have hmlt := value_lt m
  have hhalf : halfDivided (Digits.value prod) (Word.value m) / 2 ^ 256 =
      Digits.value prod / 2 ^ 256 % Word.value m := by
    unfold halfDivided
    omega
  rw [hacc, lateRemainder, Digits.top, Digits.top, show 512 - 256 = 256 from rfl, hhalf]
  omega

lemma divideRound_late {prod : List UInt8} (hlen : prod.length = 64) {i : ℕ} (hge : 256 ≤ i)
    (hi : i < 512) {acc : Word × Word}
    (hacc : Word.value acc.1 = lateRemainder (Digits.value prod) (Word.value m) i) :
    (lateRemainder (Digits.value prod) (Word.value m) (i + 1) < Word.value m ∧
      ∃ acc', divideRound prod m acc i = some acc' ∧
        Word.value acc'.1 = lateRemainder (Digits.value prod) (Word.value m) (i + 1)) ∨
    (¬ lateRemainder (Digits.value prod) (Word.value m) (i + 1) < Word.value m ∧
      divideRound prod m acc i = none) := by
  obtain ⟨rem, hrem, hval⟩ := exists_bringIn prod acc.1 (show i / 8 < prod.length by omega)
  rw [hlen, hacc, ← lateRemainder_succ _ _ hge hi] at hval
  unfold divideRound
  simp only [hrem, bind_eq_bind, bind_some]
  rw [← hval]
  split
  · rename_i hlt
    exact .inl ⟨(wordLt_iff rem m).mp hlt, _, rfl, rfl⟩
  · rename_i hnot
    obtain ⟨d, hd, -⟩ := exists_wordSub rem m
    refine .inr ⟨mt (wordLt_iff rem m).mpr hnot, ?_⟩
    rw [hd, Vector.getElem?_eq_none (by omega)]
    rfl

def MulmodReturns (a b m : Word) : Prop :=
  ∀ i < 256, lateRemainder (fullProduct a b) (Word.value m) (257 + i) < Word.value m

lemma wordMulmod_cases (a b : Word) (hm : Word.value m ≠ 0) :
    (MulmodReturns a b m ∧ ∃ w, wordMulmod a b m = some w ∧
      Word.value w = fullProduct a b % 2 ^ 256) ∨
    (¬ MulmodReturns a b m ∧ wordMulmod a b m = none) := by
  have hzero : ¬ wordIsZero m = true := by rwa [wordIsZero_iff, bits_eq_zero_iff]
  obtain ⟨prod, hprod, hlen, hval⟩ := value_wordMulFull a b
  obtain ⟨acc, hupper, hacc⟩ := exists_upper_rounds hlen (Nat.pos_of_ne_zero hm)
  have hmul : wordMulmod a b m =
      ((List.range' 256 256).foldlM (divideRound prod m) acc).bind fun r => some r.1 := by
    have hsplit : List.range 512 = List.range 256 ++ List.range' 256 256 := by
      rw [List.range_eq_range', List.range_eq_range', List.range'_append_1]
    rw [wordMulmod, if_neg hzero, hprod, bind_eq_bind, bind_some, longDivide512By256,
      hsplit, List.foldlM_append, hupper]
    rfl
  have hloop := Checked.foldlM_range'_cases (f := divideRound prod m) (s := 256) (n := 256)
    (fun i acc => Word.value acc.1 = lateRemainder (Digits.value prod) (Word.value m) i)
    (fun i => lateRemainder (Digits.value prod) (Word.value m) (i + 1) < Word.value m)
    (fun i hge hi acc hacc => divideRound_late hlen hge hi hacc) hacc
  rw [hval] at hloop
  rcases hloop with ⟨hall, r, hr, hrem⟩ | ⟨⟨i, hge, hi, hnot⟩, hnone⟩
  · refine .inl ⟨fun i hi => ?_, r.1, by rw [hmul, hr]; rfl, ?_⟩
    · have hround := hall (256 + i) (by omega) (by omega)
      rwa [show 256 + i + 1 = 257 + i by omega] at hround
    · rw [hrem, lateRemainder, Digits.top_full, halfDivided, Nat.mul_add_mod_self_right, Nat.mod_mod]
  · refine .inr ⟨fun hall => hnot ?_, by rw [hmul, hnone]; rfl⟩
    have hround := hall (i - 256) (by omega)
    rwa [show 257 + (i - 256) = i + 1 by omega] at hround

lemma MulmodFits.returns {a b : Word} (h : MulmodFits a b m) (hm : Word.value m ≠ 0) :
    MulmodReturns a b m := by
  obtain ⟨prod, hprod, -, hval⟩ := value_wordMulFull a b
  have hzero : ¬ wordIsZero m = true := by rwa [wordIsZero_iff, bits_eq_zero_iff]
  have hmlt := value_lt m
  have hcases := h.resolve_left hzero prod hprod
  rw [hval] at hcases
  obtain ⟨k, hk⟩ : 2 ^ 256 ∣ fullProduct a b / Word.value m := by
    rcases hcases with hlt | ⟨-, hdvd⟩
    · rw [Nat.div_eq_of_lt hlt]
      exact dvd_zero _
    · exact hdvd
  -- the dividend is a multiple of the modulus in its upper half, and less than it in its lower
  have hmod := Nat.mod_lt (fullProduct a b) (Nat.pos_of_ne_zero hm)
  have hsplit := Nat.div_add_mod (fullProduct a b) (Word.value m)
  rw [hk, ← mul_assoc, mul_comm (Word.value m), mul_assoc] at hsplit
  have hhigh : fullProduct a b / 2 ^ 256 = Word.value m * k := by omega
  have hlow : fullProduct a b % 2 ^ 256 = fullProduct a b % Word.value m := by omega
  have hhalf : halfDivided (fullProduct a b) (Word.value m) = fullProduct a b % Word.value m := by
    rw [halfDivided, hhigh, Nat.mul_mod_right, zero_mul, zero_add, hlow]
  intro i hi
  refine lt_of_le_of_lt (Nat.mod_le _ _) (lt_of_le_of_lt (Digits.top_le _ _ _) ?_)
  rw [hhalf]
  exact hmod

lemma wordMulmod_ne_none {a b : Word} (h : MulmodFits a b m) : wordMulmod a b m ≠ none := by
  by_cases hm : Word.value m = 0
  · have hzero : wordIsZero m = true := (wordIsZero_iff m).mpr ((bits_eq_zero_iff m).mpr hm)
    simp [wordMulmod, hzero]
  · rcases wordMulmod_cases a b hm with ⟨-, w, hw, -⟩ | ⟨hnot, -⟩
    · simp [hw]
    · exact absurd (h.returns hm) hnot

lemma wordAddmod_ne_none (a b m : Word) : wordAddmod a b m ≠ none := by
  by_cases hm : Word.value m = 0
  · have hzero : wordIsZero m = true := (wordIsZero_iff m).mpr ((bits_eq_zero_iff m).mpr hm)
    simp [wordAddmod, hzero]
  · obtain ⟨w, hw, -⟩ := value_wordAddmod a b hm
    simp [hw]

/-! ### Modular arithmetic -/

def SumExact (a b m : Word) : Prop :=
  ∃ w, wordAddmod a b m = some w ∧
    Word.value w = if Word.value m = 0 then 0 else (Word.value a + Word.value b) % Word.value m

structure ReducesExactly (a b m : Word) : Prop where
  sum : SumExact a b m
  product : ∃ w, wordMulmod a b m = some w ∧
    Word.value w = if Word.value m = 0 then 0 else Word.value a * Word.value b % Word.value m

lemma sumExact_iff (a b m : Word) : SumExact a b m ↔ Word.value m = 0 ∨
    2 ^ 256 ≤ Word.value a + Word.value b ∨ Word.value a + Word.value b < 2 * Word.value m := by
  unfold SumExact
  by_cases hm : Word.value m = 0
  · have hzero : wordIsZero m = true := (wordIsZero_iff m).mpr ((bits_eq_zero_iff m).mpr hm)
    have hval : Word.value zero = 0 := by decide +kernel
    exact iff_of_true ⟨zero, by rw [wordAddmod, if_pos hzero], by rw [hval, if_pos hm]⟩ (.inl hm)
  · obtain ⟨s, hs, hsval⟩ := value_wordAddmod a b hm
    have hlt := Nat.mod_lt (Word.value a + Word.value b) (Nat.pos_of_ne_zero hm)
    rw [hs, if_neg hm, or_iff_right hm]
    simp only [Option.some.injEq, exists_eq_left', hsval]
    split
    · rename_i hcarry
      exact iff_of_true rfl (.inl hcarry)
    · constructor
      · intro h
        split at h <;> omega
      · intro h
        exact (mod_of_lt_two_mul (by omega)).symm

/-- A product that comes back is the lower half of what `word_mul_full` writes. -/
lemma ReducesExactly.lower_half {a b : Word} (h : ReducesExactly a b m) (hm : Word.value m ≠ 0) :
    fullProduct a b % 2 ^ 256 = Word.value a * Word.value b % Word.value m := by
  obtain ⟨w, hw, hval⟩ := h.product
  rw [if_neg hm] at hval
  rcases wordMulmod_cases a b hm with ⟨-, w', hw', hval'⟩ | ⟨-, hnone⟩
  · rw [hw, Option.some.injEq] at hw'
    rw [← hval', ← hw', hval]
  · rw [hnone] at hw
    cases hw

/-- **For which moduli arithmetic is exact.** A sum is reduced exactly if the modulus is zero, the
sum carries out of 256 bits, or one subtraction is enough; sums and products of all operands are
exact for the modulus zero only. -/
theorem reduces_exactly_iff (m : Word) :
    (∀ a b, SumExact a b m ↔ Word.value m = 0 ∨ 2 ^ 256 ≤ Word.value a + Word.value b ∨
      Word.value a + Word.value b < 2 * Word.value m) ∧
    ((∀ a b, ReducesExactly a b m) ↔ Word.value m = 0) := by
  refine ⟨fun a b => sumExact_iff a b m, fun hall => ?_, fun hm a b => ?_⟩
  · by_contra hm
    -- one times one is zero; for the modulus one, a product of top limbs is a low number
    have hone := (hall (Word.ofBits 1) (Word.ofBits 1)).lower_half hm
    have htop := (hall (Word.ofBits (1 <<< 192)) (Word.ofBits (1 <<< 192))).lower_half hm
    rw [show fullProduct (Word.ofBits 1) (Word.ofBits 1) % 2 ^ 256 = 0 by decide +kernel,
      show Word.value (Word.ofBits 1) * Word.value (Word.ofBits 1) = 1 by decide +kernel] at hone
    have hm1 : Word.value m = 1 := Nat.dvd_one.mp (Nat.dvd_of_mod_eq_zero hone.symm)
    rw [show fullProduct (Word.ofBits (1 <<< 192)) (Word.ofBits (1 <<< 192)) % 2 ^ 256 = 2 ^ 56 by
      decide +kernel, hm1, Nat.mod_one] at htop
    exact absurd htop (by norm_num)
  · have hzero : wordIsZero m = true := (wordIsZero_iff m).mpr ((bits_eq_zero_iff m).mpr hm)
    have hval : Word.value zero = 0 := by decide +kernel
    exact ⟨(sumExact_iff a b m).mpr (.inl hm),
      ⟨zero, by rw [wordMulmod, if_pos hzero], by rw [hval, if_pos hm]⟩⟩

/-- Five and five modulo three: the sum is reduced once, to seven. -/
theorem five_and_five_modulo_three :
    (wordAddmod (wordFromU64 5) (wordFromU64 5) (wordFromU64 3)).map Word.value = some 7 ∧
      ¬ ReducesExactly (wordFromU64 5) (wordFromU64 5) (wordFromU64 3) := by
  have hadd : (wordAddmod (wordFromU64 5) (wordFromU64 5) (wordFromU64 3)).map Word.value =
      some 7 := by
    decide +kernel
  refine ⟨hadd, fun h => ?_⟩
  obtain ⟨w, hw, hval⟩ := h.sum
  rw [hw, Option.map_some, Option.some.injEq, hval] at hadd
  revert hadd
  decide +kernel

/-! ### Powers -/

def PowerExact (base exp : Word) : Prop :=
  ∃ w, wordExp base exp = some w ∧ Word.value w = Word.value base ^ Word.value exp % 2 ^ 256

lemma powerExact_iff (base exp : Word) : PowerExact base exp ↔
    (Word.value base / 2 ^ 192) ^ (Word.value exp % 2 ^ 64) % 2 ^ 64 =
      Word.value base ^ Word.value exp % 2 ^ 256 := by
  obtain ⟨w, hw, hval⟩ := value_wordExp base exp
  rw [PowerExact, hw, ← hval]
  simp

/-- **Which exponents are exact.** Only the zeroth power of every base comes out right, and for no
base do all its powers. -/
theorem exponentiates_exactly_iff (w : Word) :
    ((∀ base, PowerExact base w) ↔ Word.value w = 0) ∧ ¬ ∀ exp, PowerExact w exp := by
  have hzero : Word.value (Word.ofBits 0) = 0 := by decide +kernel
  have hone : Word.value (Word.ofBits 1) = 1 := by decide +kernel
  refine ⟨⟨fun h => ?_, fun hw base => ?_⟩, fun h => ?_⟩
  · -- zero to the power of a multiple of 2^64 is one, and one to any other power zero
    by_contra hw
    have hbase0 := (powerExact_iff _ _).mp (h (Word.ofBits 0))
    have hbase1 := (powerExact_iff _ _).mp (h (Word.ofBits 1))
    rw [hzero, zero_pow hw] at hbase0
    rw [hone, one_pow] at hbase1
    by_cases hlow : Word.value w % 2 ^ 64 = 0
    · rw [hlow] at hbase0
      norm_num at hbase0
    · rw [show 1 / 2 ^ 192 = 0 by norm_num, zero_pow hlow] at hbase1
      norm_num at hbase1
  · rw [powerExact_iff, hw]
    norm_num
  · have hfirst := (powerExact_iff _ _).mp (h (Word.ofBits 1))
    have hlarge := (powerExact_iff _ _).mp (h (Word.ofBits (1 <<< 64)))
    have hlt := value_lt w
    rw [hone, Nat.mod_eq_of_lt (by norm_num : 1 < 2 ^ 64), pow_one, pow_one,
      Nat.mod_eq_of_lt hlt] at hfirst
    have hw : Word.value w = 0 := by
      have hsmall := Nat.mod_lt (Word.value w / 2 ^ 192) (by norm_num : 0 < 2 ^ 64)
      rw [hfirst] at hsmall
      rw [← hfirst, Nat.div_eq_of_lt (lt_trans hsmall (by norm_num)), Nat.zero_mod]
    rw [show Word.value (Word.ofBits (1 <<< 64)) = 2 ^ 64 by decide +kernel, hw] at hlarge
    norm_num at hlarge

/-- Two squared is zero. -/
theorem two_squared :
    (wordExp (wordFromU64 2) (wordFromU64 2)).map Word.value = some 0 ∧
      ¬ PowerExact (wordFromU64 2) (wordFromU64 2) := by
  have hexp : (wordExp (wordFromU64 2) (wordFromU64 2)).map Word.value = some 0 := by decide +kernel
  refine ⟨hexp, ?_⟩
  rintro ⟨w, hw, hval⟩
  rw [hw, Option.map_some, Option.some.injEq, hval] at hexp
  revert hexp
  decide +kernel

/-! ### Sign extension -/

def extended (k : ℕ) (x : BitVec 256) : BitVec 256 :=
  if k < 31 then (x.setWidth (8 * (k + 1))).signExtend 256 else x

lemma testBit_fill (b : UInt8) {j : ℕ} (hj : j < 8) :
    (if ((b >>> 7) &&& 1) == 1 then 0xFF else 0 : UInt8).toNat.testBit j = b.toNat.testBit 7 := by
  have hall : ∀ n < 256, ∀ j < 8, (if ((UInt8.ofNat n >>> 7) &&& 1) == 1 then 0xFF else 0 :
      UInt8).toNat.testBit j = (UInt8.ofNat n).toNat.testBit 7 := by decide +kernel
  have h := hall b.toNat b.toNat_lt j hj
  rwa [UInt8.ofNat_toNat] at h

lemma wordSignextend_eq (k x : Word) :
    wordSignextend k x = some (Word.ofBits (extended (Word.value k) (Word.bits x))) := by
  unfold wordSignextend
  rw [wordBelow_eq k (by norm_num)]
  generalize Word.value k = k
  by_cases hk : k < 32
  · rw [if_pos hk]
    simp only [byteAt_of_lt x (show 31 - k < 32 by omega), bind_eq_bind, bind_some]
    refine wordOfFn_eq (g := fun i => if i < 31 - k then
      (if ((byteAt x (31 - k) >>> 7) &&& 1) == 1 then 0xFF else 0) else byteAt x i)
      (fun i hi => ?_) fun j hj => ?_
    · split
      · rfl
      · exact byteAt_of_lt x hi
    · have hmod : j % 8 < 8 := Nat.mod_lt _ (by decide)
      have hkept : (byteAt x (31 - j / 8)).toNat.testBit (j % 8) = (Word.bits x).getLsbD j := by
        rw [testBit_byteAt x _ hmod, decide_eq_true (by omega), Bool.true_and,
          show 8 * (31 - (31 - j / 8)) + j % 8 = j by omega]
      have hsign : (byteAt x (31 - k)).toNat.testBit 7 = (Word.bits x).getLsbD (8 * k + 7) := by
        rw [testBit_byteAt x _ (by decide), decide_eq_true (by omega), Bool.true_and,
          show 8 * (31 - (31 - k)) + 7 = 8 * k + 7 by omega]
      unfold extended
      by_cases hlow : j < 8 * (k + 1)
      · rw [if_neg (by omega), hkept]
        split
        · rw [BitVec.getLsbD_signExtend, if_pos hlow, BitVec.getLsbD_setWidth, decide_eq_true hj,
            decide_eq_true hlow, Bool.true_and, Bool.true_and]
        · rfl
      · rw [if_pos (by omega), testBit_fill _ hmod, hsign, if_pos (by omega),
          BitVec.getLsbD_signExtend, if_neg hlow, decide_eq_true hj, Bool.true_and,
          BitVec.msb_setWidth, decide_eq_true (by omega), Bool.true_and]
        rfl
  · rw [if_neg hk, extended, if_neg (by omega), ofBits_bits]

/-- **Shifts and sign extension are exact**, for every amount. -/
theorem shifts_exact (s x : Word) :
    (∃ w, wordShl s x = some w ∧ Word.value w = Word.value x * 2 ^ Word.value s % 2 ^ 256) ∧
    (∃ w, wordShr s x = some w ∧ Word.value w = Word.value x / 2 ^ Word.value s) ∧
    (∃ w, wordSar s x = some w ∧ Word.toInt w = Word.toInt x / 2 ^ Word.value s) ∧
    (∃ w, wordSignextend s x = some w ∧
      Word.bits w = extended (Word.value s) (Word.bits x)) := by
  refine ⟨⟨_, wordShl_eq s x, ?_⟩, ⟨_, wordShr_eq s x, ?_⟩, ⟨_, wordSar_eq s x, ?_⟩,
    ⟨_, wordSignextend_eq s x, bits_ofBits _⟩⟩
  · rw [value_ofBits, BitVec.toNat_shiftLeft, toNat_bits, Nat.shiftLeft_eq]
  · rw [value_ofBits, BitVec.toNat_ushiftRight, toNat_bits, Nat.shiftRight_eq_div_pow]
  · rw [Word.toInt, bits_ofBits, BitVec.toInt_sshiftRight, Int.shiftRight_eq_div_pow]
    rfl

end Iona.Vm
