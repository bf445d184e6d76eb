import Iona.Vm.Multiplication

/-! # Shifts, bytes and powers of words -/

namespace Iona.Vm

open Option

/-! ### Words that are small numbers -/

variable {i : ℕ} {f : ℕ → Option UInt8}

lemma value_split (w : Word) :
    Word.value w = Digits.value (w.toList.take 24) * 2 ^ 64 + wordToU64Unchecked w := by
  have hsplit := Digits.value_append (w.toList.take 24) (w.toList.drop 24)
  rw [List.take_append_drop, List.length_drop, length_toList] at hsplit
  rw [Word.value, hsplit, wordToU64Unchecked]
  norm_num

lemma wordToU64Unchecked_lt (w : Word) : wordToU64Unchecked w < 2 ^ 64 :=
  Digits.value_lt_two_pow (by rw [List.length_drop, length_toList])

lemma wordToU64Unchecked_eq (w : Word) : wordToU64Unchecked w = Word.value w % 2 ^ 64 := by
  have hsplit := value_split w
  have hlt := wordToU64Unchecked_lt w
  omega

lemma wordFitsU64_iff (w : Word) : wordFitsU64 w = true ↔ Word.value w < 2 ^ 64 := by
  have hsplit := value_split w
  have hlt := wordToU64Unchecked_lt w
  have hzero : wordFitsU64 w = true ↔ Digits.value (w.toList.take 24) = 0 := by
    rw [Digits.value_eq_zero_iff, wordFitsU64, List.all_eq_true]
    exact forall₂_congr fun _ _ => beq_iff_eq
  rw [hzero]
  omega

lemma wordBelow_eq (w : Word) {bound : ℕ} (hbound : bound ≤ 2 ^ 64) :
    wordBelow w bound = if Word.value w < bound then some (Word.value w) else none := by
  unfold wordBelow
  by_cases hlt : Word.value w < bound
  · have hfits : Word.value w < 2 ^ 64 := by omega
    have hlow := wordToU64Unchecked_eq w
    rw [Nat.mod_eq_of_lt hfits] at hlow
    rw [if_pos hlt, hlow, if_pos ⟨(wordFitsU64_iff w).mpr hfits, hlt⟩]
  · rw [if_neg hlt, if_neg]
    rintro ⟨hfits, hlow⟩
    rw [wordToU64Unchecked_eq, Nat.mod_eq_of_lt ((wordFitsU64_iff w).mp hfits)] at hlow
    exact hlt hlow

/-! ### A word from its bytes -/

lemma mapM_eq_some {g : ℕ → UInt8} {l : List ℕ} (h : ∀ i ∈ l, f i = some (g i)) :
    l.mapM f = some (l.map g) := by
  induction l with
  | nil => rfl
  | cons i l ih =>
    simp [List.mapM_cons, h i List.mem_cons_self, ih fun j hj => h j (List.mem_cons_of_mem i hj)]

lemma wordOfFn_eq {g : ℕ → UInt8} {v : BitVec 256} (hf : ∀ i < 32, f i = some (g i))
    (hg : ∀ j < 256, (g (31 - j / 8)).toNat.testBit (j % 8) = v.getLsbD j) :
    wordOfFn f = some (Word.ofBits v) := by
  have hmap := mapM_eq_some (l := List.range 32) fun i hi => hf i (List.mem_range.mp hi)
  obtain ⟨w, hw, hbytes⟩ := wordOf_of_length (show ((List.range 32).map g).length = 32 by simp)
  have hget : ∀ i (hi : i < 32), w[i] = g i := by
    intro i hi
    have hi' : w.toList[i]? = some (g i) := by
      rw [hbytes]
      simp [hi]
    simpa [hi] using hi'
  have hbits : Word.bits w = v := by
    refine BitVec.eq_of_getLsbD_eq fun j hj => ?_
    rw [getLsbD_bits w hj, hget, hg j hj]
  rw [wordOfFn, hmap, bind_eq_bind, bind_some, hw, ← hbits, ofBits_bits]

lemma testBit_join (hi lo : UInt8) {t k : ℕ} (ht : 0 < t) (ht8 : t < 8) (hk : k < 8) :
    ((hi <<< UInt8.ofNat t) ||| (lo >>> UInt8.ofNat (8 - t))).toNat.testBit k =
      if t ≤ k then hi.toNat.testBit (k - t) else lo.toNat.testBit (k + 8 - t) := by
  have hlo : lo.toNat < 2 ^ 8 := lo.toNat_lt
  rw [UInt8.toNat_or, UInt8.toNat_shiftLeft, UInt8.toNat_shiftRight, UInt8.toNat_ofNat',
    UInt8.toNat_ofNat', Nat.mod_eq_of_lt (show t < 2 ^ 8 by omega),
    Nat.mod_eq_of_lt (show 8 - t < 2 ^ 8 by omega), Nat.mod_eq_of_lt ht8,
    Nat.mod_eq_of_lt (show 8 - t < 8 by omega), Nat.testBit_or, Nat.testBit_mod_two_pow,
    Nat.testBit_shiftLeft, Nat.testBit_shiftRight, decide_eq_true hk, Bool.true_and]
  split
  · rename_i hle
    rw [decide_eq_true hle, Bool.true_and,
      Nat.testBit_lt_two_pow (lt_of_lt_of_le hlo (Nat.pow_le_pow_right (by norm_num) (by omega))),
      Bool.or_false]
  · rename_i hlt
    rw [decide_eq_false (by omega), Bool.false_and, Bool.false_or]
    congr 1
    omega

lemma joinBytes_pos {t : ℕ} (ht : 0 < t) (ht8 : t < 8) (whole : UInt8)
    (join : UInt8 → UInt8 → UInt8) :
    joinBytes t whole join = some (join (UInt8.ofNat t) (UInt8.ofNat (8 - t))) := by
  rw [joinBytes, if_neg (by omega), shiftAmount, shiftAmount, if_pos ht8, if_pos (by omega)]
  rfl

/-! ### The shift to the left -/

def byteAt (w : Word) (i : ℕ) : UInt8 := w.toList.getD i 0

lemma byteAt_of_lt (w : Word) (hi : i < 32) : w[i]? = some (byteAt w i) := by
  rw [byteAt, List.getD_eq_getElem _ _ (by rw [length_toList]; exact hi)]
  simp [hi]

lemma byteAt_of_le (w : Word) (hi : 32 ≤ i) : byteAt w i = 0 :=
  List.getD_eq_default _ _ (by rw [length_toList]; exact hi)

lemma testBit_byteAt (w : Word) (i : ℕ) {k : ℕ} (hk : k < 8) :
    (byteAt w i).toNat.testBit k =
      (decide (i < 32) && (Word.bits w).getLsbD (8 * (31 - i) + k)) := by
  by_cases hi : i < 32
  · have hget := byteAt_of_lt w hi
    rw [Vector.getElem?_eq_getElem hi, Option.some.injEq] at hget
    have hindex : 31 - (8 * (31 - i) + k) / 8 = i := by omega
    have hmod : (8 * (31 - i) + k) % 8 = k := by omega
    rw [decide_eq_true hi, Bool.true_and, getLsbD_bits w (by omega), hmod, ← hget]
    simp only [hindex]
  · rw [byteAt_of_le w (by omega), decide_eq_false hi]
    simp

lemma testBit_byteAt_moved (w : Word) {k j s : ℕ} (hk : k < 8) (hi : i < 32 ↔ ¬ j < s)
    (hj : i < 32 → 8 * (31 - i) + k = j - s) :
    (byteAt w i).toNat.testBit k = (!decide (j < s) && (Word.bits w).getLsbD (j - s)) := by
  rw [testBit_byteAt w i hk, decide_eq_decide.mpr hi, decide_not]
  by_cases hlt : j < s
  · rw [decide_eq_true hlt]
    rfl
  · rw [hj (hi.mpr hlt)]

lemma guardedByte_byteAt (w : Word) {p : Prop} [Decidable p] (hp : p ↔ i < 32) :
    guardedByte p w[i]? 0 = some (byteAt w i) := by
  unfold guardedByte
  split
  · rename_i h
    exact byteAt_of_lt w (hp.mp h)
  · rename_i h
    rw [byteAt_of_le w (Nat.not_lt.mp (mt hp.mpr h))]

def leftByte (w : Word) (B t i : ℕ) : UInt8 :=
  if t = 0 then byteAt w (i + B)
  else (byteAt w (i + B) <<< UInt8.ofNat t) ||| (byteAt w (i + B + 1) >>> UInt8.ofNat (8 - t))

lemma testBit_leftByte (w : Word) {B t j : ℕ} (ht : t < 8) (hj : j < 256) :
    (leftByte w B t (31 - j / 8)).toNat.testBit (j % 8) =
      (Word.bits w <<< (8 * B + t)).getLsbD j := by
  have hk : j % 8 < 8 := Nat.mod_lt _ (by decide)
  rw [BitVec.getLsbD_shiftLeft, decide_eq_true hj, Bool.true_and]
  unfold leftByte
  split
  · exact testBit_byteAt_moved w hk (by omega) (by omega)
  · rw [testBit_join _ _ (by omega) ht hk]
    split
    · exact testBit_byteAt_moved w (by omega) (by omega) (by omega)
    · exact testBit_byteAt_moved w (by omega) (by omega) (by omega)

lemma leftByte_eq (val : Word) {B t : ℕ} (ht : t < 8) :
    (do
      let hi ← guardedByte (i + B < 32) val[i + B]? 0
      let lo ← guardedByte (0 < t ∧ i + B + 1 < 32) val[i + B + 1]? 0
      joinBytes t hi fun left right => (hi <<< left) ||| (lo >>> right)) =
    some (leftByte val B t i) := by
  rw [guardedByte_byteAt val Iff.rfl, bind_eq_bind, bind_some]
  unfold leftByte
  rcases Nat.eq_zero_or_pos t with rfl | hpos
  · rw [if_pos rfl, guardedByte, if_neg (by omega)]
    rfl
  · rw [if_neg (by omega), guardedByte_byteAt val (i := i + B + 1) (and_iff_right hpos),
      bind_some, joinBytes_pos hpos ht]

lemma wordShl_eq (shift val : Word) :
    wordShl shift val = some (Word.ofBits (Word.bits val <<< Word.value shift)) := by
  unfold wordShl
  rw [wordBelow_eq shift (by norm_num)]
  generalize Word.value shift = s
  by_cases hlt : s < 256
  · rw [if_pos hlt]
    cases s with
    | zero =>
      rw [BitVec.shiftLeft_zero, ofBits_bits]
      rfl
    | succ n =>
      have ht : (n + 1) % 8 < 8 := Nat.mod_lt _ (by decide)
      refine wordOfFn_eq (g := leftByte val ((n + 1) / 8) ((n + 1) % 8))
        (fun i _ => leftByte_eq val ht) fun j hj => ?_
      rw [testBit_leftByte val ht hj, Nat.div_add_mod]
  · rw [if_neg hlt, BitVec.shiftLeft_eq_zero (Nat.not_lt.mp hlt), zero_eq]
    rfl

/-! ### The shifts to the right -/

def byteAbove (w : Word) (negative : Bool) (B i : ℕ) : UInt8 :=
  if B ≤ i then byteAt w (i - B) else if negative then 0xFF else 0

lemma testBit_byteAbove (w : Word) (negative : Bool) {B k : ℕ} (hi : i < 32) (hk : k < 8) :
    (byteAbove w negative B i).toNat.testBit k =
      if B ≤ i then (Word.bits w).getLsbD (8 * (31 - (i - B)) + k) else negative := by
  unfold byteAbove
  split
  · rw [testBit_byteAt w _ hk, decide_eq_true (by omega), Bool.true_and]
  · have hall : ∀ b : Bool, ∀ k < 8, (if b then 0xFF else 0 : UInt8).toNat.testBit k = b := by
      decide
    exact hall negative k hk

def rightByte (w : Word) (negative : Bool) (B t i : ℕ) : UInt8 :=
  if t = 0 then byteAbove w negative B i
  else (byteAbove w negative B i >>> UInt8.ofNat t) |||
    (byteAbove w negative (B + 1) i <<< UInt8.ofNat (8 - t))

lemma testBit_rightByte (w : Word) (negative : Bool) {B t j : ℕ} (ht : t < 8) (hj : j < 256) :
    (rightByte w negative B t (31 - j / 8)).toNat.testBit (j % 8) =
      if 8 * B + t + j < 256 then (Word.bits w).getLsbD (8 * B + t + j) else negative := by
  have hk : j % 8 < 8 := Nat.mod_lt _ (by decide)
  unfold rightByte
  split
  · rw [testBit_byteAbove w negative (by omega) hk]
    refine if_ctx_congr (by omega) (fun hlt => ?_) fun _ => rfl
    congr 1
    omega
  · rw [UInt8.or_comm]
    have hjoin := testBit_join (byteAbove w negative (B + 1) (31 - j / 8))
      (byteAbove w negative B (31 - j / 8)) (show 0 < 8 - t by omega) (by omega) hk
    rw [show 8 - (8 - t) = t by omega] at hjoin
    rw [hjoin]
    split
    · rw [testBit_byteAbove w negative (by omega) (by omega)]
      refine if_ctx_congr (by omega) (fun hlt => ?_) fun _ => rfl
      congr 1
      omega
    · rw [testBit_byteAbove w negative (by omega) (by omega)]
      refine if_ctx_congr (by omega) (fun hlt => ?_) fun _ => rfl
      congr 1
      omega

lemma rightByte_eq (val : Word) {B t : ℕ} (ht : t < 8) (hi : i < 32) :
    (do
      let lo ← guardedByte (B ≤ i) val[i - B]? 0
      let hi ← guardedByte (0 < t ∧ B + 1 ≤ i) val[i - B - 1]? 0
      joinBytes t lo fun right left => (lo >>> right) ||| (hi <<< left)) =
    some (rightByte val false B t i) := by
  have hbyte : ∀ B, guardedByte (B ≤ i) val[i - B]? 0 = some (byteAbove val false B i) := by
    intro B
    unfold guardedByte byteAbove
    split
    · exact byteAt_of_lt val (by omega)
    · rfl
  rw [hbyte, bind_eq_bind, bind_some]
  unfold rightByte
  rcases Nat.eq_zero_or_pos t with rfl | hpos
  · rw [if_pos rfl, guardedByte, if_neg (by omega)]
    rfl
  · have hnext := hbyte (B + 1)
    simp only [hpos, true_and]
    rw [if_neg (by omega), Nat.sub_sub, hnext, bind_some, joinBytes_pos hpos ht]

lemma wordShr_eq (shift val : Word) :
    wordShr shift val = some (Word.ofBits (Word.bits val >>> Word.value shift)) := by
  unfold wordShr
  rw [wordBelow_eq shift (by norm_num)]
  generalize Word.value shift = s
  by_cases hlt : s < 256
  · rw [if_pos hlt]
    cases s with
    | zero =>
      rw [BitVec.ushiftRight_zero, ofBits_bits]
      rfl
    | succ n =>
      have ht : (n + 1) % 8 < 8 := Nat.mod_lt _ (by decide)
      refine wordOfFn_eq (g := rightByte val false ((n + 1) / 8) ((n + 1) % 8))
        (fun i hi => rightByte_eq val ht hi) fun j hj => ?_
      rw [testBit_rightByte val false ht hj, Nat.div_add_mod, BitVec.getLsbD_ushiftRight]
      split
      · rfl
      · rename_i hge
        exact (BitVec.getLsbD_of_ge _ _ (Nat.not_lt.mp hge)).symm
  · rw [if_neg hlt, BitVec.ushiftRight_eq_zero (Nat.not_lt.mp hlt), zero_eq]
    rfl

lemma signedByte_eq (val : Word) {B t : ℕ} (ht : t < 8) (hi : i < 32) :
    (if i < B then some (signFill val)
      else do
        let lo ← val[i - B]?
        let hi ← guardedByte (0 < t ∧ B < i) val[i - B - 1]? (if 0 < t then signFill val else 0)
        joinBytes t lo fun right left => (lo >>> right) ||| (hi <<< left)) =
    some (rightByte val (wordIsNegative val) B t i) := by
  have habove : ∀ B, i < B → byteAbove val (wordIsNegative val) B i = signFill val := by
    intro B hlt
    rw [byteAbove, if_neg (by omega), signFill]
  unfold rightByte
  split
  · rename_i hlt
    rw [habove B hlt, habove (B + 1) (by omega)]
    split
    · rfl
    · -- a byte of signs, moved and joined, is a byte of signs
      have hall : ∀ b : Bool, ∀ t < 8, 0 < t → ((if b then 0xFF else 0 : UInt8) >>> UInt8.ofNat t) |||
          ((if b then 0xFF else 0) <<< UInt8.ofNat (8 - t)) = if b then 0xFF else 0 := by decide
      rw [signFill, hall _ t ht (by omega)]
  · rename_i hge
    have hlo : val[i - B]? = some (byteAbove val (wordIsNegative val) B i) := by
      rw [byteAbove, if_pos (by omega)]
      exact byteAt_of_lt val (by omega)
    rw [hlo, bind_eq_bind, bind_some]
    rcases Nat.eq_zero_or_pos t with rfl | hpos
    · rw [if_pos rfl, guardedByte, if_neg (by omega)]
      rfl
    · have hhi : guardedByte (0 < t ∧ B < i) val[i - B - 1]? (if 0 < t then signFill val else 0) =
          some (byteAbove val (wordIsNegative val) (B + 1) i) := by
        unfold guardedByte
        rw [if_pos hpos]
        split
        · rename_i hlt
          rw [byteAbove, if_pos (by omega), Nat.sub_sub]
          exact byteAt_of_lt val (by omega)
        · rw [habove (B + 1) (by omega)]
      rw [hhi, if_neg (by omega), bind_some, joinBytes_pos hpos ht]

lemma replicate_signFill (val : Word) {s : ℕ} (hs : 256 ≤ s) :
    Vector.replicate 32 (signFill val) = Word.ofBits ((Word.bits val).sshiftRight s) := by
  refine bits_injective ?_
  rw [bits_ofBits]
  refine BitVec.eq_of_getLsbD_eq fun j hj => ?_
  have hall : ∀ b : Bool, ∀ k < 8, (if b then 0xFF else 0 : UInt8).toNat.testBit k = b := by decide
  rw [getLsbD_bits _ hj, Vector.getElem_replicate, signFill, hall _ _ (Nat.mod_lt _ (by decide)),
    wordIsNegative_eq, BitVec.getLsbD_sshiftRight, if_neg (by omega), decide_eq_false (by omega)]
  rfl

lemma wordSar_eq (shift val : Word) :
    wordSar shift val = some (Word.ofBits ((Word.bits val).sshiftRight (Word.value shift))) := by
  unfold wordSar
  rw [wordBelow_eq shift (by norm_num)]
  generalize Word.value shift = s
  by_cases hlt : s < 256
  · rw [if_pos hlt]
    cases s with
    | zero =>
      rw [BitVec.sshiftRight_zero, ofBits_bits]
      rfl
    | succ n =>
      have ht : (n + 1) % 8 < 8 := Nat.mod_lt _ (by decide)
      refine wordOfFn_eq (g := rightByte val (wordIsNegative val) ((n + 1) / 8) ((n + 1) % 8))
        (fun i hi => signedByte_eq val ht hi) fun j hj => ?_
      rw [testBit_rightByte val _ ht hj, Nat.div_add_mod, BitVec.getLsbD_sshiftRight,
        wordIsNegative_eq, decide_eq_false (by omega), Bool.not_false, Bool.true_and]
  · rw [if_neg hlt]
    exact congrArg some (replicate_signFill val (Nat.not_lt.mp hlt))

/-! ### A byte of a word -/

def Evm.byte (x y : BitVec 256) : BitVec 256 :=
  if x.toNat < 32 then (y >>> (8 * (31 - x.toNat))) &&& 0xFF else 0

lemma byte_eq_value (w : Word) (hi : i < 32) :
    (w[i]).toNat = Word.value w / 2 ^ (8 * (31 - i)) % 256 := by
  have hsplit := Digits.value_append (w.toList.take (i + 1)) (w.toList.drop (i + 1))
  have hrest := Digits.value_lt (w.toList.drop (i + 1))
  have hget : w.toList[i]? = some w[i] := by simp [hi]
  rw [List.take_append_drop, Digits.value_take_succ hget] at hsplit
  have hpow : 2 ^ (8 * (31 - i)) = 256 ^ (w.toList.drop (i + 1)).length := by
    rw [List.length_drop, length_toList, pow_mul, show 32 - (i + 1) = 31 - i by omega]
    norm_num
  rw [Word.value, hsplit, hpow, mul_comm _ (256 ^ _), Nat.mul_add_div (by positivity),
    Nat.div_eq_of_lt hrest, add_zero, Nat.mul_add_mod]
  exact (Nat.mod_eq_of_lt (w[i]).toNat_lt).symm

lemma wordByte_eq (idx val : Word) :
    wordByte idx val = some (Word.ofBits (Evm.byte (Word.bits idx) (Word.bits val))) := by
  unfold wordByte Evm.byte
  rw [wordBelow_eq idx (by norm_num), toNat_bits]
  by_cases hlt : Word.value idx < 32
  · obtain ⟨w, hw, hbytes⟩ := wordOf_of_length
      (show (List.replicate 31 0 ++ [val[Word.value idx]]).length = 32 by simp)
    rw [if_pos hlt, if_pos hlt]
    simp only [Vector.getElem?_eq_getElem hlt, bind_eq_bind, bind_some]
    rw [hw, eq_ofBits (w := w)]
    rw [Word.value, hbytes, Digits.value_append, Digits.value_replicate_zero, BitVec.toNat_and,
      BitVec.toNat_ushiftRight, toNat_bits, Nat.shiftRight_eq_div_pow]
    have hmask := Nat.and_two_pow_sub_one_eq_mod (Word.value val / 2 ^ (8 * (31 - Word.value idx))) 8
    simp only [List.length_cons, List.length_nil, Nat.zero_mul, Nat.zero_add, Digits.value_cons,
      Digits.value_nil, pow_zero, Nat.mul_one, Nat.add_zero]
    rw [byte_eq_value val hlt]
    exact hmask.symm
  · rw [if_neg hlt, if_neg hlt, zero_eq]

/-! ### Powers -/

lemma expLoop_eq {rounds e : ℕ} (he : e < 2 ^ rounds) (result base : Word) :
    ∃ w, expLoop rounds result base e = some w ∧
      Word.mirrored w = Word.mirrored result * Word.mirrored base ^ e % (2 ^ 64) ^ 4 := by
  induction rounds generalizing result base e with
  | zero =>
    obtain rfl : e = 0 := by omega
    refine ⟨result, rfl, ?_⟩
    rw [pow_zero, Nat.mul_one, Nat.mod_eq_of_lt (mirrored_lt result)]
  | succ rounds ih =>
    rw [expLoop]
    split
    · rename_i hzero
      refine ⟨result, rfl, ?_⟩
      rw [hzero, pow_zero, Nat.mul_one, Nat.mod_eq_of_lt (mirrored_lt result)]
    · obtain ⟨square, hsquare, hsquared⟩ := mirrored_wordMul base base
      have hhalf : e / 2 < 2 ^ rounds := by
        rw [pow_succ] at he
        omega
      have hsplit := Nat.div_add_mod e 2
      -- `base ^ e` from the square and, for an odd exponent, one more factor
      have hpow : ∀ r, r * (Word.mirrored base * Word.mirrored base) ^ (e / 2) *
          Word.mirrored base ^ (e % 2) = r * Word.mirrored base ^ e := by
        intro r
        rw [← pow_two, ← pow_mul, Nat.mul_assoc, ← pow_add, hsplit]
      by_cases hodd : e % 2 = 1
      · obtain ⟨product, hproduct, hval⟩ := mirrored_wordMul result base
        obtain ⟨w, hw, hmirror⟩ := ih hhalf product square
        refine ⟨w, by rw [if_pos hodd, hproduct, hsquare]; exact hw, ?_⟩
        rw [hmirror, hval, hsquared, ← hpow, hodd, pow_one, Nat.mul_mod, Nat.mod_mod, ← Nat.pow_mod,
          ← Nat.mul_mod]
        congr 1
        ring
      · obtain ⟨w, hw, hmirror⟩ := ih hhalf result square
        refine ⟨w, by rw [if_neg hodd, hsquare]; exact hw, ?_⟩
        rw [hmirror, hsquared, ← hpow, show e % 2 = 0 by omega, pow_zero, Nat.mul_one, Nat.mul_mod,
          ← Nat.pow_mod, ← Nat.mul_mod]

lemma value_wordExp (base exp : Word) : ∃ w, wordExp base exp = some w ∧
    Word.value w = (Word.value base / 2 ^ 192) ^ (Word.value exp % 2 ^ 64) % 2 ^ 64 := by
  have hone : Word.value (wordFromU64 1) = 1 := by decide +kernel
  unfold wordExp
  split
  · rename_i hzero
    have hexp : Word.value exp = 0 := (bits_eq_zero_iff exp).mp ((wordIsZero_iff exp).mp hzero)
    refine ⟨_, rfl, ?_⟩
    rw [hone, hexp]
    norm_num
  · obtain ⟨w, hw, hmirror⟩ := expLoop_eq (wordToU64Unchecked_lt exp) (wordFromU64 1) base
    refine ⟨w, hw, ?_⟩
    have hlimb := limb_mirrored base (show 0 < 4 by decide)
    have hlow : Word.mirrored base % 2 ^ 64 = Word.value base / 2 ^ 192 := by
      have hlt := value_lt base
      simp only [Limbs.limb, pow_zero, Nat.div_one] at hlimb
      omega
    have hstart : Word.mirrored (wordFromU64 1) = (2 ^ 64) ^ 3 := by
      rw [mirrored_of_lt (by rw [hone]; norm_num), hone, Nat.one_mul]
    rw [hstart, show ((2 ^ 64) ^ 4 : ℕ) = (2 ^ 64) ^ 3 * 2 ^ 64 from rfl, Nat.mul_mod_mul_left,
      Nat.pow_mod, hlow, Nat.mul_comm, wordToU64Unchecked_eq] at hmirror
    -- one limb, mirrored twice
    have hlt : (Word.value base / 2 ^ 192) ^ (Word.value exp % 2 ^ 64) % 2 ^ 64 < 2 ^ 64 :=
      Nat.mod_lt _ (by norm_num)
    rw [value_eq_mirror, hmirror, ← Limbs.mirror_of_lt 3 hlt,
      Limbs.mirror_mirror (by norm_num) (lt_of_lt_of_le hlt (by norm_num))]

end Iona.Vm
