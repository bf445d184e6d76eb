import Iona.Vm.Word
import Iona.Lib.Limbs

/-! # The word loops run to their end -/

namespace Iona.Vm

open Option

variable {c i k n : ℕ} {f : ℕ → Option UInt8}

lemma exists_get (a : Word) (h : i < 32) : ∃ b, a[i]? = some b :=
  ⟨a[i], Vector.getElem?_eq_getElem h⟩

@[simp] lemma length_toList (a : Word) : a.toList.length = 32 := by simp

lemma wordOf_of_length {bytes : List UInt8} (h : bytes.length = 32) :
    ∃ w, wordOf bytes = some w ∧ w.toList = bytes := by
  refine ⟨⟨bytes.toArray, h⟩, dif_pos h, ?_⟩
  simp [Vector.toList]

def Word.value (w : Word) : ℕ := Digits.value w.toList

lemma value_lt (w : Word) : Word.value w < 2 ^ 256 := by
  exact Digits.value_lt_two_pow (by rw [length_toList])

lemma value_take_succ (a : Word) {b : UInt8} (h : a[i]? = some b) :
    Digits.value (a.toList.take (i + 1)) = 256 * Digits.value (a.toList.take i) + b.toNat :=
  Digits.value_take_succ (by simpa using h)

def column (a : Word) (i : ℕ) : ℤ := ((a[i]?).getD 0).toNat

lemma value_take_column (a : Word) (hi : i < 32) :
    (Digits.value (a.toList.take (i + 1)) : ℤ) =
      256 * Digits.value (a.toList.take i) + column a i := by
  obtain ⟨b, hb⟩ := exists_get a hi
  rw [value_take_succ a hb, column, hb]
  simp

lemma exists_down_word {round : ℕ → ℕ → Option (UInt8 × ℕ)} {s : ℤ} {carry : ℕ} (x X : ℕ → ℤ)
    (hround : ∀ i < 32, ∀ c ≤ 1, ∃ b, ∃ c' ≤ 1, round i c = some (b, c') ∧
      (b.toNat : ℤ) + 256 * s * c' = x i + s * c)
    (hzero : X 0 = 0) (hsucc : ∀ i < 32, X (i + 1) = 256 * X i + x i) (hcarry : carry ≤ 1) :
    ∃ l c w, Digits.down round 32 carry [] = some (l, c) ∧ c ≤ 1 ∧ wordOf l = some w ∧
      (Word.value w : ℤ) + s * c * 2 ^ 256 = X 32 + s * carry := by
  obtain ⟨l, c, hc, hl, hlen, hval⟩ := Digits.exists_down [] hround hzero hsucc hcarry
  obtain ⟨w, hw, hbytes⟩ := wordOf_of_length hlen
  refine ⟨l, c, w, hl, hc, hw, ?_⟩
  rw [Word.value, hbytes]
  simp only [List.length_nil, pow_zero, mul_one, Digits.value_nil, Nat.cast_zero,
    add_zero] at hval
  rw [← hval]
  norm_num

lemma value_take_full (a : Word) : Digits.value (a.toList.take 32) = Word.value a := by
  rw [List.take_of_length_le (by simp), Word.value]

lemma addRound_total (a b : Word) (hi : i < 32) (hc : c ≤ 1) :
    ∃ byte, ∃ c' ≤ 1, addRound a b i c = some (byte, c') ∧
      (byte.toNat : ℤ) + 256 * 1 * c' = column a i + column b i + 1 * c := by
  obtain ⟨x, hx⟩ := exists_get a hi
  obtain ⟨y, hy⟩ := exists_get b hi
  have hxlt := x.toNat_lt
  have hylt := y.toNat_lt
  refine ⟨UInt8.ofNat (x.toNat + y.toNat + c), (x.toNat + y.toNat + c) / 256, by omega, ?_, ?_⟩
  · simp [addRound, hx, hy, Checked.fit_of_lt (show x.toNat + y.toNat + c < 2 ^ 16 by omega)]
  · simp only [column, hx, hy, getD_some, UInt8.toNat_ofNat']
    omega

lemma subRound_total (a b : Word) (hi : i < 32) (hc : c ≤ 1) :
    ∃ byte, ∃ c' ≤ 1, subRound a b i c = some (byte, c') ∧
      (byte.toNat : ℤ) + 256 * (-1) * c' = column a i - column b i + (-1) * c := by
  obtain ⟨x, hx⟩ := exists_get a hi
  obtain ⟨y, hy⟩ := exists_get b hi
  have hxlt := x.toNat_lt
  have hylt := y.toNat_lt
  have hrange : -2 ^ 15 ≤ (x.toNat : ℤ) - y.toNat - c ∧ (x.toNat : ℤ) - y.toNat - c < 2 ^ 15 := by
    omega
  refine ⟨UInt8.ofNat (((x.toNat : ℤ) - y.toNat - c) % 256).toNat,
    if (x.toNat : ℤ) - y.toNat - c < 0 then 1 else 0, ?_, ?_, ?_⟩
  · split <;> omega
  · simp only [subRound, hx, hy, bind_eq_bind, bind_some]
    exact if_pos hrange
  · simp only [column, hx, hy, getD_some, UInt8.toNat_ofNat']
    split <;> omega

lemma negRound_total (a : Word) (hi : i < 32) (hc : c ≤ 1) :
    ∃ byte, ∃ c' ≤ 1, negRound a i c = some (byte, c') ∧
      (byte.toNat : ℤ) + 256 * 1 * c' = (255 - column a i) + 1 * c := by
  obtain ⟨x, hx⟩ := exists_get a hi
  have hxlt := x.toNat_lt
  have hnot : (~~~x).toNat = 255 - x.toNat := by
    rw [UInt8.toNat_not]
    rfl
  refine ⟨UInt8.ofNat ((~~~x).toNat + c), ((~~~x).toNat + c) / 256, by omega, ?_, ?_⟩
  · simp only [negRound, hx, bind_eq_bind, bind_some,
      Checked.fit_of_lt (show (~~~x).toNat + c < 2 ^ 16 by omega)]
    rfl
  · simp only [column, hx, getD_some, UInt8.toNat_ofNat', hnot]
    omega

lemma shl_byte (x : UInt8) (hc : c ≤ 1) :
    ((x <<< 1) ||| UInt8.ofNat c).toNat + 256 * (x >>> 7).toNat = 2 * x.toNat + c := by
  have hall : ∀ n < 256, ∀ c < 2, ((UInt8.ofNat n <<< 1) ||| UInt8.ofNat c).toNat +
      256 * (UInt8.ofNat n >>> 7).toNat = 2 * n + c := by decide +kernel
  have h := hall x.toNat x.toNat_lt c (by omega)
  rwa [UInt8.ofNat_toNat] at h

lemma shlRound_total (a : Word) (hi : i < 32) (hc : c ≤ 1) :
    ∃ byte, ∃ c' ≤ 1, shlRound a i c = some (byte, c') ∧
      (byte.toNat : ℤ) + 256 * 1 * c' = 2 * column a i + 1 * c := by
  obtain ⟨x, hx⟩ := exists_get a hi
  have hxlt := x.toNat_lt
  have hshl := shl_byte x hc
  refine ⟨(x <<< 1) ||| UInt8.ofNat c, (x >>> 7).toNat, by omega, by simp [shlRound, hx], ?_⟩
  simp only [column, hx, getD_some]
  omega

lemma add_loop (a b : Word) :
    ∃ l c w, Digits.down (addRound a b) 32 0 [] = some (l, c) ∧ c ≤ 1 ∧ wordOf l = some w ∧
      (Word.value w : ℤ) + 1 * c * 2 ^ 256 = Word.value a + Word.value b + 1 * (0 : ℕ) := by
  obtain ⟨l, c, w, hl, hc, hw, hval⟩ := exists_down_word
    (fun i => column a i + column b i)
    (fun i => Digits.value (a.toList.take i) + Digits.value (b.toList.take i))
    (fun i hi c hc => addRound_total a b hi hc) (by simp)
    (fun i hi => by rw [value_take_column a hi, value_take_column b hi]; ring) (Nat.zero_le 1)
  rw [value_take_full, value_take_full] at hval
  exact ⟨l, c, w, hl, hc, hw, hval⟩

lemma wordAdd_ne_none (a b : Word) : wordAdd a b ≠ none := by
  obtain ⟨l, c, w, hl, -, hw, -⟩ := add_loop a b
  simp [wordAdd, hl, hw]

lemma exists_wordSub (a b : Word) :
    ∃ w, wordSub a b = some w ∧ ∃ c : ℕ, c ≤ 1 ∧ (Word.value w : ℤ) - c * 2 ^ 256 =
      Word.value a - Word.value b := by
  obtain ⟨l, c, w, hl, hc, hw, hval⟩ := exists_down_word
    (fun i => column a i - column b i)
    (fun i => Digits.value (a.toList.take i) - Digits.value (b.toList.take i))
    (fun i hi c hc => subRound_total a b hi hc) (by simp)
    (fun i hi => by rw [value_take_column a hi, value_take_column b hi]; ring) (Nat.zero_le 1)
  rw [value_take_full, value_take_full] at hval
  refine ⟨w, by simp [wordSub, hl, hw], c, hc, ?_⟩
  push_cast at hval
  linarith

lemma wordSub_of_le {a b : Word} (h : Word.value b ≤ Word.value a) :
    ∃ w, wordSub a b = some w ∧ Word.value w = Word.value a - Word.value b := by
  obtain ⟨w, hw, c, hc, hval⟩ := exists_wordSub a b
  have hlt := value_lt w
  have ha := value_lt a
  refine ⟨w, hw, ?_⟩
  omega

lemma exists_wordNeg (a : Word) :
    ∃ w, wordNeg a = some w ∧ ∃ c : ℕ, c ≤ 1 ∧ (Word.value w : ℤ) + c * 2 ^ 256 =
      2 ^ 256 - Word.value a := by
  obtain ⟨l, c, w, hl, hc, hw, hval⟩ := exists_down_word
    (fun i => 255 - column a i) (fun i => 256 ^ i - 1 - Digits.value (a.toList.take i))
    (fun i hi c hc => negRound_total a hi hc) (by simp)
    (fun i hi => by rw [value_take_column a hi]; ring) le_rfl
  rw [value_take_full] at hval
  refine ⟨w, by simp [wordNeg, hl, hw], c, hc, ?_⟩
  push_cast at hval
  linarith

/-! ### Multiplication -/

lemma value_carried {v : Vector UInt64 n} (hk : k < n) (sum : ℕ) :
    Limbs.value (v.set k (UInt64.ofNat sum)).toList + sum / 2 ^ 64 * (2 ^ 64) ^ (k + 1) +
      v[k].toNat * (2 ^ 64) ^ k = Limbs.value v.toList + sum * (2 ^ 64) ^ k := by
  have hset := Limbs.value_set (l := v.toList) (i := k) (x := v[k]) (by simp [hk])
    (UInt64.ofNat sum)
  rw [← Vector.toList_set (h := hk), UInt64.toNat_ofNat'] at hset
  have hsplit := Nat.mod_add_div sum (2 ^ 64)
  calc _ = Limbs.value (v.set k (UInt64.ofNat sum)).toList + v[k].toNat * (2 ^ 64) ^ k +
        sum / 2 ^ 64 * (2 ^ 64) ^ (k + 1) := by ring
    _ = Limbs.value v.toList + (sum % 2 ^ 64 + 2 ^ 64 * (sum / 2 ^ 64)) * (2 ^ 64) ^ k := by
      rw [hset]
      ring
    _ = Limbs.value v.toList + sum * (2 ^ 64) ^ k := by rw [hsplit]

lemma mulRound_total (x y : UInt64) (hk : k < n) {acc : Vector UInt64 n × ℕ} (hc : acc.2 < 2 ^ 64) :
    ∃ acc', mulRound x y k acc = some acc' ∧ acc'.2 < 2 ^ 64 ∧
      Limbs.value acc'.1.toList + acc'.2 * (2 ^ 64) ^ (k + 1) =
        Limbs.value acc.1.toList + acc.2 * (2 ^ 64) ^ k + x.toNat * y.toNat * (2 ^ 64) ^ k := by
  have hx : x.toNat ≤ 2 ^ 64 - 1 := Nat.le_pred_of_lt x.toNat_lt
  have hy : y.toNat ≤ 2 ^ 64 - 1 := Nat.le_pred_of_lt y.toNat_lt
  have hr := (acc.1[k]).toNat_lt
  have hxy : x.toNat * y.toNat ≤ (2 ^ 64 - 1) * (2 ^ 64 - 1) := Nat.mul_le_mul hx hy
  have hfit : x.toNat * y.toNat + acc.1[k].toNat + acc.2 < 2 ^ 128 := by omega
  refine ⟨(acc.1.set k (UInt64.ofNat (x.toNat * y.toNat + acc.1[k].toNat + acc.2)),
    (x.toNat * y.toNat + acc.1[k].toNat + acc.2) / 2 ^ 64), ?_, by change _ / _ < _; omega, ?_⟩
  · simp [mulRound, Vector.getElem?_eq_getElem hk, Checked.fit_of_lt hfit, Checked.set_of_lt hk]
  · have hcarried := value_carried (v := acc.1) hk (x.toNat * y.toNat + acc.1[k].toNat + acc.2)
    linarith

lemma mulRow_total (a b : Vector UInt64 4) {width : ℕ} (hi : i < 4) (hw : width ≤ 4)
    (hn : i + width ≤ n) (result : Vector UInt64 n) :
    ∃ acc, mulRow a b i width result = some acc ∧ acc.2 < 2 ^ 64 ∧
      Limbs.value acc.1.toList + acc.2 * (2 ^ 64) ^ (i + width) =
        Limbs.value result.toList +
          a[i].toNat * (2 ^ 64) ^ i * Limbs.value (b.toList.take width) := by
  refine Checked.foldlM_range_inv (fun j (acc : Vector UInt64 n × ℕ) => acc.2 < 2 ^ 64 ∧
    Limbs.value acc.1.toList + acc.2 * (2 ^ 64) ^ (i + j) =
      Limbs.value result.toList + a[i].toNat * (2 ^ 64) ^ i * Limbs.value (b.toList.take j)) ?_
    (by simp [Limbs.value])
  rintro j hj acc ⟨hc, hval⟩
  have hj4 : j < 4 := by omega
  obtain ⟨acc', hround, hc', hval'⟩ := mulRound_total a[i] b[j] (k := i + j) (by omega) hc
  refine ⟨acc', ?_, hc', ?_⟩
  · rw [Vector.getElem?_eq_getElem hi, Vector.getElem?_eq_getElem hj4]
    exact hround
  · have hb : b.toList[j]? = some b[j] := by simp [hj4]
    rw [Limbs.value_take_succ hb, ← Nat.add_assoc, hval', hval, pow_add]
    ring

lemma mulLow_total (a b : Vector UInt64 4) (hi : i < 4) (result : Vector UInt64 4) :
    ∃ limbs, mulLow a b result i = some limbs ∧ Limbs.value limbs.toList ≡
      Limbs.value result.toList + a[i].toNat * (2 ^ 64) ^ i * Limbs.value b.toList
        [MOD (2 ^ 64) ^ 4] := by
  obtain ⟨acc, hrow, -, hval⟩ := mulRow_total a b hi (Nat.sub_le 4 i) (by omega) result
  have hcut := Limbs.value_take_add_drop (l := b.toList) (k := 4 - i) (by simp)
  have hpow : (2 ^ 64) ^ i * (2 ^ 64) ^ (4 - i) = (2 ^ 64 : ℕ) ^ 4 := by
    rw [← pow_add]
    congr 1
    omega
  rw [show i + (4 - i) = 4 by omega] at hval
  refine ⟨acc.1, by simp [mulLow, hrow], ?_⟩
  calc Limbs.value acc.1.toList
      ≡ Limbs.value acc.1.toList + acc.2 * (2 ^ 64) ^ 4 [MOD (2 ^ 64) ^ 4] :=
        (Nat.add_mul_mod_self_right _ _ _).symm
    _ ≡ Limbs.value result.toList + a[i].toNat * (2 ^ 64) ^ i *
          Limbs.value (b.toList.take (4 - i)) + a[i].toNat * Limbs.value (b.toList.drop (4 - i)) *
          (2 ^ 64) ^ 4 [MOD (2 ^ 64) ^ 4] := by
        rw [hval]
        exact (Nat.add_mul_mod_self_right _ _ _).symm
    _ = Limbs.value result.toList + a[i].toNat * (2 ^ 64) ^ i * Limbs.value b.toList := by
        rw [hcut, ← hpow]
        ring

lemma mul_loop (a b : Vector UInt64 4) :
    ∃ limbs, (List.range 4).foldlM (mulLow a b) (Vector.replicate 4 0) = some limbs ∧
      Limbs.value limbs.toList = Limbs.value a.toList * Limbs.value b.toList % (2 ^ 64) ^ 4 := by
  obtain ⟨limbs, hloop, hmod⟩ := Checked.foldlM_range_inv (f := mulLow a b) (n := 4)
    (b := Vector.replicate 4 0) (fun i limbs => Limbs.value limbs.toList ≡
      Limbs.value (a.toList.take i) * Limbs.value b.toList [MOD (2 ^ 64) ^ 4])
    (fun i hi result hres => by
      obtain ⟨limbs, hrow, hmod⟩ := mulLow_total a b hi result
      refine ⟨limbs, hrow, ?_⟩
      rw [Limbs.value_take_succ (show a.toList[i]? = some a[i] by simp [hi]), Nat.add_mul]
      exact hmod.trans (hres.add_right _)) (by
      rw [Vector.toList_replicate, Limbs.value_replicate_zero, List.take_zero, Limbs.value_nil,
        Nat.zero_mul])
  have hlt := Limbs.value_lt limbs.toList
  rw [Vector.length_toList] at hlt
  rw [List.take_of_length_le (by simp)] at hmod
  exact ⟨limbs, hloop, by rw [← hmod, Nat.mod_eq_of_lt hlt]⟩

lemma carryUp_total {acc : Vector UInt64 8 × ℕ} (hk : k < 8) (hc : acc.2 < 2 ^ 64) :
    ∃ acc', carryUp acc k = some acc' ∧ acc'.2 < 2 ^ 64 ∧
      Limbs.value acc'.1.toList + acc'.2 * (2 ^ 64) ^ (k + 1) =
        Limbs.value acc.1.toList + acc.2 * (2 ^ 64) ^ k := by
  unfold carryUp
  split
  · rename_i hzero
    exact ⟨acc, rfl, hc, by rw [hzero, Nat.zero_mul, Nat.zero_mul]⟩
  · have hr := (acc.1[k]).toNat_lt
    have hfit : acc.1[k].toNat + acc.2 < 2 ^ 128 := by omega
    refine ⟨(acc.1.set k (UInt64.ofNat (acc.1[k].toNat + acc.2)), (acc.1[k].toNat + acc.2) / 2 ^ 64),
      ?_, by change _ / _ < _; omega, ?_⟩
    · simp [Vector.getElem?_eq_getElem hk, Checked.fit_of_lt hfit, Checked.set_of_lt hk]
    · have hcarried := value_carried (v := acc.1) hk (acc.1[k].toNat + acc.2)
      linarith

lemma mulFullRow_total (a b : Vector UInt64 4) (hi : i < 4) (result : Vector UInt64 8) :
    ∃ limbs carry, mulFullRow a b result i = some limbs ∧
      Limbs.value limbs.toList + carry * (2 ^ 64) ^ 8 =
        Limbs.value result.toList + a[i].toNat * (2 ^ 64) ^ i * Limbs.value b.toList := by
  obtain ⟨acc, hrow, hc, hval⟩ := mulRow_total a b hi le_rfl (n := 8) (by omega) result
  rw [List.take_of_length_le (by simp)] at hval
  obtain ⟨acc', hup, -, hval'⟩ := Checked.foldlM_range'_inv (s := i + 4) (n := 4 - i) (f := carryUp)
    (fun k (acc' : Vector UInt64 8 × ℕ) => acc'.2 < 2 ^ 64 ∧
      Limbs.value acc'.1.toList + acc'.2 * (2 ^ 64) ^ k =
        Limbs.value acc.1.toList + acc.2 * (2 ^ 64) ^ (i + 4))
    (fun k hge hlt acc' hacc => by
      obtain ⟨acc'', hup, hc, hval⟩ := carryUp_total (show k < 8 by omega) hacc.1
      exact ⟨acc'', hup, hc, hval.trans hacc.2⟩) ⟨hc, rfl⟩
  rw [show i + 4 + (4 - i) = 8 by omega, hval] at hval'
  exact ⟨acc'.1, acc'.2, by simp [mulFullRow, hrow, hup], hval'⟩

lemma mulFull_loop (a b : Vector UInt64 4) :
    ∃ limbs, (List.range 4).foldlM (mulFullRow a b) (Vector.replicate 8 0) = some limbs ∧
      Limbs.value limbs.toList = Limbs.value a.toList * Limbs.value b.toList := by
  obtain ⟨limbs, hloop, hval⟩ := Checked.foldlM_range_inv (f := mulFullRow a b) (n := 4)
    (b := Vector.replicate 8 0) (fun i limbs => Limbs.value limbs.toList =
      Limbs.value (a.toList.take i) * Limbs.value b.toList)
    (fun i hi result hres => by
      obtain ⟨limbs, carry, hrow, hval⟩ := mulFullRow_total a b hi result
      rw [hres, ← Nat.add_mul,
        ← Limbs.value_take_succ (show a.toList[i]? = some a[i] by simp [hi])] at hval
      -- the product so far fits eight limbs, so nothing leaves the last one
      have hlt : Limbs.value (a.toList.take (i + 1)) * Limbs.value b.toList < (2 ^ 64) ^ 8 := by
        refine lt_of_lt_of_le (Nat.mul_lt_mul'' (Limbs.value_lt _) (Limbs.value_lt _)) ?_
        rw [← pow_add]
        refine Nat.pow_le_pow_right (by norm_num) ?_
        rw [List.length_take, Vector.length_toList, Vector.length_toList]
        omega
      have hcarry : carry = 0 := by
        by_contra hne
        have hge := Nat.le_mul_of_pos_left ((2 ^ 64) ^ 8) (Nat.pos_of_ne_zero hne)
        omega
      rw [hcarry, Nat.zero_mul, Nat.add_zero] at hval
      exact ⟨limbs, hrow, hval⟩) (by
      rw [Vector.toList_replicate, Limbs.value_replicate_zero, List.take_zero, Limbs.value_nil,
        Nat.zero_mul])
  rw [List.take_of_length_le (by simp)] at hval
  exact ⟨limbs, hloop, hval⟩

/-! ### Division -/

lemma bit_of_byte (x : UInt8) (i : ℕ) :
    ((x >>> UInt8.ofNat (7 - i % 8)) &&& 1).toNat = x.toNat / 2 ^ (7 - i % 8) % 2 := by
  have hall : ∀ n < 256, ∀ j < 8, ((UInt8.ofNat n >>> UInt8.ofNat (7 - j)) &&& 1).toNat =
      n / 2 ^ (7 - j) % 2 := by decide +kernel
  have h := hall x.toNat x.toNat_lt (i % 8) (Nat.mod_lt _ (by decide))
  rwa [UInt8.ofNat_toNat] at h

lemma or_bit (x bit : UInt8) (hx : x.toNat % 2 = 0) (hbit : bit.toNat < 2) :
    (x ||| bit).toNat = x.toNat + bit.toNat := by
  have hall : ∀ n < 256, ∀ b < 2, n % 2 = 0 → (UInt8.ofNat n ||| UInt8.ofNat b).toNat = n + b := by
    decide +kernel
  have h := hall x.toNat x.toNat_lt bit.toNat hbit hx
  rwa [UInt8.ofNat_toNat, UInt8.ofNat_toNat] at h

lemma value_set {w : Word} {old : UInt8} (hold : w[i]? = some old) (b : UInt8) (h : i < 32) :
    Word.value (w.set i b h) + old.toNat * 256 ^ (31 - i) =
      Word.value w + b.toNat * 256 ^ (31 - i) := by
  have hset := Digits.value_set (l := w.toList) (i := i) (by simpa using hold) b
  rwa [length_toList, ← Vector.toList_set] at hset

lemma exists_bringIn (dividend : List UInt8) (rem : Word) (hi : i / 8 < dividend.length) :
    ∃ w, bringIn dividend rem i = some w ∧ Word.value w =
      (2 * Word.value rem + Digits.digit (Digits.value dividend) (8 * dividend.length) i) % 2 ^ 256 := by
  obtain ⟨l, c, w, hl, hc, hw, hval⟩ := exists_down_word (fun i => 2 * column rem i)
    (fun i => 2 * Digits.value (rem.toList.take i)) (fun i hi c hc => shlRound_total rem hi hc)
    (by simp) (fun i hi => by rw [value_take_column rem hi]; ring) (Nat.zero_le 1)
  rw [value_take_full] at hval
  have hbyte : dividend[i / 8]? = some dividend[i / 8] := List.getElem?_eq_getElem hi
  have hdigit := Digits.digit_value hbyte
  set bit := (dividend[i / 8] >>> UInt8.ofNat (7 - i % 8)) &&& 1 with hbit
  have hbit_val : bit.toNat = Digits.digit (Digits.value dividend) (8 * dividend.length) i := by
    rw [hdigit, hbit, bit_of_byte]
  have hbit_lt : bit.toNat < 2 := by rw [hbit_val]; exact Nat.mod_lt _ (by decide)
  have hw_lt := value_lt w
  have hlast := value_take_succ w (show w[31]? = some w[31] from rfl)
  rw [value_take_full] at hlast
  -- the shifted remainder is even, so the bit is added
  have hadd := or_bit w[31] bit (by omega) hbit_lt
  have hset := value_set (w := w) rfl (w[31] ||| bit) (show 31 < 32 by decide)
  rw [Nat.sub_self, pow_zero, mul_one, mul_one] at hset
  refine ⟨w.set 31 (w[31] ||| bit), ?_, ?_⟩
  · simp only [bringIn, hl, hw, hbyte, bind_eq_bind, bind_some]
    rfl
  · have hset_lt := value_lt (w.set 31 (w[31] ||| bit))
    omega

lemma wordLt_iff (a b : Word) : wordLt a b = true ↔ Word.value a < Word.value b := by
  rw [wordLt, decide_eq_true_iff, Digits.lt_iff_value_lt (by simp), Word.value, Word.value]

def MulmodFits (a b m : Word) : Prop :=
  wordIsZero m ∨ ∀ prod, wordMulFull a b = some prod →
    Digits.value prod < Word.value m ∨
      Word.value m ≤ 2 ^ 255 ∧ 2 ^ 256 ∣ Digits.value prod / Word.value m

lemma value_pos_of_not_zero {m : Word} (h : ¬ wordIsZero m = true) : 0 < Word.value m := by
  by_contra hzero
  refine h (List.all_eq_true.mpr fun b hb => ?_)
  have hall := Digits.value_eq_zero_iff.mp (Nat.eq_zero_of_not_pos hzero)
  exact beq_iff_eq.mpr (hall b hb)

lemma divideRound_spec {dividend : List UInt8} (hn : 8 * dividend.length = n) {m : Word}
    (hm : 0 < Word.value m) (hi : i < n) {acc : Word × Word}
    (hfit : 2 * (Digits.top (Digits.value dividend) n i % Word.value m) + Digits.digit
      (Digits.value dividend) n i < 2 ^ 256)
    (hplace : i < 256 ∨ 2 * (Digits.top (Digits.value dividend) n i % Word.value m) + Digits.digit
      (Digits.value dividend) n i < Word.value m)
    (hacc : Word.value acc.1 = Digits.top (Digits.value dividend) n i % Word.value m) :
    ∃ acc', divideRound dividend m acc i = some acc' ∧
      Word.value acc'.1 = Digits.top (Digits.value dividend) n (i + 1) % Word.value m ∧
      (acc'.2 = acc.2 ∧ Digits.top (Digits.value dividend) n (i + 1) / Word.value m =
          2 * (Digits.top (Digits.value dividend) n i / Word.value m) ∨
        ∃ h : i / 8 < 32,
          acc'.2 = acc.2.set (i / 8) (acc.2[i / 8] ||| (1 <<< UInt8.ofNat (7 - i % 8))) ∧
          Digits.top (Digits.value dividend) n (i + 1) / Word.value m =
            2 * (Digits.top (Digits.value dividend) n i / Word.value m) + 1) := by
  obtain ⟨rem, hrem, hval⟩ := exists_bringIn dividend acc.1 (show i / 8 < dividend.length by omega)
  rw [hn, hacc, Nat.mod_eq_of_lt hfit] at hval
  unfold divideRound
  simp only [hrem, bind_eq_bind, bind_some]
  split
  · rename_i hlt
    rw [wordLt_iff, hval] at hlt
    obtain ⟨hmod, hdiv⟩ := Digits.top_succ_of_lt hi hlt
    exact ⟨_, rfl, by rw [hmod, hval], .inl ⟨rfl, hdiv⟩⟩
  · rename_i hge
    rw [wordLt_iff, not_lt] at hge
    obtain ⟨w, hw, hwval⟩ := wordSub_of_le hge
    rw [hval] at hge hwval
    have hi256 : i < 256 := hplace.resolve_right (by omega)
    have hbyte : i / 8 < 32 := by omega
    obtain ⟨hmod, hdiv⟩ := Digits.top_succ_of_le hi hm hge
    refine ⟨(w, acc.2.set (i / 8) (acc.2[i / 8] ||| (1 <<< UInt8.ofNat (7 - i % 8)))), ?_,
      by rw [hmod, hwval], .inr ⟨hbyte, rfl, hdiv⟩⟩
    rw [hw, Vector.getElem?_eq_getElem hbyte]
    simp only [bind_some, Checked.set_of_lt hbyte]
    rfl

/-! ### The other operations -/

lemma mapM_ne_none {l : List ℕ} (h : ∀ i ∈ l, f i ≠ none) :
    ∃ bytes, l.mapM f = some bytes ∧ bytes.length = l.length := by
  induction l with
  | nil => exact ⟨[], rfl, rfl⟩
  | cons i l ih =>
    obtain ⟨b, hb⟩ := ne_none_iff_exists'.mp (h i List.mem_cons_self)
    obtain ⟨bytes, hbytes, hlen⟩ := ih fun j hj => h j (List.mem_cons_of_mem i hj)
    exact ⟨b :: bytes, by simp [List.mapM_cons, hb, hbytes], by simp [hlen]⟩

lemma wordOfFn_ne_none (h : ∀ i < 32, f i ≠ none) : wordOfFn f ≠ none := by
  obtain ⟨bytes, hbytes, hlen⟩ := mapM_ne_none (l := List.range 32) (f := f) fun i hi =>
    h i (List.mem_range.mp hi)
  obtain ⟨w, hw, -⟩ := wordOf_of_length (hlen.trans (List.length_range))
  rw [wordOfFn, hbytes]
  simp [hw]

lemma get_ne_none (a : Word) (h : i < 32) : a[i]? ≠ none := by
  obtain ⟨b, hb⟩ := exists_get a h
  rw [hb]
  exact some_ne_none b

lemma wordZip_ne_none (f : UInt8 → UInt8 → UInt8) (a b : Word) : wordZip f a b ≠ none := by
  refine wordOfFn_ne_none fun i hi => ?_
  refine Checked.bind_ne_none (get_ne_none a hi) fun x _ => ?_
  exact Checked.bind_ne_none (get_ne_none b hi) fun y _ => some_ne_none _

lemma wordNot_ne_none (a : Word) : wordNot a ≠ none :=
  wordOfFn_ne_none fun _ hi =>
    Checked.bind_ne_none (get_ne_none a hi) fun _ _ => some_ne_none _

end Iona.Vm
