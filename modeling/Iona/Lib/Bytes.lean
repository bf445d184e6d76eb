import Mathlib

/-! # Byte strings -/

namespace Bytes

open List

/-- The `n` low bytes of a number, least significant first. -/
def le : ℕ → ℕ → List UInt8
  | 0, _ => []
  | n + 1, v => UInt8.ofNat v :: le n (v / 256)

@[simp] lemma le_zero (v : ℕ) : le 0 v = [] := rfl

lemma le_succ (n v : ℕ) : le (n + 1) v = UInt8.ofNat v :: le n (v / 256) := rfl

@[simp] lemma length_le (n v : ℕ) : (le n v).length = n := by
  induction n generalizing v with
  | zero => rfl
  | succ n ih => rw [le_succ, length_cons, ih]

lemma ofNat_inj_mod {a b : ℕ} (h : UInt8.ofNat a = UInt8.ofNat b) : a % 256 = b % 256 := by
  have := congrArg UInt8.toNat h
  simpa using this

lemma le_inj {n v w : ℕ} (hv : v < 256 ^ n) (hw : w < 256 ^ n) (h : le n v = le n w) :
    v = w := by
  induction n generalizing v w with
  | zero => omega
  | succ n ih =>
    rw [le_succ, le_succ, List.cons.injEq] at h
    have hmod := ofNat_inj_mod h.1
    have hdiv : v / 256 = w / 256 := by
      refine ih ?_ ?_ h.2
      · exact Nat.div_lt_of_lt_mul (by rw [pow_succ] at hv; omega)
      · exact Nat.div_lt_of_lt_mul (by rw [pow_succ] at hw; omega)
    omega

lemma framed_inj {n : ℕ} {xs ys a b : List UInt8} (hx : xs.length < 256 ^ n)
    (hy : ys.length < 256 ^ n) (h : le n xs.length ++ (xs ++ a) = le n ys.length ++ (ys ++ b)) :
    xs = ys ∧ a = b := by
  obtain ⟨hlen, hrest⟩ := append_inj h (by simp)
  exact append_inj hrest (le_inj hx hy hlen)

/-- `to_le_bytes` of a `u64`. -/
def ofU64 (v : UInt64) : List UInt8 := le 8 v.toNat

/-- `to_le_bytes` of a `u32`. -/
def ofU32 (v : UInt32) : List UInt8 := le 4 v.toNat

@[simp] lemma length_ofU64 (v : UInt64) : (ofU64 v).length = 8 := length_le _ _

@[simp] lemma length_ofU32 (v : UInt32) : (ofU32 v).length = 4 := length_le _ _

lemma ofU64_injective : Function.Injective ofU64 := fun v w h =>
  UInt64.toNat_inj.mp (le_inj v.toNat_lt w.toNat_lt h)

lemma ofU32_injective : Function.Injective ofU32 := fun v w h =>
  UInt32.toNat_inj.mp (le_inj v.toNat_lt w.toNat_lt h)

/-- The bytes of a text. -/
def utf8 (s : String) : List UInt8 := s.toUTF8.data.toList

lemma utf8_injective : Function.Injective utf8 := by
  intro s t h
  refine String.toByteArray_inj.mp (ByteArray.ext ?_)
  exact Array.toList_inj.mp h

lemma utf8_ofList (cs : List Char) : utf8 (String.ofList cs) = cs.flatMap String.utf8EncodeChar := by
  unfold utf8
  rw [String.toUTF8, String.toByteArray_ofList, utf8Encode]
  simp

/-- The lower-case digit of a number below 16. -/
def hexDigit (n : ℕ) : Char := if n < 10 then Char.ofNat (48 + n) else Char.ofNat (87 + n)

/-- `hex::encode`. -/
def hexEncode (bytes : List UInt8) : String :=
  String.ofList (bytes.flatMap fun b => [hexDigit (b.toNat / 16), hexDigit (b.toNat % 16)])

lemma hexDigit_inj {m n : ℕ} (hm : m < 16) (hn : n < 16) (h : hexDigit m = hexDigit n) :
    m = n := by
  have hall : ∀ i < 16, ∀ j < 16, hexDigit i = hexDigit j → i = j := by decide
  exact hall m hm n hn h

lemma hexEncode_injective : Function.Injective hexEncode := by
  intro l l' h
  have h := String.ofList_inj.mp h
  induction l generalizing l' with
  | nil =>
    cases l' with
    | nil => rfl
    | cons b l' => simp at h
  | cons b l ih =>
    cases l' with
    | nil => simp at h
    | cons b' l' =>
      simp only [flatMap_cons, cons_append, nil_append, List.cons.injEq] at h
      obtain ⟨hhi, hlo, htail⟩ := h
      have hhi := hexDigit_inj (by have := b.toNat_lt; omega) (by have := b'.toNat_lt; omega) hhi
      have hlo := hexDigit_inj (Nat.mod_lt _ (by decide)) (Nat.mod_lt _ (by decide)) hlo
      have hb : b = b' := UInt8.toNat_inj.mp (by omega)
      rw [hb, ih (congrArg String.ofList htail) htail]

/-- The value of a digit of either case. -/
def hexValue (c : Char) : Option ℕ :=
  if '0' ≤ c ∧ c ≤ '9' then some (c.toNat - 48)
  else if 'a' ≤ c ∧ c ≤ 'f' then some (c.toNat - 87)
  else if 'A' ≤ c ∧ c ≤ 'F' then some (c.toNat - 55)
  else none

/-- Two digits to the byte; none if one is left over or is no digit. -/
def hexDecodeChars : List Char → Option (List UInt8)
  | [] => some []
  | [_] => none
  | hi :: lo :: cs => do
    let hi ← hexValue hi
    let lo ← hexValue lo
    let rest ← hexDecodeChars cs
    return UInt8.ofNat (hi * 16 + lo) :: rest

/-- `hex::decode`. -/
def hexDecode (s : String) : Option (List UInt8) := hexDecodeChars s.toList

lemma hexValue_hexDigit {n : ℕ} (h : n < 16) : hexValue (hexDigit n) = some n := by
  have hall : ∀ i < 16, hexValue (hexDigit i) = some i := by decide
  exact hall n h

@[simp] lemma hexDecode_hexEncode (bytes : List UInt8) :
    hexDecode (hexEncode bytes) = some bytes := by
  rw [hexDecode, hexEncode, String.toList_ofList]
  induction bytes with
  | nil => rfl
  | cons b bytes ih =>
    have hb := b.toNat_lt
    rw [flatMap_cons, cons_append, cons_append, nil_append, hexDecodeChars,
      hexValue_hexDigit (by omega), hexValue_hexDigit (by omega), ih]
    simp only [Option.bind_eq_bind, Option.bind_some, Nat.div_add_mod']
    rw [UInt8.ofNat_toNat]
    rfl

/-! ### Hexadecimal text in either case -/

/-- One letter in lower case. -/
def lowerChar (c : Char) : Char := if 'A' ≤ c ∧ c ≤ 'Z' then Char.ofNat (c.toNat + 32) else c

/-- `to_ascii_lowercase`. -/
def lowercase (s : String) : String := String.ofList (s.toList.map lowerChar)

lemma length_hexEncode (bytes : List UInt8) : (hexEncode bytes).length = 2 * bytes.length := by
  rw [hexEncode, String.length_ofList, length_flatMap]
  simp [mul_comm]

end Bytes
