import Iona.Execution.State
import Iona.Lib.Act
import Iona.Lib.Digits

/-!
# The word arithmetic of the interpreter

The 256-bit words of `vm/interpreter.rs`.
-/

namespace Iona.Vm

def zero : Word := Vector.replicate 32 0

def wordOf (bytes : List UInt8) : Option Word :=
  if h : bytes.length = 32 then some ⟨bytes.toArray, h⟩ else none

def wordIsZero (w : Word) : Bool := w.toList.all (· == 0)

def wordIsNegative (w : Word) : Bool := w[0] &&& 0x80 != 0

def wordFitsU64 (w : Word) : Bool := (w.toList.take 24).all (· == 0)

def wordToU64Unchecked (w : Word) : ℕ := Digits.value (w.toList.drop 24)

def wordFromU64 (v : ℕ) : Word :=
  ⟨(List.replicate 24 0 ++ (Bytes.le 8 v).reverse).toArray, by simp⟩

def wordFromBool (v : Bool) : Word := wordFromU64 v.toNat

def wordToAddress20 (w : Word) : List UInt8 := w.toList.drop 12

def wordFromAddress20 (address : List UInt8) : Option Word := wordOf (List.replicate 12 0 ++ address)

def wordLt (a b : Word) : Bool := decide (a.toList < b.toList)

/-! ### Addition and subtraction -/

def addRound (a b : Word) (i carry : ℕ) : Option (UInt8 × ℕ) := do
  let sum ← Checked.fit 16 ((← a[i]?).toNat + (← b[i]?).toNat + carry)
  pure (UInt8.ofNat sum, sum / 256)

def wordAddWithCarry (a b : Word) : Option (Word × Bool) := do
  let (result, carry) ← Digits.down (addRound a b) 32 0 []
  pure (← wordOf result, carry != 0)

def wordAdd (a b : Word) : Option Word := do
  let (result, _) ← Digits.down (addRound a b) 32 0 []
  wordOf result

def subRound (a b : Word) (i borrow : ℕ) : Option (UInt8 × ℕ) := do
  let diff : ℤ := (← a[i]?).toNat - (← b[i]?).toNat - borrow
  if -2 ^ 15 ≤ diff ∧ diff < 2 ^ 15 then
    pure (UInt8.ofNat (diff % 256).toNat, if diff < 0 then 1 else 0)
  else none

def wordSub (a b : Word) : Option Word := do
  let (result, _) ← Digits.down (subRound a b) 32 0 []
  wordOf result

def negRound (a : Word) (i carry : ℕ) : Option (UInt8 × ℕ) := do
  let comp ← Checked.fit 16 ((~~~(← a[i]?)).toNat + carry)
  pure (UInt8.ofNat comp, comp / 256)

def wordNeg (a : Word) : Option Word := do
  let (result, _) ← Digits.down (negRound a) 32 1 []
  wordOf result

/-! ### Multiplication -/

def bytesToU64Le (w : Word) : Vector UInt64 4 :=
  Vector.ofFn fun i => UInt64.ofNat (Digits.value ((w.toList.drop (8 * i.val)).take 8))

def u64LeToBytes (limbs : Vector UInt64 4) : Option Word :=
  wordOf (limbs.toList.flatMap fun limb => (Bytes.ofU64 limb).reverse)

def mulRound {n : ℕ} (x y : UInt64) (k : ℕ) (acc : Vector UInt64 n × ℕ) :
    Option (Vector UInt64 n × ℕ) := do
  let prod ← Checked.fit 128 (x.toNat * y.toNat + (← acc.1[k]?).toNat + acc.2)
  pure (← Checked.set acc.1 k (UInt64.ofNat prod), prod / 2 ^ 64)

def mulRow {n : ℕ} (a b : Vector UInt64 4) (i width : ℕ) (result : Vector UInt64 n) :
    Option (Vector UInt64 n × ℕ) :=
  (List.range width).foldlM (fun acc j => do mulRound (← a[i]?) (← b[j]?) (i + j) acc) (result, 0)

def mulLow (a b result : Vector UInt64 4) (i : ℕ) : Option (Vector UInt64 4) := do
  let (result, _) ← mulRow a b i (4 - i) result
  pure result

def wordMul (a b : Word) : Option Word := do
  let result ← (List.range 4).foldlM (mulLow (bytesToU64Le a) (bytesToU64Le b))
    (Vector.replicate 4 0)
  u64LeToBytes result

def carryUp (acc : Vector UInt64 8 × ℕ) (k : ℕ) : Option (Vector UInt64 8 × ℕ) :=
  if acc.2 = 0 then some acc
  else do
    let sum ← Checked.fit 128 ((← acc.1[k]?).toNat + acc.2)
    pure (← Checked.set acc.1 k (UInt64.ofNat sum), sum / 2 ^ 64)

def mulFullRow (a b : Vector UInt64 4) (result : Vector UInt64 8) (i : ℕ) :
    Option (Vector UInt64 8) := do
  let acc ← mulRow a b i 4 result
  let (result, _) ← (List.range' (i + 4) (4 - i)).foldlM carryUp acc
  pure result

def wordMulFull (a b : Word) : Option (List UInt8) := do
  let result ← (List.range 4).foldlM (mulFullRow (bytesToU64Le a) (bytesToU64Le b))
    (Vector.replicate 8 0)
  pure (result.toList.reverse.flatMap Bytes.ofU64)

/-! ### Division -/

def shlRound (rem : Word) (j carry : ℕ) : Option (UInt8 × ℕ) := do
  let byte ← rem[j]?
  pure ((byte <<< 1) ||| UInt8.ofNat carry, (byte >>> 7).toNat)

def bringIn (dividend : List UInt8) (rem : Word) (i : ℕ) : Option Word := do
  let (shifted, _) ← Digits.down (shlRound rem) 32 0 []
  let rem ← wordOf shifted
  let bit := ((← dividend[i / 8]?) >>> UInt8.ofNat (7 - i % 8)) &&& 1
  Checked.set rem 31 ((← rem[31]?) ||| bit)

def divideRound (dividend : List UInt8) (divisor : Word) (acc : Word × Word) (i : ℕ) :
    Option (Word × Word) := do
  let (rem, quo) := acc
  let rem ← bringIn dividend rem i
  if wordLt rem divisor then pure (rem, quo)
  else do
    let rem ← wordSub rem divisor
    let byte ← quo[i / 8]?
    let quo ← Checked.set quo (i / 8) (byte ||| (1 <<< UInt8.ofNat (7 - i % 8)))
    pure (rem, quo)

def longDivide (a b : Word) : Option (Word × Word) := do
  let (rem, quo) ← (List.range 256).foldlM (divideRound a.toList b) (zero, zero)
  pure (quo, rem)

def longDivide512By256 (prod : List UInt8) (m : Word) : Option Word := do
  let (rem, _) ← (List.range 512).foldlM (divideRound prod m) (zero, zero)
  pure rem

def wordDiv (a b : Word) : Option Word :=
  if wordIsZero b then some zero else do pure (← longDivide a b).1

def wordMod (a b : Word) : Option Word :=
  if wordIsZero b then some zero else do pure (← longDivide a b).2

def wordAbs (a : Word) : Option Word := if wordIsNegative a then wordNeg a else some a

def wordSdiv (a b : Word) : Option Word :=
  if wordIsZero b then some zero
  else do
    let aAbs ← wordAbs a
    let bAbs ← wordAbs b
    if wordIsNegative a && !wordIsNegative b && aAbs == bAbs then pure a
    else do
      let q ← wordDiv aAbs bAbs
      if wordIsNegative a ^^ wordIsNegative b then wordNeg q else pure q

def wordSmod (a b : Word) : Option Word :=
  if wordIsZero b then some zero
  else do
    let r ← wordMod (← wordAbs a) (← wordAbs b)
    if wordIsNegative a && !wordIsZero r then wordNeg r else pure r

def wordAddmod (a b m : Word) : Option Word :=
  if wordIsZero m then some zero
  else do
    let (sum, carry) ← wordAddWithCarry a b
    if carry then do
      let (s, c) ← wordAddWithCarry (← wordMod a m) (← wordMod b m)
      if c then wordSub s m
      else if wordLt s m then pure s else wordSub s m
    else if wordLt sum m then pure sum
    else wordSub sum m

def wordMulmod (a b m : Word) : Option Word :=
  if wordIsZero m then some zero
  else do longDivide512By256 (← wordMulFull a b) m

/-! ### The other operations -/

def wordBelow (w : Word) (bound : ℕ) : Option ℕ :=
  if wordFitsU64 w ∧ wordToU64Unchecked w < bound then some (wordToU64Unchecked w) else none

def wordOfFn (f : ℕ → Option UInt8) : Option Word := do wordOf (← (List.range 32).mapM f)

def wordSignextend (a b : Word) : Option Word :=
  match wordBelow a 32 with
  | none => some b
  | some byteIdx => do
    let signBit := ((← b[31 - byteIdx]?) >>> 7) &&& 1
    let fill : UInt8 := if signBit == 1 then 0xFF else 0
    wordOfFn fun i => if i < 31 - byteIdx then some fill else b[i]?

def expLoop : ℕ → Word → Word → ℕ → Option Word
  | 0, result, _, _ => some result
  | rounds + 1, result, base, e =>
    if e = 0 then some result
    else do
      let result ← (if e % 2 = 1 then wordMul result base else some result)
      expLoop rounds result (← wordMul base base) (e / 2)

def wordExp (base exp : Word) : Option Word :=
  if wordIsZero exp then some (wordFromU64 1)
  else expLoop 64 (wordFromU64 1) base (wordToU64Unchecked exp)

def expByteLen (exp : Word) : ℕ :=
  match exp.toList.findIdx? (· != 0) with
  | some i => 32 - i
  | none => 0

def shiftAmount (amount : ℕ) : Option UInt8 := if amount < 8 then some (UInt8.ofNat amount) else none

def guardedByte (p : Prop) [Decidable p] (byte : Option UInt8) (otherwise : UInt8) : Option UInt8 :=
  if p then byte else some otherwise

def joinBytes (bitShift : ℕ) (whole : UInt8) (join : UInt8 → UInt8 → UInt8) : Option UInt8 :=
  if bitShift = 0 then some whole
  else do pure (join (← shiftAmount bitShift) (← shiftAmount (8 - bitShift)))

def wordShl (shift val : Word) : Option Word :=
  match wordBelow shift 256 with
  | none => some zero
  | some 0 => some val
  | some s =>
    let byteShift := s / 8
    let bitShift := s % 8
    wordOfFn fun i => do
      let hi ← guardedByte (i + byteShift < 32) val[i + byteShift]? 0
      let lo ← guardedByte (0 < bitShift ∧ i + byteShift + 1 < 32) val[i + byteShift + 1]? 0
      joinBytes bitShift hi fun left right => (hi <<< left) ||| (lo >>> right)

def wordShr (shift val : Word) : Option Word :=
  match wordBelow shift 256 with
  | none => some zero
  | some 0 => some val
  | some s =>
    let byteShift := s / 8
    let bitShift := s % 8
    wordOfFn fun i => do
      let lo ← guardedByte (byteShift ≤ i) val[i - byteShift]? 0
      let hi ← guardedByte (0 < bitShift ∧ byteShift + 1 ≤ i) val[i - byteShift - 1]? 0
      joinBytes bitShift lo fun right left => (lo >>> right) ||| (hi <<< left)

def signFill (val : Word) : UInt8 := if wordIsNegative val then 0xFF else 0

def wordSar (shift val : Word) : Option Word :=
  match wordBelow shift 256 with
  | none => some (Vector.replicate 32 (signFill val))
  | some 0 => some val
  | some s =>
    let byteShift := s / 8
    let bitShift := s % 8
    wordOfFn fun i =>
      if i < byteShift then some (signFill val)
      else do
        let lo ← val[i - byteShift]?
        let hi ← guardedByte (0 < bitShift ∧ byteShift < i) val[i - byteShift - 1]?
          (if 0 < bitShift then signFill val else 0)
        joinBytes bitShift lo fun right left => (lo >>> right) ||| (hi <<< left)

def wordZip (f : UInt8 → UInt8 → UInt8) (a b : Word) : Option Word :=
  wordOfFn fun i => do pure (f (← a[i]?) (← b[i]?))

def wordNot (a : Word) : Option Word := wordOfFn fun i => do pure (~~~(← a[i]?))

def wordByte (idx val : Word) : Option Word :=
  match wordBelow idx 32 with
  | none => some zero
  | some i => do wordOf (List.replicate 31 0 ++ [← val[i]?])

end Iona.Vm
