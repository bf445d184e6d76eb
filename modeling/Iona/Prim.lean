import Iona.Lib.Bytes

/-! # Primitive types -/

namespace Iona

instance ordPair {α β : Type*} [Ord α] [Ord β] : Ord (α × β) := lexOrd

instance transOrdPair {α β : Type*} [Ord α] [Ord β] [Std.TransOrd α] [Std.TransOrd β] :
    Std.TransOrd (α × β) :=
  inferInstanceAs (Std.TransCmp (compareLex (compareOn Prod.fst) (compareOn Prod.snd)))

instance lawfulEqOrdPair {α β : Type*} [Ord α] [Ord β] [Std.LawfulEqOrd α] [Std.LawfulEqOrd β] :
    Std.LawfulEqOrd (α × β) where
  compare_self := by
    intro a
    change (compare a.1 a.1).then (compare a.2 a.2) = .eq
    simp
  eq_of_compare {a b} h := by
    obtain ⟨h₁, h₂⟩ := Ordering.then_eq_eq.mp h
    exact Prod.ext (Std.LawfulEqOrd.eq_of_compare h₁) (Std.LawfulEqOrd.eq_of_compare h₂)

abbrev BTreeMap (κ ν : Type) [Ord κ] := Std.ExtTreeMap κ ν compare

abbrev Hash32 := Vector UInt8 32

instance transOrdHash32 : Std.TransOrd Hash32 := inferInstance

instance transOrdBlockId : Std.TransOrd (Option Hash32) := inferInstance

abbrev PublicKeyBytes := List UInt8

abbrev SignatureBytes := List UInt8

structure Crypto where
  sha256 : List UInt8 → Hash32
  blake3 : List UInt8 → Hash32
  sipHash : List UInt8 → UInt64
  verify : PublicKeyBytes → List UInt8 → SignatureBytes → Bool
  jsonTuple : String → UInt64 → PublicKeyBytes → UInt64 → UInt64 → UInt64 → UInt64 → String →
    List UInt8

def Hash32.ofNat (n : ℕ) : Hash32 := ⟨(Bytes.le 32 n).toArray, by simp⟩

def checksum (bytes : List UInt8) : ℕ :=
  bytes.foldl (fun acc b => (acc * 257 + b.toNat + 1) % 2 ^ 256) 0

def Crypto.demo : Crypto where
  sha256 bytes := .ofNat (checksum bytes)
  blake3 bytes := .ofNat (checksum bytes)
  sipHash bytes := .ofNat (checksum bytes)
  verify pk msg sig := sig == pk ++ msg
  jsonTuple version chainId pubkey nonce maxFee maxTip gasLimit payload :=
    Bytes.utf8 version ++ Bytes.ofU64 chainId ++ pubkey ++ Bytes.ofU64 nonce ++ Bytes.ofU64 maxFee ++
      Bytes.ofU64 maxTip ++ Bytes.ofU64 gasLimit ++ Bytes.utf8 payload

end Iona
