import Mathlib

/-! # Floating-point arithmetic as a parameter -/

/-- The operations of `f64` that the source uses. Nothing is assumed of them. -/
class F64 (F : Type) extends Mul F, Div F, Sub F, Neg F, Max F, Min F where
  lit : ℚ → F
  lt : F → F → Bool
  ofNat : ℕ → F
  toU64 : F → UInt64
  exp : F → F
  ln : F → F
  sqrt : F → F

namespace F64

/-- `f64::clamp`. -/
def clamp {F : Type} [F64 F] (x lo hi : F) : F :=
  if lt x lo then lo else if lt hi x then hi else x

instance exact : F64 ℚ where
  lit q := q
  lt a b := decide (a < b)
  ofNat n := n
  toU64 q := .ofNat (min q.floor.toNat (2 ^ 64 - 1))
  exp q := q + 1
  ln q := q - 1
  sqrt q := q

end F64
