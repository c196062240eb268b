import Mathlib.Algebra.Ring.Nat
import Mathlib.Data.List.Basic

/-!
# Big-endian numbers

A number as bytes, the most significant first, and back.
-/

namespace BigEndian

/-- The last `w` bytes of `v`. -/
def encode : ℕ → ℕ → List UInt8
  | 0, _ => []
  | w + 1, v => encode w (v / 256) ++ [UInt8.ofNat (v % 256)]

def decode (b : List UInt8) : ℕ := b.foldl (fun v x => v * 256 + x.toNat) 0

@[simp]
theorem length_encode : ∀ w v : ℕ, (encode w v).length = w
  | 0, _ => rfl
  | w + 1, v => by simp [encode, length_encode w]

theorem decode_append (b : List UInt8) (x : UInt8) : decode (b ++ [x]) = decode b * 256 + x.toNat := by
  simp [decode]

theorem decode_encode : ∀ {w v : ℕ}, v < 256 ^ w → decode (encode w v) = v
  | 0, v, h => by
    have : v = 0 := by omega
    rw [this]
    rfl
  | w + 1, v, h => by
    have hdiv : v / 256 < 256 ^ w := by
      rw [Nat.div_lt_iff_lt_mul (by omega), ← Nat.pow_succ]
      exact h
    rw [encode, decode_append, decode_encode hdiv, UInt8.toNat_ofNat']
    omega

end BigEndian
