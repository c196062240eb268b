import Mathlib.Algebra.Order.Field.Basic
import Mathlib.Algebra.Order.Floor.Semiring
import Mathlib.Algebra.Ring.Nat
import Mathlib.Order.Monotone.Basic
import Mathlib.Tactic.Ring

/-!
# Linear interpolation of a sequence

`interpolate s p` is on the line from `s i` to `s (i + 1)` for a `p` between `i` and `i + 1`. Where `s`
is monotone it is between the two (`le_interpolate`, `interpolate_le`), so a larger `p` gives no less:
within an interval the line rises, and from one interval to a later one the ends are in order
(`interpolate_le_interpolate`).
-/

section Interpolation

variable {K : Type*} [Field K] [LinearOrder K] [FloorSemiring K]

def interpolate (s : ℕ → K) (p : K) : K :=
  s ⌊p⌋₊ * (1 - (p - ⌊p⌋₊)) + s (⌊p⌋₊ + 1) * (p - ⌊p⌋₊)

variable [IsStrictOrderedRing K] {s : ℕ → K} {p q : K}

omit [IsStrictOrderedRing K] in
theorem interpolate_eq (s : ℕ → K) (p : K) :
    interpolate s p = s ⌊p⌋₊ + (s (⌊p⌋₊ + 1) - s ⌊p⌋₊) * (p - ⌊p⌋₊) := by
  rw [interpolate]
  ring

theorem interpolate_natCast (s : ℕ → K) (k : ℕ) : interpolate s k = s k := by
  rw [interpolate, Nat.floor_natCast]
  ring

omit [IsStrictOrderedRing K] in
theorem interpolate_of_eq (h : s (⌊p⌋₊ + 1) = s ⌊p⌋₊) : interpolate s p = s ⌊p⌋₊ := by
  rw [interpolate_eq, h]
  ring

theorem le_interpolate (hs : Monotone s) (hp : 0 ≤ p) : s ⌊p⌋₊ ≤ interpolate s p := by
  have hstep : 0 ≤ s (⌊p⌋₊ + 1) - s ⌊p⌋₊ := sub_nonneg.mpr (hs (Nat.le_succ _))
  rw [interpolate_eq]
  exact le_add_of_nonneg_right (mul_nonneg hstep (sub_nonneg.mpr (Nat.floor_le hp)))

theorem interpolate_le (hs : Monotone s) : interpolate s p ≤ s (⌊p⌋₊ + 1) := by
  have hstep : 0 ≤ s (⌊p⌋₊ + 1) - s ⌊p⌋₊ := sub_nonneg.mpr (hs (Nat.le_succ _))
  have hpart : p - ⌊p⌋₊ ≤ 1 := sub_le_iff_le_add'.mpr (Nat.lt_floor_add_one p).le
  calc interpolate s p = s ⌊p⌋₊ + (s (⌊p⌋₊ + 1) - s ⌊p⌋₊) * (p - ⌊p⌋₊) := interpolate_eq s p
    _ ≤ s ⌊p⌋₊ + (s (⌊p⌋₊ + 1) - s ⌊p⌋₊) :=
      add_le_add_right (mul_le_of_le_one_right hstep hpart) _
    _ = s (⌊p⌋₊ + 1) := add_sub_cancel _ _

theorem interpolate_le_interpolate (hs : Monotone s) (hp : 0 ≤ p) (hpq : p ≤ q) :
    interpolate s p ≤ interpolate s q := by
  rcases (Nat.floor_mono hpq).eq_or_lt with heq | hlt
  · have hstep : 0 ≤ s (⌊q⌋₊ + 1) - s ⌊q⌋₊ := sub_nonneg.mpr (hs (Nat.le_succ _))
    rw [interpolate_eq, interpolate_eq, heq]
    exact add_le_add_right (mul_le_mul_of_nonneg_left (sub_le_sub_right hpq _) hstep) _
  · calc interpolate s p ≤ s (⌊p⌋₊ + 1) := interpolate_le hs
      _ ≤ s ⌊q⌋₊ := hs hlt
      _ ≤ interpolate s q := le_interpolate hs (hp.trans hpq)

end Interpolation
