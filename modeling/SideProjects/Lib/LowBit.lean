import Mathlib.Data.Int.Bitwise
import Mathlib.Data.Nat.Bitwise
import Mathlib.NumberTheory.Padics.PadicVal.Basic

/-!
# The lowest set bit

`lowBit n` is the value of the lowest bit set in `n`, what `n & -n` gives in two's complement of any
width. A number `j` stands for the numbers from `j - lowBit j`, not included, to `j`. If `j` stands
for `i` and is not `i`, then it stands for `i + lowBit i` too, and the other way round
(`covers_iff`).
-/

/-- The value of the lowest set bit of a positive number. -/
def lowBit (n : ℕ) : ℕ := 2 ^ padicValNat 2 n

theorem lowBit_pos (n : ℕ) : 0 < lowBit n := Nat.two_pow_pos _

theorem lowBit_dvd (n : ℕ) : lowBit n ∣ n := pow_padicValNat_dvd

theorem lowBit_le {n : ℕ} (hn : 0 < n) : lowBit n ≤ n := Nat.le_of_dvd hn (lowBit_dvd n)

/-- A number is an odd multiple of its lowest set bit. -/
theorem exists_eq_lowBit_mul {n : ℕ} (hn : 0 < n) : ∃ m, n = lowBit n * (2 * m + 1) := by
  obtain ⟨q, hq⟩ := lowBit_dvd n
  rcases Nat.even_or_odd' q with ⟨m, rfl | rfl⟩
  · refine absurd ?_ (pow_succ_padicValNat_not_dvd (p := 2) hn.ne')
    exact ⟨m, hq.trans (by rw [lowBit, pow_succ, mul_assoc])⟩
  · exact ⟨m, hq⟩

theorem two_mul_lowBit_dvd_add {n : ℕ} (hn : 0 < n) : 2 * lowBit n ∣ n + lowBit n := by
  obtain ⟨m, hm⟩ := exists_eq_lowBit_mul hn
  refine ⟨m + 1, ?_⟩
  calc n + lowBit n = lowBit n * (2 * m + 1) + lowBit n := by rw [← hm]
    _ = 2 * lowBit n * (m + 1) := by ring

theorem two_mul_lowBit_dvd_sub {n : ℕ} (hn : 0 < n) : 2 * lowBit n ∣ n - lowBit n := by
  obtain ⟨m, hm⟩ := exists_eq_lowBit_mul hn
  refine ⟨m, ?_⟩
  rw [Nat.sub_eq_iff_eq_add (lowBit_le hn)]
  calc n = lowBit n * (2 * m + 1) := hm
    _ = 2 * lowBit n * m + lowBit n := by ring

theorem add_le_of_dvd {d x y : ℕ} (hx : d ∣ x) (hy : d ∣ y) (h : x < y) : x + d ≤ y := by
  have := Nat.le_of_dvd (Nat.sub_pos_of_lt h) (Nat.dvd_sub hy hx)
  omega

/-- Of two lowest set bits the smaller one divides the other. -/
theorem lowBit_dvd_lowBit {i j : ℕ} (h : lowBit i ≤ lowBit j) : lowBit i ∣ lowBit j :=
  pow_dvd_pow 2 ((Nat.pow_le_pow_iff_right (by decide)).mp h)

theorem covers_iff {i j : ℕ} (hi : 0 < i) (hj : 0 < j) :
    i ∈ Set.Ioc (j - lowBit j) j ↔ j = i ∨ i + lowBit i ∈ Set.Ioc (j - lowBit j) j := by
  have hle := lowBit_le hj
  have hposi := lowBit_pos i
  have hposj := lowBit_pos j
  simp only [Set.mem_Ioc]
  constructor
  · rintro ⟨hlow, hhigh⟩
    rcases Nat.eq_or_lt_of_le hhigh with rfl | hlt
    · exact .inl rfl
    -- multiples of the lowest bit of `j` are too far apart for `i` to be one
    have hbits : lowBit i ≤ lowBit j := by
      by_contra hgt
      have hdvd : lowBit j ∣ i := (lowBit_dvd_lowBit (Nat.le_of_not_le hgt)).trans (lowBit_dvd i)
      have := add_le_of_dvd (Nat.dvd_sub (lowBit_dvd j) (dvd_refl _)) hdvd hlow
      omega
    have := add_le_of_dvd (lowBit_dvd i) ((lowBit_dvd_lowBit hbits).trans (lowBit_dvd j)) hlt
    exact .inr ⟨by omega, this⟩
  · rintro (rfl | ⟨hlow, hhigh⟩)
    · exact ⟨by omega, Nat.le_refl _⟩
    refine ⟨?_, by omega⟩
    rcases Nat.le_total (lowBit i) (lowBit j) with hbits | hbits
    · have hdvd : 2 * lowBit i ∣ j - lowBit j :=
        (Nat.mul_dvd_mul_left 2 (lowBit_dvd_lowBit hbits)).trans (two_mul_lowBit_dvd_sub hj)
      have := add_le_of_dvd hdvd (two_mul_lowBit_dvd_add hi) hlow
      omega
    · have hdvd : 2 * lowBit j ∣ i + lowBit i :=
        (Nat.mul_dvd_mul_left 2 (lowBit_dvd_lowBit hbits)).trans (two_mul_lowBit_dvd_add hi)
      have := add_le_of_dvd (two_mul_lowBit_dvd_sub hj) hdvd hlow
      omega

theorem lowBit_dvd_two_pow {i w : ℕ} (hi : 0 < i) (h : i < 2 ^ w) : lowBit i ∣ 2 ^ w := by
  have hlt : 2 ^ padicValNat 2 i < 2 ^ w := (lowBit_le hi).trans_lt h
  exact pow_dvd_pow 2 ((Nat.pow_lt_pow_iff_right (by decide)).mp hlt).le

/-- Adding the lowest set bit does not go past a power of two. -/
theorem add_lowBit_le {i w : ℕ} (hi : 0 < i) (h : i < 2 ^ w) : i + lowBit i ≤ 2 ^ w :=
  add_le_of_dvd (lowBit_dvd i) (lowBit_dvd_two_pow hi h) h

/-- Below `2 ^ w - 2 ^ k`, adding the lowest set bit does not go past that, or it ends at `2 ^ w`. -/
theorem add_lowBit_cases {i w k : ℕ} (hi : 0 < i) (hk : k < w) (h : i ≤ 2 ^ w - 2 ^ k) :
    i + lowBit i ≤ 2 ^ w - 2 ^ k ∨ i + lowBit i = 2 ^ w := by
  have hpow : 2 ^ k < 2 ^ w := Nat.pow_lt_pow_right (by decide) hk
  have hkpos := Nat.two_pow_pos k
  have hlt : i < 2 ^ w := by omega
  have hle := add_lowBit_le hi hlt
  rcases Nat.lt_or_ge (2 ^ k) (lowBit i) with hgt | hbits
  · rcases Nat.eq_or_lt_of_le hle with heq | hbelow
    · exact .inr heq
    · have hdvd := lowBit_dvd_two_pow hi hlt
      have := add_le_of_dvd ((lowBit_dvd i).add (dvd_refl _)) hdvd hbelow
      omega
  · have hdvd : lowBit i ∣ 2 ^ k := pow_dvd_pow 2 ((Nat.pow_le_pow_iff_right (by decide)).mp hbits)
    have hdvd' : lowBit i ∣ 2 ^ w - 2 ^ k := Nat.dvd_sub (hdvd.trans (pow_dvd_pow 2 hk.le)) hdvd
    rcases Nat.eq_or_lt_of_le h with heq | hbelow
    · -- at the bound itself the lowest set bit is `2 ^ k`
      have hk' : 2 ^ k ∣ i := by
        rw [heq]
        exact Nat.dvd_sub (pow_dvd_pow 2 hk.le) (dvd_refl _)
      have := Nat.pow_le_pow_right (by decide : 0 < 2) ((padicValNat_dvd_iff_le hi.ne').mp hk')
      have hsame : lowBit i = 2 ^ k := le_antisymm hbits this
      right
      omega
    · exact .inl (add_le_of_dvd (lowBit_dvd i) hdvd' hbelow)

/-! ## Two's complement -/

/-- Subtracting one changes the lowest set bit and those below it. -/
theorem ldiff_pred {n : ℕ} (hn : 0 < n) : Nat.ldiff n (n - 1) = lowBit n := by
  obtain ⟨m, hm⟩ := exists_eq_lowBit_mul hn
  unfold lowBit at hm ⊢
  generalize padicValNat 2 n = a at hm ⊢
  have hpos := Nat.two_pow_pos a
  have hpred : n - 1 = 2 ^ a * (2 * m) + (2 ^ a - 1) := by
    rw [hm, Nat.mul_add]
    omega
  refine Nat.eq_of_testBit_eq fun j => ?_
  rw [Nat.testBit_ldiff, hpred, Nat.testBit_two_pow_mul_add _ (Nat.sub_lt hpos Nat.one_pos),
    show n = 2 ^ a * (2 * m + 1) + 0 from hm, Nat.testBit_two_pow_mul_add _ hpos, Nat.testBit_two_pow]
  split_ifs with hj
  · simp [Nat.ne_of_gt hj]
  · obtain ⟨s, rfl⟩ := Nat.exists_eq_add_of_le (Nat.le_of_not_lt hj)
    rw [Nat.add_sub_cancel_left]
    cases s with
    | zero => simp
    | succ s => simp [Nat.testBit_succ, Nat.mul_add_div]

theorem Int.land_neg {n : ℕ} (hn : 0 < n) : Int.land n (-n) = lowBit n := by
  obtain ⟨k, rfl⟩ := Nat.exists_eq_add_of_lt hn
  rw [← ldiff_pred hn]
  rfl

theorem BitVec.toNat_and_neg {w : ℕ} {x : BitVec w} (hx : 0 < x.toNat) :
    (x &&& -x).toNat = lowBit x.toNat := by
  have hlt := x.isLt
  rw [BitVec.toNat_and, BitVec.toNat_neg, Nat.mod_eq_of_lt (by omega), ← ldiff_pred hx]
  refine Nat.eq_of_testBit_eq fun j => ?_
  have hneg : 2 ^ w - x.toNat = 2 ^ w - (x.toNat - 1 + 1) := by rw [Nat.sub_add_cancel hx]
  rw [Nat.testBit_and, Nat.testBit_ldiff, hneg, Nat.testBit_two_pow_sub_succ (by omega)]
  by_cases hj : j < w
  · simp [hj]
  · simp [Nat.testBit_lt_two_pow (lt_of_lt_of_le hlt (Nat.pow_le_pow_right (by decide) (not_lt.mp hj)))]
