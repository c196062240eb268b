import Mathlib.Algebra.Order.Field.Rat
import Mathlib.Data.Rat.Floor
import SideProjects.Lib.Interpolation
import SideProjects.UtilFuns

/-!
# Laws of the sample statistics

A quantile interpolates the sorted data, with the last value going on forever (`quantile_eq`), so it
is monotone where the interpolation is. The data are only looked at once they are sorted, and then no
order of theirs is left.

The mean is the sum of the data divided by their number (`mean_eq`). The divisor of the standard
deviation is a difference of natural numbers as long as it is positive (`toNat_divisor`).
-/

namespace SideProjects

namespace UtilFuns

open StochasticVolatility (Fault)

variable {K : Type*} [Field K] [LinearOrder K]

/-! ## Sorted data -/

/-- The value at an index, and the last value past the end. -/
def clamped (data : List K) (i : ℕ) : K := data.getD (min i (data.length - 1)) 0

/-- So many of the data are less than `x`, and so many no more than it, that it is the one with index
`k` when they are in order. -/
def IsKthSmallest (data : List K) (k : ℕ) (x : K) : Prop :=
  x ∈ data ∧ data.countP (· < x) ≤ k ∧ k < data.countP (· ≤ x)

omit [LinearOrder K] in
theorem clamped_of_lt {data : List K} {i : ℕ} (hi : i < data.length) : clamped data i = data[i] := by
  rw [clamped, min_eq_left (by omega), List.getD_eq_getElem?_getD, List.getElem?_eq_getElem hi,
    Option.getD_some]

theorem monotone_clamped {data : List K} (hne : data ≠ []) (hsorted : data.Pairwise (· ≤ ·)) :
    Monotone (clamped data) := by
  have hpos := List.length_pos_of_ne_nil hne
  intro i j hij
  have hi : min i (data.length - 1) < data.length := by omega
  have hj : min j (data.length - 1) < data.length := by omega
  have hle : min i (data.length - 1) ≤ min j (data.length - 1) := min_le_min_right _ hij
  simp only [clamped, List.getD_eq_getElem?_getD, List.getElem?_eq_getElem hi,
    List.getElem?_eq_getElem hj, Option.getD_some]
  rcases hle.eq_or_lt with heq | hlt
  · simp only [heq, le_refl]
  · exact List.pairwise_iff_getElem.mp hsorted _ _ hi hj hlt

theorem clamped_le_last {data : List K} (hmono : Monotone (clamped data)) (i : ℕ) :
    clamped data i ≤ clamped data (data.length - 1) := by
  have hmin : clamped data (min i (data.length - 1)) = clamped data i := by simp [clamped]
  rw [← hmin]
  exact hmono (min_le_right _ _)

omit [Field K] in
/-- Before the index `k` stand no greater values than there, and after it no smaller ones. -/
theorem isKthSmallest_getElem {data sorted : List K} (hperm : sorted.Perm data)
    (hsorted : sorted.Pairwise (· ≤ ·)) {k : ℕ} (hk : k < sorted.length) :
    IsKthSmallest data k sorted[k] := by
  have hget := List.pairwise_iff_getElem.mp hsorted
  have hsplit : ∀ p : K → Bool, data.countP p = (sorted.take k).countP p + (sorted.drop k).countP p :=
    fun p => by rw [← hperm.countP_eq p, ← List.countP_append, List.take_append_drop]
  refine ⟨hperm.mem_iff.mp (List.getElem_mem hk), ?_, ?_⟩
  · have hafter : (sorted.drop k).countP (· < sorted[k]) = 0 := by
      refine List.countP_eq_zero.mpr fun x hx => ?_
      obtain ⟨i, hi, rfl⟩ := List.mem_iff_getElem.mp hx
      rw [List.getElem_drop]
      rw [List.length_drop] at hi
      rcases i with _ | i
      · simp
      · simpa using hget k (k + (i + 1)) hk (by omega) (by omega)
    rw [hsplit, hafter, add_zero]
    exact List.countP_le_length.trans (by simp)
  · have hbefore : (sorted.take k).countP (· ≤ sorted[k]) = k := by
      rw [List.countP_eq_length.mpr, List.length_take, min_eq_left hk.le]
      intro x hx
      obtain ⟨i, hi, rfl⟩ := List.mem_iff_getElem.mp hx
      rw [List.getElem_take]
      rw [List.length_take] at hi
      simpa using hget i k (by omega) hk (by omega)
    have hmem : sorted[k] ∈ sorted.drop k := List.drop_eq_getElem_cons hk ▸ List.mem_cons_self
    have hafter : 0 < (sorted.drop k).countP (· ≤ sorted[k]) :=
      List.countP_pos_iff.mpr ⟨sorted[k], hmem, by simp⟩
    rw [hsplit, hbefore]
    omega

/-! ## Quantiles -/

omit [Field K] in
theorem sorted_insertionSort (data : List K) : (data.insertionSort (· ≤ ·)).Pairwise (· ≤ ·) :=
  List.pairwise_insertionSort _ data

omit [LinearOrder K] in
theorem element_ok {data : List K} {i : ℕ} (hi : i < data.length) :
    element data i = .ok (clamped data i) := by
  rw [element, List.getElem?_eq_getElem hi, clamped_of_lt hi]

section Quantile

variable [FloorSemiring K]

theorem quantile_perm {data data' : List K} (h : data.Perm data') (q : K) :
    quantile data q = quantile data' q := by
  have hsort : data.insertionSort (· ≤ ·) = data'.insertionSort (· ≤ ·) :=
    List.Perm.eq_of_pairwise' (sorted_insertionSort data) (sorted_insertionSort data')
      ((List.perm_insertionSort _ data).trans (h.trans (List.perm_insertionSort _ data').symm))
  have hnil : data = [] ↔ data' = [] := by
    rw [← List.length_eq_zero_iff, h.length_eq, List.length_eq_zero_iff]
  simp only [quantile, hsort, hnil]

variable [IsStrictOrderedRing K]

theorem quantile_eq {data : List K} (hne : data ≠ []) {q : K} (h₀ : 0 ≤ q) (h₁ : q ≤ 1) :
    quantile data q = .ok (interpolate (clamped (data.insertionSort (· ≤ ·)))
      (q * ((data.length - 1 : ℕ) : K))) := by
  have hlen : (data.insertionSort (· ≤ ·)).length = data.length := List.length_insertionSort _ data
  have hpos := List.length_pos_of_ne_nil hne
  have hfloor : ⌊q * ((data.length - 1 : ℕ) : K)⌋₊ ≤ data.length - 1 :=
    Nat.floor_le_of_le (mul_le_of_le_one_left (Nat.cast_nonneg _) h₁)
  unfold quantile
  rw [if_neg hne, if_neg (not_or.mpr ⟨not_lt.mpr h₀, not_lt.mpr h₁⟩)]
  simp only [hlen]
  split_ifs with hlast
  · rw [element_ok (by omega), interpolate_of_eq]
    rw [clamped, clamped, hlen]
    congr 1
    omega
  · rw [element_ok (by omega), element_ok (by omega)]
    rfl

/-- The laws of `quantile`: it reads no index that is not there, it is monotone, it is between the
least and the greatest value, it does not depend on the order of the data, and at `k / (n - 1)` it is
the value with index `k`. -/
theorem quantile_laws {data : List K} (hne : data ≠ []) {q q' : K} (h₀ : 0 ≤ q) (hq : q ≤ q')
    (h₁ : q' ≤ 1) : ∃ v v', quantile data q = .ok v ∧ quantile data q' = .ok v' ∧ v ≤ v' ∧
      (∃ lo ∈ data, ∃ hi ∈ data, (∀ x ∈ data, lo ≤ x ∧ x ≤ hi) ∧ lo ≤ v ∧ v ≤ hi) ∧
      (∀ data', data.Perm data' → quantile data' q = .ok v) ∧
      (2 ≤ data.length → ∀ k ≤ data.length - 1, ∃ x,
        quantile data (k / ((data.length - 1 : ℕ) : K)) = .ok x ∧ IsKthSmallest data k x) := by
  set sorted := data.insertionSort (· ≤ ·) with hsorted
  have hperm : sorted.Perm data := List.perm_insertionSort _ data
  have hlen : sorted.length = data.length := hperm.length_eq
  have hpos := List.length_pos_of_ne_nil hne
  have hne' : sorted ≠ [] := List.ne_nil_of_length_pos (hlen ▸ hpos)
  have hmono := monotone_clamped hne' (sorted_insertionSort data)
  have hmem : ∀ {i : ℕ} (hi : i < sorted.length), clamped sorted i ∈ data := fun hi => by
    rw [clamped_of_lt hi]
    exact hperm.mem_iff.mp (List.getElem_mem hi)
  have hp : ∀ {r : K}, 0 ≤ r → 0 ≤ r * ((data.length - 1 : ℕ) : K) :=
    fun hr => mul_nonneg hr (Nat.cast_nonneg _)
  refine ⟨_, _, quantile_eq hne h₀ (hq.trans h₁), quantile_eq hne (h₀.trans hq) h₁, ?_, ?_, ?_, ?_⟩
  · exact interpolate_le_interpolate hmono (hp h₀) (mul_le_mul_of_nonneg_right hq (Nat.cast_nonneg _))
  · refine ⟨_, hmem (i := 0) (by omega), _, hmem (i := sorted.length - 1) (by omega),
      fun x hx => ?_, ?_, ?_⟩
    · obtain ⟨i, hi, rfl⟩ := List.mem_iff_getElem.mp (hperm.mem_iff.mpr hx)
      rw [← clamped_of_lt hi]
      exact ⟨hmono (Nat.zero_le i), clamped_le_last hmono i⟩
    · exact (hmono (Nat.zero_le _)).trans (le_interpolate hmono (hp h₀))
    · exact (interpolate_le hmono).trans (clamped_le_last hmono _)
  · intro data' hdata
    rw [← quantile_perm hdata, quantile_eq hne h₀ (hq.trans h₁)]
  · intro htwo k hk
    have hn : (0 : K) < ((data.length - 1 : ℕ) : K) := Nat.cast_pos.mpr (by omega)
    have hk' : k < sorted.length := by omega
    refine ⟨sorted[k], ?_, isKthSmallest_getElem hperm (sorted_insertionSort data) hk'⟩
    rw [quantile_eq hne (div_nonneg (Nat.cast_nonneg _) hn.le)
      ((div_le_one hn).mpr (Nat.cast_le.mpr hk)), div_mul_cancel₀ _ hn.ne', interpolate_natCast,
      clamped_of_lt hk']

/-- The quartiles of four values. -/
theorem quantile_laws_four : ∃ v v' : ℚ, quantile [40, 10, 30, 20] (1 / 4) = .ok v ∧
    quantile [40, 10, 30, 20] (3 / 4) = .ok v' ∧ v = 35 / 2 ∧ v' = 65 / 2 ∧ v ≤ v' := by
  obtain ⟨v, v', hv, hv', hle, -⟩ := quantile_laws (List.cons_ne_nil (40 : ℚ) [10, 30, 20])
    (by decide +kernel : (0 : ℚ) ≤ 1 / 4) (by decide +kernel : (1 / 4 : ℚ) ≤ 3 / 4) (by decide +kernel)
  have hlow : quantile [(40 : ℚ), 10, 30, 20] (1 / 4) = .ok (35 / 2) := by decide +kernel
  have hhigh : quantile [(40 : ℚ), 10, 30, 20] (3 / 4) = .ok (65 / 2) := by decide +kernel
  exact ⟨v, v', hv, hv', Except.ok.inj (hv.symm.trans hlow), Except.ok.inj (hv'.symm.trans hhigh), hle⟩

end Quantile

/-! ## The standard deviation -/

/-- `standardDeviation` throws, or it takes the root of the sum of the squares of what the data differ
from their mean by, divided by `n - ddof`, a positive number. -/
def WellDefined (data : List K) (ddof : Int32) : Prop :=
  (∃ what, ∀ sqrt, standardDeviation sqrt data ddof = .error (.invalidArgument what)) ∨
    ddof.toInt < data.length ∧ ∃ meanValue v, mean data = .ok meanValue ∧
      meanValue * (data.length : K) = data.sum ∧
      (∀ sqrt, standardDeviation sqrt data ddof = .ok (sqrt v)) ∧
      v * ((data.length : K) - (ddof.toInt : K)) = (data.map fun x => (x - meanValue) ^ 2).sum

omit [Field K] [LinearOrder K] in
theorem toNat_divisor {data : List K} (hsize : data.length < 2 ^ 64) {ddof : Int32}
    (hnonneg : 0 ≤ ddof.toInt) (hlt : ddof.toInt < data.length) :
    ((divisor data ddof).toNat : ℤ) = data.length - ddof.toInt := by
  obtain ⟨d, hd⟩ := Int.eq_ofNat_of_zero_le hnonneg
  rw [hd] at hlt ⊢
  have hd' : (UInt64.ofInt (d : ℤ)).toNat = d := by
    rw [UInt64.ofInt, UInt64.toNat_ofNat']
    omega
  have hn : (UInt64.ofNat data.length).toNat = data.length := by
    rw [UInt64.toNat_ofNat']
    omega
  rw [divisor, hd, UInt64.toNat_sub, hd', hn]
  omega

omit [LinearOrder K] in
theorem mean_eq {data : List K} (hne : data ≠ []) :
    mean data = .ok (data.sum / (data.length : K)) := by
  rw [mean, if_neg hne, ← List.sum_eq_foldl]

theorem mean_mul_length [IsStrictOrderedRing K] {data : List K} {meanValue : K}
    (h : mean data = .ok meanValue) : meanValue * (data.length : K) = data.sum := by
  have hne : data ≠ [] := by
    rintro rfl
    simp [mean] at h
  have hlength : (data.length : K) ≠ 0 := Nat.cast_ne_zero.mpr (List.length_pos_of_ne_nil hne).ne'
  rw [mean_eq hne] at h
  obtain rfl := Except.ok.inj h
  exact div_mul_cancel₀ _ hlength

omit [LinearOrder K] in
theorem foldl_squares (m : K) (data : List K) (s : K) :
    data.foldl (fun s x => s + (x - m) * (x - m)) s = s + (data.map fun x => (x - m) ^ 2).sum := by
  induction data generalizing s with
  | nil => simp
  | cons x data ih =>
    rw [List.foldl_cons, ih, List.map_cons, List.sum_cons, pow_two, add_assoc]

omit [LinearOrder K] in
/-- What is left of `standardDeviation` behind its checks. -/
theorem standardDeviation_eq {data : List K} (htwo : 2 ≤ data.length) {ddof : Int32}
    (hnonneg : 0 ≤ ddof.toInt) : ∃ meanValue, mean data = .ok meanValue ∧
      ∀ sqrt, standardDeviation sqrt data ddof =
        if divisor data ddof = 0 then .error .divideByZero
        else .ok (sqrt ((data.map fun x => (x - meanValue) ^ 2).sum /
          ((divisor data ddof).toNat : K))) := by
  have hne : data ≠ [] := List.ne_nil_of_length_pos (by omega)
  have hneg : ¬ ddof < 0 := fun h => by
    have : ddof.toInt < 0 := Int32.lt_iff_toInt_lt.mp h
    omega
  refine ⟨_, mean_eq hne, fun sqrt => ?_⟩
  rw [standardDeviation, if_neg hneg, if_neg (by omega), mean_eq hne, Except.ok_bind, foldl_squares,
    zero_add]

/-- For two values or more: the standard deviation is well defined if and only if the degrees of
freedom are fewer than the values. -/
theorem wellDefined_iff [IsStrictOrderedRing K] {data : List K} (htwo : 2 ≤ data.length)
    (hsize : data.length < 2 ^ 64) (ddof : Int32) :
    WellDefined data ddof ↔ ddof.toInt < data.length := by
  constructor
  · rintro (⟨what, hthrow⟩ | ⟨hlt, -⟩)
    · by_contra hmany
      obtain ⟨meanValue, -, hroot⟩ := standardDeviation_eq htwo (by omega : 0 ≤ ddof.toInt)
      have h := (hroot id).symm.trans (hthrow id)
      split_ifs at h
      cases h
    · exact hlt
  · intro hlt
    rcases lt_or_ge ddof.toInt 0 with hneg | hnonneg
    · refine .inl ⟨"Degrees of freedom must be greater than or equal to zero.", fun sqrt => ?_⟩
      rw [standardDeviation, if_pos (Int32.lt_iff_toInt_lt.mpr hneg)]
    · obtain ⟨meanValue, hmean, hroot⟩ := standardDeviation_eq htwo hnonneg
      have hdivisor := toNat_divisor hsize hnonneg hlt
      have hcast : ((divisor data ddof).toNat : K) = (data.length : K) - (ddof.toInt : K) := by
        exact_mod_cast congrArg (Int.cast (R := K)) hdivisor
      have hpos : (divisor data ddof).toNat ≠ 0 := by omega
      have hzero : divisor data ddof ≠ 0 := fun h => hpos (congrArg UInt64.toNat h)
      refine .inr ⟨hlt, meanValue, _, hmean, mean_mul_length hmean,
        fun sqrt => (hroot sqrt).trans (if_neg hzero), ?_⟩
      rw [← hcast]
      exact div_mul_cancel₀ _ (Nat.cast_ne_zero.mpr hpos)

/-- Three values with one degree of freedom. -/
theorem wellDefined_iff_three : WellDefined [(1 : ℚ), 2, 3] 1 :=
  (wellDefined_iff (by decide) (by decide) 1).mpr (by decide)

/-- Two values with two degrees of freedom are divided by zero, and with three by `2 ^ 64 - 1`. -/
theorem standardDeviation_wraps :
    standardDeviation id [(1 : ℚ), 3] 2 = .error .divideByZero ∧ ¬ WellDefined [(1 : ℚ), 3] 2 ∧
      standardDeviation id [(1 : ℚ), 3] 3 = .ok (2 / (2 ^ 64 - 1)) ∧ ¬ WellDefined [(1 : ℚ), 3] 3 := by
  have hzero : standardDeviation id [(1 : ℚ), 3] 2 = .error .divideByZero := by decide +kernel
  have hwrap : standardDeviation id [(1 : ℚ), 3] 3 = .ok (2 / (2 ^ 64 - 1)) := by decide +kernel
  refine ⟨hzero, ?_, hwrap, ?_⟩
  · rintro (⟨what, h⟩ | ⟨h, -⟩)
    · cases (h id).symm.trans hzero
    · exact absurd h (by decide)
  · rintro (⟨what, h⟩ | ⟨h, -⟩)
    · cases (h id).symm.trans hwrap
    · exact absurd h (by decide)

end UtilFuns

end SideProjects
