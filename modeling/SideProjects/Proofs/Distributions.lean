import Mathlib.Algebra.Order.Ring.Rat
import Mathlib.Algebra.Field.Rat
import SideProjects.Distributions
import SideProjects.Proofs.StochasticVolatility

/-!
# Valid distributions

The methods of a distribution rely on positive standard deviations, on as many means, and on no more of
them than an `int` can count (`NormalDistribution.sound_iff_pos`,
`IndependentVectorNormal.sound_iff_valid`). The constructors check the first of these as far as they
compare numbers, and the second, and of the setters only `setStdDevs` checks some of it. So an object
that is valid when it is built stays valid through exactly those runs of calls in which every call keeps
it valid (`sound_iff`).

A valid `IndependentVectorNormal` is what the particle filter has of it, with the densities that the
filter takes as given (`Elementary.toEnv`).
-/

universe u

namespace SideProjects

namespace Distributions

open StochasticVolatility (Fault)

/-- A call that throws at worst. -/
def Defined {α : Type*} (r : Except Fault α) : Prop :=
  r ≠ .error .divideByZero ∧ r ≠ .error .undefinedBehaviour

theorem defined_ok {α : Type*} (a : α) : Defined (.ok a : Except Fault α) := by
  simp [Defined]

theorem defined_invalidArgument {α : Type*} (what : String) :
    Defined (.error (.invalidArgument what) : Except Fault α) := by
  simp [Defined]

variable {K : Type u} [Zero K]

/-- Every draw is zero. -/
def Generator.still : Generator K where
  normal _ n := .replicate n 0
  normal_length _ _ := List.length_replicate

variable [Add K] [Mul K]

omit [Zero K] in
/-- What is drawn is as long as the vectors if an `int` can count them. -/
theorem IndependentVectorNormal.sample_eq (dist : IndependentVectorNormal K)
    (hlen : dist.means.length = dist.stdDevs.length) (generator : Generator K) (seed : UInt32) :
    dist.sample generator seed =
      if dist.means.length < 2 ^ 31 then .ok (List.zipWith (· + ·)
        (List.zipWith (· * ·) (generator.normal seed dist.means.length) dist.stdDevs) dist.means)
      else .error .undefinedBehaviour := by
  unfold IndependentVectorNormal.sample
  split_ifs with hneg hsize hsize
  · have := ((StochasticVolatility.int_size_iff _).mpr hsize).1
    exact absurd hneg (Int32.not_lt.mpr this)
  · rfl
  · have hnat := ((StochasticVolatility.int_size_iff _).mpr hsize).2
    rw [sampleSize, hnat]
    have hnormal := generator.normal_length seed dist.means.length
    simp only [entrywise, if_pos (hnormal.trans hlen), Except.ok_bind]
    rw [if_pos (by simp [hnormal, ← hlen])]
  · have hnat : dist.sampleSize.toInt.toNat ≠ dist.stdDevs.length := fun h =>
      hsize ((StochasticVolatility.int_size_iff _).mp ⟨Int32.not_lt.mp hneg, h.trans hlen.symm⟩)
    rw [entrywise, if_neg (by rwa [generator.normal_length]), Except.error_bind]

variable [LE K] [LT K]

omit [Add K] [Mul K] in
theorem not_isZero [FloatOrder K] {x : K} (h : 0 < x) : ¬ IsZero x :=
  fun hzero => FloatOrder.not_le_of_lt h hzero.1

omit [Add K] [Mul K] in
theorem no_zero [FloatOrder K] {a : List K} (ha : ∀ x ∈ a, 0 < x) : ¬ ∃ x ∈ a, IsZero x :=
  fun ⟨x, hx, hzero⟩ => not_isZero (ha x hx) hzero

variable [Sub K] [Div K] [Neg K] [NatCast K] [DecidableLE K]

namespace IndependentVectorNormal

variable [FloatOrder K]

omit [Add K] [Sub K] in
theorem densities_eq (dist : IndependentVectorNormal K) (hpos : ∀ s ∈ dist.stdDevs, 0 < s)
    (f : Elementary K) {xMuDiff : List K} (hlen : xMuDiff.length = dist.stdDevs.length) :
    dist.densities f xMuDiff = .ok (List.zipWith (· * ·)
      ((dist.stdDevs.map (· * f.sqrt f.twoPi)).map (((1 : ℕ) : K) / ·))
      ((List.zipWith (· / ·) xMuDiff dist.stdDevs).map fun z => f.exp (-half * (z * z)))) := by
  have hzero : ¬ ∃ x ∈ dist.stdDevs.map (· * f.sqrt f.twoPi), IsZero x := no_zero fun x hx => by
    obtain ⟨s, hs, rfl⟩ := List.mem_map.mp hx
    exact f.scale_pos s (hpos s hs)
  simp only [densities, reciprocals, quotients, if_neg hzero, if_neg (no_zero hpos), entrywise,
    if_pos hlen, Except.ok_bind]
  rw [if_pos (by simp [hlen])]

theorem logDensities_eq (dist : IndependentVectorNormal K) (hpos : ∀ s ∈ dist.stdDevs, 0 < s)
    (f : Elementary K) {xMuDiff : List K} (hlen : xMuDiff.length = dist.stdDevs.length) :
    dist.logDensities f xMuDiff = .ok (List.zipWith (· + ·)
      (dist.stdDevs.map fun s => -half * f.log f.twoPi - f.log s)
      ((List.zipWith (· / ·) xMuDiff dist.stdDevs).map fun z => -half * (z * z))) := by
  simp only [logDensities, quotients, if_neg (no_zero hpos), entrywise, if_pos hlen, Except.ok_bind]
  rw [if_pos (by simp [hlen])]

end IndependentVectorNormal

variable [DecidableLT K]

/-! ## One number -/

namespace NormalDistribution

/-- The standard deviation is positive, and every method does what it is for. -/
structure Sound (dist : NormalDistribution K) : Prop where
  pos : 0 < dist.stdDev
  pdf : ∀ (f : Elementary K) (x : K), Defined (dist.pdf f x)
  logLikelihood : ∀ (f : Elementary K) (x : K), Defined (dist.logLikelihood f x)
  sample : ∀ (generator : Generator K) (n : ℕ) (seed : UInt32), Defined (dist.sample generator n seed)

/-- What a call has to be for the object to stay valid. -/
def Keeps (_ : NormalDistribution K) : Call K → Prop
  | .setMean _ => True
  | .setStdDev stdDev => 0 < stdDev

variable [FloatOrder K]

theorem sound_iff_pos (dist : NormalDistribution K) : dist.Sound ↔ 0 < dist.stdDev := by
  refine ⟨Sound.pos, fun hpos => ⟨hpos, fun f x => ?_, fun f x => ?_, fun generator n seed => ?_⟩⟩
  · have hscale : ¬ IsZero (dist.stdDev * f.sqrt f.twoPi) := not_isZero (f.scale_pos _ hpos)
    simp only [NormalDistribution.pdf, divide, if_neg hscale, if_neg (not_isZero hpos),
      Except.ok_bind]
    exact defined_ok _
  · simp only [NormalDistribution.logLikelihood, divide, if_neg (not_isZero hpos), Except.ok_bind]
    exact defined_ok _
  · rw [NormalDistribution.sample, if_pos hpos]
    exact defined_ok _

/-- What the constructor lets pass is valid, or it is not a number. -/
theorem sound_new_iff {mean stdDev : K} {dist : NormalDistribution K}
    (h : new mean stdDev = .ok dist) : dist.Sound ↔ stdDev ≤ stdDev := by
  unfold new at h
  split_ifs at h with hpos
  cases h
  rw [sound_iff_pos, FloatOrder.pos_iff]
  exact and_iff_left hpos

theorem sound_call_iff (dist : NormalDistribution K) (c : Call K) (h : dist.Sound) :
    (dist.call c).Sound ↔ dist.Keeps c := by
  cases c with
  | setMean mean => exact iff_of_true ((sound_iff_pos _).mpr h.pos) trivial
  | setStdDev stdDev => exact sound_iff_pos _

end NormalDistribution

/-! ## A vector of independent numbers -/

namespace IndependentVectorNormal

/-- The standard deviations are positive and as many as the means, and every method does what it is
for, or throws. -/
structure Sound (dist : IndependentVectorNormal K) : Prop where
  pos : ∀ s ∈ dist.stdDevs, 0 < s
  length_eq : dist.means.length = dist.stdDevs.length
  pdfs : ∀ (f : Elementary K) (x : List K), Defined (dist.pdfs f x)
  pdfsAt : ∀ (f : Elementary K) (x : K), Defined (dist.pdfsAt f x)
  logLikelihoods : ∀ (f : Elementary K) (x : List K), Defined (dist.logLikelihoods f x)
  logLikelihoodsAt : ∀ (f : Elementary K) (x : K), Defined (dist.logLikelihoodsAt f x)
  sample : ∀ (generator : Generator K) (seed : UInt32), Defined (dist.sample generator seed)

/-- What a call has to be for the object to stay valid. A vector that is refused does nothing. -/
def Keeps (nanMin : List K → K) : Option (IndependentVectorNormal K) → Call K → Prop
  | none, _ => False
  | some dist, .setMeans means => means.length = dist.stdDevs.length
  | some dist, .setStdDevs stdDevs =>
    stdDevs ≠ [] ∧ (StochasticVolatility.minCoeff nanMin stdDevs ≤ 0 ∨
      (∀ s ∈ stdDevs, 0 < s) ∧ stdDevs.length = dist.means.length)

variable {dist : IndependentVectorNormal K} {nanMin : List K → K}

section Valid

variable [FloatOrder K]

omit [DecidableLT K] in
theorem sound_iff_valid (dist : IndependentVectorNormal K) : dist.Sound ↔
    (∀ s ∈ dist.stdDevs, 0 < s) ∧ dist.means.length = dist.stdDevs.length ∧
      dist.stdDevs.length < 2 ^ 31 := by
  constructor
  · intro h
    refine ⟨h.pos, h.length_eq, ?_⟩
    by_contra hsize
    refine (h.sample .still 0).2 ?_
    rw [dist.sample_eq h.length_eq, if_neg (h.length_eq.symm ▸ hsize)]
  · rintro ⟨hpos, hlen, hsize⟩
    refine ⟨hpos, hlen, fun f x => ?_, fun f x => ?_, fun f x => ?_, fun f x => ?_,
      fun generator seed => ?_⟩
    · unfold IndependentVectorNormal.pdfs
      split_ifs with hx
      · exact defined_invalidArgument _
      · rw [entrywise, if_pos (not_not.mp hx), Except.ok_bind,
          dist.densities_eq hpos f (by simp [not_not.mp hx, hlen])]
        exact defined_ok _
    · rw [IndependentVectorNormal.pdfsAt, dist.densities_eq hpos f (by rw [List.length_map, hlen])]
      exact defined_ok _
    · unfold IndependentVectorNormal.logLikelihoods
      split_ifs with hx
      · exact defined_invalidArgument _
      · rw [entrywise, if_pos (not_not.mp hx), Except.ok_bind,
          dist.logDensities_eq hpos f (by simp [not_not.mp hx, hlen])]
        exact defined_ok _
    · rw [IndependentVectorNormal.logLikelihoodsAt,
        dist.logDensities_eq hpos f (by rw [List.length_map, hlen])]
      exact defined_ok _
    · rw [dist.sample_eq hlen, if_pos (hlen.symm ▸ hsize)]
      exact defined_ok _

end Valid

/-! ## Checks -/

omit [Add K] [Mul K] [Sub K] [Div K] [Neg K] [NatCast K] in
/-- What the checks of the standard deviations come to. -/
theorem check_eq {α : Type u} {stdDevs : List K} (hne : stdDevs ≠ []) (bad good : Except Fault α) :
    (minCoeff nanMin stdDevs >>= fun least => if least ≤ 0 then bad else good) =
      if StochasticVolatility.minCoeff nanMin stdDevs ≤ 0 then bad else good := by
  cases stdDevs with
  | nil => exact absurd rfl hne
  | cons x xs => rfl

omit [Add K] [Mul K] [Sub K] [Div K] [Neg K] [NatCast K] in
theorem call_setStdDevs {stdDevs : List K} : call nanMin (some dist) (.setStdDevs stdDevs) =
    if stdDevs = [] then none
    else if StochasticVolatility.minCoeff nanMin stdDevs ≤ 0 then some dist
    else some { dist with stdDevs } := by
  rcases eq_or_ne stdDevs [] with rfl | hne
  · rfl
  · rw [if_neg hne]
    simp only [call, setStdDevs, check_eq hne]
    split_ifs <;> rfl

variable [FloatOrder K]

omit [Add K] [Mul K] [Sub K] [Div K] [Neg K] [NatCast K] in
/-- Standard deviations that have passed the check are positive if and only if they are numbers. -/
theorem pos_iff_of_passed {stdDevs : List K}
    (hmin : ¬ StochasticVolatility.minCoeff nanMin stdDevs ≤ 0) :
    (∀ s ∈ stdDevs, 0 < s) ↔ ∀ s ∈ stdDevs, s ≤ s := by
  constructor
  · exact fun h s hs => (FloatOrder.pos_iff.mp (h s hs)).1
  · exact fun h s hs => FloatOrder.pos_iff.mpr
      ⟨h s hs, StochasticVolatility.not_le_of_minCoeff hmin h s hs⟩

/-- What the constructors let pass is valid if it is numbers, and no more than an `int` can count. -/
theorem sound_of_passed {means stdDevs : List K} (hlen : means.length = stdDevs.length)
    (hmin : ¬ StochasticVolatility.minCoeff nanMin stdDevs ≤ 0) :
    Sound ⟨means, stdDevs⟩ ↔ (∀ s ∈ stdDevs, s ≤ s) ∧ stdDevs.length < 2 ^ 31 := by
  rw [sound_iff_valid, pos_iff_of_passed hmin]
  exact and_congr_right fun _ => and_iff_right hlen

theorem sound_new_iff {means stdDevs : List K} (h : new nanMin means stdDevs = .ok dist) :
    dist.Sound ↔ (∀ s ∈ stdDevs, s ≤ s) ∧ stdDevs.length < 2 ^ 31 := by
  unfold new at h
  split_ifs at h with hlen
  rcases eq_or_ne stdDevs [] with rfl | hne
  · cases h
  · rw [check_eq hne] at h
    split_ifs at h with hmin
    cases h
    exact sound_of_passed (not_not.mp hlen) hmin

theorem sound_constant_iff {mean stdDev : K} {n : ℕ} (h : constant nanMin mean stdDev n = .ok dist) :
    dist.Sound ↔ stdDev ≤ stdDev ∧ n < 2 ^ 31 := by
  unfold constant at h
  rcases eq_or_ne n 0 with rfl | hn
  · cases h
  · rw [check_eq (by simpa using hn)] at h
    split_ifs at h with hmin
    cases h
    rw [sound_of_passed (by simp) hmin]
    simp [List.mem_replicate, hn]

/-- An object that the calls so far have left sound. -/
def Held (s : Option (IndependentVectorNormal K)) : Prop := ∃ dist, s = some dist ∧ dist.Sound

omit [DecidableLT K] [FloatOrder K] in
theorem held_some_iff : Held (some dist) ↔ dist.Sound := by
  simp [Held]

theorem held_call_iff (s : Option (IndependentVectorNormal K)) (c : Call K) (h : Held s) :
    Held (call nanMin s c) ↔ Keeps nanMin s c := by
  obtain ⟨dist, rfl, hsound⟩ := h
  obtain ⟨hpos, hlen, hsize⟩ := (sound_iff_valid dist).mp hsound
  cases c with
  | setMeans means =>
    show Held (some (dist.setMeans means)) ↔ means.length = dist.stdDevs.length
    rw [held_some_iff, sound_iff_valid]
    exact ⟨fun h => h.2.1, fun h => ⟨hpos, h, hsize⟩⟩
  | setStdDevs stdDevs =>
    rw [call_setStdDevs, Keeps]
    split_ifs with hnil hmin
    · simp [Held, hnil]
    · exact iff_of_true (held_some_iff.mpr hsound) ⟨hnil, .inl hmin⟩
    · rw [held_some_iff, sound_iff_valid]
      constructor
      · rintro ⟨hpos', hlen', -⟩
        exact ⟨hnil, .inr ⟨hpos', hlen'.symm⟩⟩
      · rintro ⟨-, hrefused | ⟨hpos', hlen'⟩⟩
        · exact absurd hrefused hmin
        · refine ⟨hpos', hlen'.symm, ?_⟩
          show stdDevs.length < 2 ^ 31
          omega

end IndependentVectorNormal

variable [FloatOrder K]

/-- Through a run of calls on what a constructor has built. -/
theorem IndependentVectorNormal.run_sound_iff {nanMin : List K → K} {dist : IndependentVectorNormal K}
    (calls : List (IndependentVectorNormal.Call K)) :
    (∀ k, ∃ dist', (calls.take k).foldl (call nanMin) (some dist) = some dist' ∧ dist'.Sound) ↔
      dist.Sound ∧ Along (call nanMin) (Keeps nanMin) (some dist) calls := by
  constructor
  · intro hall
    have hsound : dist.Sound := by simpa using hall 0
    exact ⟨hsound, (forall_take_iff_along held_call_iff (held_some_iff.mpr hsound)).mp hall⟩
  · rintro ⟨hsound, halong⟩
    exact (forall_take_iff_along held_call_iff (held_some_iff.mpr hsound)).mpr halong

/-- From any constructor that does not throw and through any run of calls: every object that is
reached is sound if and only if the constructor is given numbers, of a vector no more than an `int` can
count, and every call of the run keeps the object it is made on sound. -/
theorem sound_iff (nanMin : List K → K) :
    (∀ (mean stdDev : K) (dist : NormalDistribution K),
      NormalDistribution.new mean stdDev = .ok dist → ∀ calls,
        (∀ k, ((calls.take k).foldl NormalDistribution.call dist).Sound) ↔
          stdDev ≤ stdDev ∧ Along NormalDistribution.call NormalDistribution.Keeps dist calls) ∧
      (∀ (means stdDevs : List K) (dist : IndependentVectorNormal K),
        IndependentVectorNormal.new nanMin means stdDevs = .ok dist → ∀ calls,
          (∀ k, ∃ dist', (calls.take k).foldl (IndependentVectorNormal.call nanMin) (some dist) =
              some dist' ∧ dist'.Sound) ↔
            ((∀ s ∈ stdDevs, s ≤ s) ∧ stdDevs.length < 2 ^ 31) ∧
              Along (IndependentVectorNormal.call nanMin) (IndependentVectorNormal.Keeps nanMin)
                (some dist) calls) ∧
      ∀ (mean stdDev : K) (n : ℕ) (dist : IndependentVectorNormal K),
        IndependentVectorNormal.constant nanMin mean stdDev n = .ok dist → ∀ calls,
          (∀ k, ∃ dist', (calls.take k).foldl (IndependentVectorNormal.call nanMin) (some dist) =
              some dist' ∧ dist'.Sound) ↔
            (stdDev ≤ stdDev ∧ n < 2 ^ 31) ∧
              Along (IndependentVectorNormal.call nanMin) (IndependentVectorNormal.Keeps nanMin)
                (some dist) calls := by
  refine ⟨fun mean stdDev dist h calls => ?_, fun means stdDevs dist h calls => ?_,
    fun mean stdDev n dist h calls => ?_⟩
  · rw [← NormalDistribution.sound_new_iff h]
    constructor
    · intro hall
      have hsound : dist.Sound := by simpa using hall 0
      exact ⟨hsound, (forall_take_iff_along NormalDistribution.sound_call_iff hsound).mp hall⟩
    · rintro ⟨hsound, halong⟩
      exact (forall_take_iff_along NormalDistribution.sound_call_iff hsound).mpr halong
  · rw [← IndependentVectorNormal.sound_new_iff h]
    exact IndependentVectorNormal.run_sound_iff calls
  · rw [← IndependentVectorNormal.sound_constant_iff h]
    exact IndependentVectorNormal.run_sound_iff calls

/-- Calls that keep the objects sound. -/
theorem sound_iff_run :
    (([.setMean 3, .setStdDev 2] : List (NormalDistribution.Call ℚ)).foldl NormalDistribution.call
        ⟨0, 1⟩).Sound ∧
      ∃ dist', ([.setMeans [3, 4], .setStdDevs [2, 4]] :
        List (IndependentVectorNormal.Call ℚ)).foldl (IndependentVectorNormal.call fun _ => 0)
          (some ⟨[1, 2], [1, 1]⟩) = some dist' ∧ dist'.Sound := by
  have hnew : IndependentVectorNormal.new (fun _ => 0) [(1 : ℚ), 2] [1, 1] =
      .ok ⟨[1, 2], [1, 1]⟩ := by
    decide +kernel
  have hone := ((sound_iff fun _ => 0).1 (0 : ℚ) 1 ⟨0, 1⟩ (by decide +kernel)
    [.setMean 3, .setStdDev 2]).mpr ⟨le_rfl, trivial, two_pos, trivial⟩ 2
  have hvector := ((sound_iff fun _ => 0).2.1 [(1 : ℚ), 2] [1, 1] _ hnew
    [.setMeans [3, 4], .setStdDevs [2, 4]]).mpr
    ⟨⟨fun _ _ => le_rfl, by decide⟩, rfl, ⟨by simp, .inr ⟨by simp, rfl⟩⟩, trivial⟩ 2
  exact ⟨hone, hvector⟩

/-- A standard deviation set to zero, one mean to two standard deviations, and a standard deviation that
is not a number. -/
theorem setters_unchecked :
    NormalDistribution.new (0 : ℚ) 1 = .ok ⟨0, 1⟩ ∧
      ¬ ((⟨0, 1⟩ : NormalDistribution ℚ).call (.setStdDev 0)).Sound ∧
      (∀ f : Elementary ℚ,
        ((⟨0, 1⟩ : NormalDistribution ℚ).call (.setStdDev 0)).pdf f 0 = .error .divideByZero) ∧
      IndependentVectorNormal.new (fun _ => 0) [(1 : ℚ), 2] [1, 1] = .ok ⟨[1, 2], [1, 1]⟩ ∧
      ¬ (⟨[7], [1, 1]⟩ : IndependentVectorNormal ℚ).Sound ∧
      IndependentVectorNormal.call (fun _ => 0) (some ⟨[(1 : ℚ), 2], [1, 1]⟩) (.setMeans [7]) =
        some ⟨[7], [1, 1]⟩ ∧
      NormalDistribution.new (0 : WithNaN ℚ) .nan = .ok ⟨0, .nan⟩ ∧
      ¬ (⟨0, .nan⟩ : NormalDistribution (WithNaN ℚ)).Sound := by
  refine ⟨by decide +kernel, fun h => lt_irrefl _ h.pos, fun f => ?_, by decide +kernel, fun h => ?_,
    rfl, by decide +kernel, fun h => WithNaN.not_lt_nan _ h.pos⟩
  · simp [NormalDistribution.pdf, NormalDistribution.call, NormalDistribution.setStdDev, divide,
      IsZero]
  · exact absurd h.length_eq (by decide)

/-! ## The distributions of the filter -/

/-- A distribution of the filter is an object that has passed the checks. -/
def ofFilter (d : StochasticVolatility.IndependentVectorNormal K) : IndependentVectorNormal K :=
  ⟨d.means, d.stdDevs⟩

omit [Add K] [Mul K] [Sub K] [Div K] [Neg K] [NatCast K] in
theorem new_eq (nanMin : List K → K) (means stdDevs : List K) :
    IndependentVectorNormal.new nanMin means stdDevs =
      (StochasticVolatility.IndependentVectorNormal.new nanMin means stdDevs).map ofFilter := by
  unfold IndependentVectorNormal.new StochasticVolatility.IndependentVectorNormal.new
  by_cases hlen : means.length = stdDevs.length
  · rw [if_neg (not_not.mpr hlen), dif_pos hlen]
    rcases eq_or_ne stdDevs [] with rfl | hne
    · rfl
    · have hempty : ¬ stdDevs.isEmpty = true := by simpa using hne
      rw [IndependentVectorNormal.check_eq hne, if_neg hempty]
      by_cases hmin : StochasticVolatility.minCoeff nanMin stdDevs ≤ 0
      · rw [if_pos hmin, dif_pos hmin]
        rfl
      · rw [if_neg hmin, dif_neg hmin]
        rfl
  · rw [if_pos hlen, dif_neg hlen]
    rfl

omit [Add K] [Mul K] [Sub K] [Div K] [Neg K] [NatCast K] in
theorem constant_eq (nanMin : List K → K) (mean stdDev : K) (n : ℕ) :
    IndependentVectorNormal.constant nanMin mean stdDev n =
      (StochasticVolatility.IndependentVectorNormal.constant nanMin mean stdDev n).map ofFilter := by
  unfold IndependentVectorNormal.constant StochasticVolatility.IndependentVectorNormal.constant
  rcases eq_or_ne n 0 with rfl | hn
  · rfl
  · rw [IndependentVectorNormal.check_eq (by simpa using hn), if_neg hn]
    by_cases hmin : StochasticVolatility.minCoeff nanMin (.replicate n stdDev) ≤ 0
    · rw [if_pos hmin, dif_pos hmin]
      rfl
    · rw [if_neg hmin, dif_neg hmin]
      rfl

section Filter

variable {L : Type u} [Field L] [LinearOrder L] [IsStrictOrderedRing L] (f : Elementary L)
  (generator : Generator L) (nanMin : List L → L) (tanh : L → L)
  (discrete : (weights : List L) → UInt32 → Fin weights.length → Fin weights.length)

/-- What the filter takes from outside, with the densities of the objects. -/
def Elementary.toEnv : StochasticVolatility.Env L where
  exp := f.exp
  tanh := tanh
  normal _ seed n := generator.normal seed n
  normal_length _ := generator.normal_length
  discrete _ := discrete
  nanMin := nanMin
  pdfs _ d x := List.zipWith (· * ·)
    ((d.stdDevs.map (· * f.sqrt f.twoPi)).map (((1 : ℕ) : L) / ·))
    ((List.zipWith (· / ·) (d.means.map (x - ·)) d.stdDevs).map fun z => f.exp (-half * (z * z)))
  pdfs_length _ d x := by simp [d.length_eq]
  pdfs_nonneg _ d x hnumber l hl := by
    obtain ⟨i, hi, rfl⟩ := List.mem_iff_getElem.mp hl
    simp only [List.getElem_zipWith, List.getElem_map]
    have hs := d.pos hnumber _
      (List.getElem_mem (l := d.stdDevs) (n := i) (by simpa [d.length_eq] using hi))
    have hscale := f.scale_pos _ (not_le.mp hs)
    have hfactor := div_nonneg (Nat.cast_nonneg (α := L) 1) hscale.le
    exact not_lt.mpr (mul_nonneg hfactor (not_lt.mp (f.exp_nonneg _)))
  logLikelihoods _ d x := List.zipWith (· + ·)
    (d.stdDevs.map fun s => -half * f.log f.twoPi - f.log s)
    ((List.zipWith (· / ·) (d.means.map (x - ·)) d.stdDevs).map fun z => -half * (z * z))
  logLikelihoods_length _ d x := by simp [d.length_eq]

/-- The densities and the draws of the filter are those of the objects. -/
theorem toEnv_eq (d : StochasticVolatility.IndependentVectorNormal L) (t : ℕ) (x : L)
    (seed : UInt32) :
    (ofFilter d).pdfsAt f x = .ok ((f.toEnv generator nanMin tanh discrete).pdfs t d x) ∧
      (ofFilter d).logLikelihoodsAt f x =
        .ok ((f.toEnv generator nanMin tanh discrete).logLikelihoods t d x) ∧
      (ofFilter d).sample generator seed =
        d.sample (f.toEnv generator nanMin tanh discrete) t seed := by
  have hlen : (d.means.map (x - ·)).length = d.stdDevs.length := by rw [List.length_map, d.length_eq]
  have hpos : ∀ s ∈ d.stdDevs, 0 < s := fun s hs => not_le.mp (d.pos (fun _ _ => le_rfl) s hs)
  refine ⟨?_, ?_, ?_⟩
  · exact (ofFilter d).densities_eq hpos f hlen
  · exact (ofFilter d).logDensities_eq hpos f hlen
  · rw [(ofFilter d).sample_eq d.length_eq, StochasticVolatility.sample_eq]
    rfl

end Filter

end Distributions

end SideProjects
