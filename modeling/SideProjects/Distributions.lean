import SideProjects.StochasticVolatility

/-!
# Normal distributions

`stoch-vola/model`: the objects `NormalDistribution` and `IndependentVectorNormal` with their setters,
which may leave them in any state. An operation on the entries of two vectors is undefined where the
vectors are of different lengths, and a division by zero is a fault. Of the doubles only the operations
are given, with comparisons that a value may fail with itself.
-/

namespace SideProjects

namespace Distributions

open StochasticVolatility (Fault)

variable {K : Type*} [Zero K] [Add K] [Sub K] [Mul K] [Div K] [Neg K] [NatCast K] [LE K] [LT K]
  [DecidableLE K] [DecidableLT K]

structure Elementary (K : Type*) [Zero K] [Mul K] [NatCast K] [LT K] where
  exp : K → K
  log : K → K
  sqrt : K → K
  pi : K
  exp_nonneg : ∀ x, ¬ exp x < 0
  scale_pos : ∀ stdDev, 0 < stdDev → 0 < stdDev * sqrt (((2 : ℕ) : K) * pi)

/-- What a generator with this seed draws from the standard normal distribution. -/
structure Generator (K : Type*) where
  normal : UInt32 → ℕ → List K
  normal_length : ∀ seed n, (normal seed n).length = n

/-- `0.5`. -/
def half : K := ((1 : ℕ) : K) / ((2 : ℕ) : K)

/-- `2 * M_PI`. -/
def Elementary.twoPi (f : Elementary K) : K := ((2 : ℕ) : K) * f.pi

/-! ## Vectors -/

/-- That of an empty vector is undefined. -/
def minCoeff (nanMin : List K → K) : List K → Except Fault K
  | [] => .error .undefinedBehaviour
  | x :: xs => .ok (StochasticVolatility.minCoeff nanMin (x :: xs))

/-- There may be two zeros, which compare equal. -/
def IsZero (x : K) : Prop := x ≤ 0 ∧ 0 ≤ x

instance IsZero.decidable (x : K) : Decidable (IsZero x) := inferInstanceAs (Decidable (_ ∧ _))

def divide (a b : K) : Except Fault K := if IsZero b then .error .divideByZero else .ok (a / b)

def reciprocals (a : List K) : Except Fault (List K) :=
  if ∃ b ∈ a, IsZero b then .error .divideByZero else .ok (a.map (((1 : ℕ) : K) / ·))

def entrywise (op : K → K → K) (a b : List K) : Except Fault (List K) :=
  if a.length = b.length then .ok (List.zipWith op a b) else .error .undefinedBehaviour

def quotients (a b : List K) : Except Fault (List K) :=
  if ∃ x ∈ b, IsZero x then .error .divideByZero else entrywise (· / ·) a b

/-! ## One number -/

structure NormalDistribution (K : Type*) where
  mean : K
  stdDev : K
  deriving DecidableEq, Repr

namespace NormalDistribution

def new (mean stdDev : K) : Except Fault (NormalDistribution K) :=
  if stdDev ≤ 0 then .error (.invalidArgument "Standard deviation must be greater than zero.")
  else .ok ⟨mean, stdDev⟩

variable (f : Elementary K) (dist : NormalDistribution K)

def setMean (mean : K) : NormalDistribution K := { dist with mean }

def setStdDev (stdDev : K) : NormalDistribution K := { dist with stdDev }

inductive Call (K : Type*)
  | setMean (mean : K)
  | setStdDev (stdDev : K)
  deriving DecidableEq, Repr

def call : Call K → NormalDistribution K
  | .setMean mean => dist.setMean mean
  | .setStdDev stdDev => dist.setStdDev stdDev

def pdf (x : K) : Except Fault K := do
  let factor ← divide ((1 : ℕ) : K) (dist.stdDev * f.sqrt f.twoPi)
  let z ← divide (x - dist.mean) dist.stdDev
  .ok (factor * f.exp (-half * (z * z)))

def logLikelihood (x : K) : Except Fault K := do
  let z ← divide (x - dist.mean) dist.stdDev
  .ok (-half * f.log f.twoPi - f.log dist.stdDev - half * (z * z))

/-- `std::normal_distribution` is undefined for a standard deviation that is not positive. -/
def sample (generator : Generator K) (n : ℕ) (seed : UInt32) : Except Fault (List K) :=
  if 0 < dist.stdDev then .ok ((generator.normal seed n).map fun z => z * dist.stdDev + dist.mean)
  else .error .undefinedBehaviour

end NormalDistribution

/-! ## A vector of independent numbers -/

structure IndependentVectorNormal (K : Type*) where
  means : List K
  stdDevs : List K
  deriving DecidableEq, Repr

namespace IndependentVectorNormal

def new (nanMin : List K → K) (means stdDevs : List K) :
    Except Fault (IndependentVectorNormal K) := do
  if means.length ≠ stdDevs.length then
    .error (.invalidArgument "Means and standard deviations must have the same length.")
  else
    let least ← minCoeff nanMin stdDevs
    if least ≤ 0 then
      .error (.invalidArgument "Standard deviations must be greater than zero.")
    else .ok ⟨means, stdDevs⟩

def constant (nanMin : List K → K) (mean stdDev : K) (n : ℕ) :
    Except Fault (IndependentVectorNormal K) := do
  let least ← minCoeff nanMin (.replicate n stdDev)
  if least ≤ 0 then .error (.invalidArgument "Standard deviation must be greater than zero.")
  else .ok ⟨.replicate n mean, .replicate n stdDev⟩

variable (f : Elementary K) (dist : IndependentVectorNormal K)

def setMeans (means : List K) : IndependentVectorNormal K := { dist with means }

def setStdDevs (nanMin : List K → K) (stdDevs : List K) : Except Fault (IndependentVectorNormal K) := do
  let least ← minCoeff nanMin stdDevs
  if least ≤ 0 then .error (.invalidArgument "Standard deviations must be greater than zero.")
  else .ok { dist with stdDevs }

inductive Call (K : Type*)
  | setMeans (means : List K)
  | setStdDevs (stdDevs : List K)
  deriving DecidableEq, Repr

/-- The object after a call: as it was if the call throws, and nothing is known of it if the call is
undefined. -/
def call (nanMin : List K → K) :
    Option (IndependentVectorNormal K) → Call K → Option (IndependentVectorNormal K)
  | none, _ => none
  | some dist, .setMeans means => some (dist.setMeans means)
  | some dist, .setStdDevs stdDevs =>
    match dist.setStdDevs nanMin stdDevs with
    | .ok dist' => some dist'
    | .error (.invalidArgument _) => some dist
    | .error _ => none

/-- The lines in which both `pdfs` are the same. -/
def densities (xMuDiff : List K) : Except Fault (List K) := do
  let leftFactor ← reciprocals (dist.stdDevs.map (· * f.sqrt f.twoPi))
  let z ← quotients xMuDiff dist.stdDevs
  entrywise (· * ·) leftFactor (z.map fun z => f.exp (-half * (z * z)))

def pdfs (x : List K) : Except Fault (List K) := do
  if x.length ≠ dist.means.length then
    .error (.invalidArgument "Input vector must have the same length as means.")
  else
    let xMuDiff ← entrywise (· - ·) x dist.means
    dist.densities f xMuDiff

/-- `pdfs` of one number. -/
def pdfsAt (x : K) : Except Fault (List K) := dist.densities f (dist.means.map (x - ·))

/-- The lines in which both `logLikelihoods` are the same. -/
def logDensities (xMuDiff : List K) : Except Fault (List K) := do
  let z ← quotients xMuDiff dist.stdDevs
  entrywise (· + ·) (dist.stdDevs.map fun s => -half * f.log f.twoPi - f.log s)
    (z.map fun z => -half * (z * z))

def logLikelihoods (x : List K) : Except Fault (List K) := do
  if x.length ≠ dist.means.length then
    .error (.invalidArgument "Input vector must have the same length as means.")
  else
    let xMuDiff ← entrywise (· - ·) x dist.means
    dist.logDensities f xMuDiff

/-- `logLikelihoods` of one number. -/
def logLikelihoodsAt (x : K) : Except Fault (List K) := dist.logDensities f (dist.means.map (x - ·))

/-- `int sampleSize = means_.size()`. -/
def sampleSize : Int32 := .ofNat dist.means.length

/-- A vector of a negative size is undefined. -/
def sample (generator : Generator K) (seed : UInt32) : Except Fault (List K) := do
  if dist.sampleSize < 0 then .error .undefinedBehaviour
  else
    let samples ← entrywise (· * ·) (generator.normal seed dist.sampleSize.toInt.toNat)
      dist.stdDevs
    entrywise (· + ·) samples dist.means

end IndependentVectorNormal

end Distributions

end SideProjects
