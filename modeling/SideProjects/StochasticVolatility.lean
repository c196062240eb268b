import Mathlib.Algebra.Order.Field.Basic
import Mathlib.Data.List.FinRange
import SideProjects.Lib.FloatOrder
import SideProjects.Lib.Runs

/-!
# The particle filter

`stoch-vola/model`: the distribution `IndependentVectorNormal`, the table `Particles`, and the two
loops of `StochasticVolatilityModel`, `particleFilter` and `logLikelihood`. Of the doubles only the
operations are given, with comparisons that a value may fail with itself (`FloatOrder`). Where
arithmetic is exact they are an ordered field. A matrix is the list of its columns. A size or a
counter is a natural number, with a check where the source makes it an `int` or an `unsigned int`.
The loops here count observations, particles and iterations with natural numbers, and
`StochasticVolatilityMachine` has them with their own integers. All that is allocated fits into memory.

`Env` gives what the generators draw, the elementary functions and the densities. A generator is
seeded anew each time it is used. What it then draws may be anything, also from one iteration to the
next, and no density is negative.

A method returns what it answers, or throws, and the object as it then is. Nothing is known of an object
after undefined behaviour, and it is left as it was.
-/

namespace SideProjects

namespace StochasticVolatility

inductive Fault
  | invalidArgument (what : String)
  | undefinedBehaviour
  | divideByZero
  /-- By a function of the caller. -/
  | thrown
  deriving DecidableEq, Repr

/-- The constructors refuse standard deviations unless the least one is positive. -/
structure IndependentVectorNormal (K : Type*) [Zero K] [LE K] where
  means : List K
  stdDevs : List K
  length_eq : means.length = stdDevs.length
  pos : (∀ stdDev ∈ stdDevs, stdDev ≤ stdDev) → ∀ stdDev ∈ stdDevs, ¬ stdDev ≤ 0

/-- What the code takes from outside, for each iteration. The draw at the start is that of
iteration `0`. -/
structure Env (K : Type*) [Zero K] [LE K] [LT K] where
  exp : K → K
  tanh : K → K
  /-- So many standard normal draws of a generator with this seed. -/
  normal : ℕ → UInt32 → ℕ → List K
  normal_length : ∀ t seed n, (normal t seed n).length = n
  /-- The index drawn for each column by a generator with this seed. -/
  discrete : ℕ → (weights : List K) → UInt32 → Fin weights.length → Fin weights.length
  /-- What `minCoeff` finds where an entry is not a number. -/
  nanMin : List K → K
  pdfs : ℕ → IndependentVectorNormal K → K → List K
  pdfs_length : ∀ t dist x, (pdfs t dist x).length = dist.means.length
  pdfs_nonneg : ∀ t dist x, (∀ stdDev ∈ dist.stdDevs, stdDev ≤ stdDev) → ∀ l ∈ pdfs t dist x, ¬ l < 0
  logLikelihoods : ℕ → IndependentVectorNormal K → K → List K
  logLikelihoods_length : ∀ t dist x, (logLikelihoods t dist x).length = dist.means.length

/-- The number of particles is an `unsigned int`. -/
@[ext]
structure Particles (K : Type*) where
  particleCount : ℕ
  particleLength : ℕ
  currentRow : ℕ
  columns : List (List K)
  count_lt : particleCount < 2 ^ 32
  columns_length : columns.length = particleCount
  column_length : ∀ column ∈ columns, column.length = particleLength
  deriving DecidableEq

variable {K : Type*} [Zero K] [Add K] [Sub K] [Mul K] [Div K] [NatCast K] [LE K] [LT K]
  [DecidableLE K] [DecidableLT K] [FloatOrder K]

/-! ## Distributions -/

/-- Where an entry is not a number, `minCoeff` depends on the order of its comparisons. -/
def minCoeff (nanMin : List K → K) (stdDevs : List K) : K :=
  if ∀ stdDev ∈ stdDevs, stdDev ≤ stdDev then FloatOrder.minimum stdDevs else nanMin stdDevs

omit [Add K] [Sub K] [Mul K] [Div K] [NatCast K] in
theorem minCoeff_le_iff {nanMin : List K → K} {stdDevs : List K} (hne : stdDevs ≠ [])
    (h : ∀ stdDev ∈ stdDevs, stdDev ≤ stdDev) :
    minCoeff nanMin stdDevs ≤ 0 ↔ ∃ stdDev ∈ stdDevs, stdDev ≤ 0 := by
  rw [minCoeff, if_pos h, FloatOrder.minimum_le_iff hne h]

omit [Add K] [Sub K] [Mul K] [Div K] [NatCast K] in
/-- What has passed the check is positive, if it is numbers. -/
theorem not_le_of_minCoeff {nanMin : List K → K} {stdDevs : List K}
    (hmin : ¬ minCoeff nanMin stdDevs ≤ 0) (h : ∀ stdDev ∈ stdDevs, stdDev ≤ stdDev) :
    ∀ stdDev ∈ stdDevs, ¬ stdDev ≤ 0 := fun stdDev hmem hle =>
  hmin ((minCoeff_le_iff (List.ne_nil_of_mem hmem) h).mpr ⟨stdDev, hmem, hle⟩)

namespace IndependentVectorNormal

/-- `minCoeff` of an empty vector is undefined. -/
def new (nanMin : List K → K) (means stdDevs : List K) :
    Except Fault (IndependentVectorNormal K) :=
  if hlen : means.length = stdDevs.length then
    if stdDevs.isEmpty then .error .undefinedBehaviour
    else if hmin : minCoeff nanMin stdDevs ≤ 0 then
      .error (.invalidArgument "Standard deviations must be greater than zero.")
    else .ok ⟨means, stdDevs, hlen, not_le_of_minCoeff hmin⟩
  else .error (.invalidArgument "Means and standard deviations must have the same length.")

def constant (nanMin : List K → K) (mean stdDev : K) (n : ℕ) :
    Except Fault (IndependentVectorNormal K) :=
  if n = 0 then .error .undefinedBehaviour
  else if hmin : minCoeff nanMin (.replicate n stdDev) ≤ 0 then
    .error (.invalidArgument "Standard deviation must be greater than zero.")
  else .ok ⟨.replicate n mean, .replicate n stdDev, by simp, not_le_of_minCoeff hmin⟩

/-- `int sampleSize = means_.size()`. -/
def sampleSize (dist : IndependentVectorNormal K) : Int32 := .ofNat dist.means.length

/-- A vector of a negative size is undefined, and so is an operation on vectors of different sizes. -/
def sample (env : Env K) (dist : IndependentVectorNormal K) (t : ℕ) (seed : UInt32) :
    Except Fault (List K) :=
  if 0 ≤ dist.sampleSize ∧ dist.sampleSize.toInt.toNat = dist.means.length then
    .ok (List.zipWith (· + ·) (List.zipWith (· * ·)
      (env.normal t seed dist.sampleSize.toInt.toNat) dist.stdDevs) dist.means)
  else .error .undefinedBehaviour

end IndependentVectorNormal

/-! ## The table of particles -/

namespace Particles

/-- The constructors from a vector: it is the first row. Its size becomes an `unsigned int`. -/
def ofVector (initialParticles : List K) (particleLength : ℕ) : Except Fault (Particles K) :=
  if h : particleLength ≠ 0 ∧ initialParticles.length < 2 ^ 32 then .ok
    { particleCount := initialParticles.length
      particleLength
      currentRow := 0
      columns := initialParticles.map fun x => x :: .replicate (particleLength - 1) 0
      count_lt := h.2
      columns_length := by rw [List.length_map]
      column_length := by
        intro column hcolumn
        obtain ⟨x, -, rfl⟩ := List.mem_map.mp hcolumn
        rw [List.length_cons, List.length_replicate]
        exact Nat.sub_one_add_one h.1 }
  else .error .undefinedBehaviour

/-- The constructor from a distribution: its draw is the first row. -/
def ofNormal (env : Env K) (dist : IndependentVectorNormal K) (particleLength : ℕ)
    (seed : UInt32) : Except Fault (Particles K) := do
  let samples ← dist.sample env 0 seed
  ofVector samples particleLength

/-- The rows that are read of a trace, `row < len && row < particleLength_`. As an `int` the length of
the table is negative from `2 ^ 31` on, and then no row is read. -/
def rowsRead (particleLength : ℕ) : ℕ :=
  let len : Int32 := .ofNat particleLength
  min len.toInt.toNat particleLength

/-- The constructor from a trace for each particle. It compares the number of traces with the length
of the table, and reads every trace to that length, also past its end. The `int` that counts the
columns overflows when it has counted `2 ^ 31`. -/
def ofTraces (initialParticles : List (List K)) (particleLength : ℕ) :
    Except Fault (Particles K) :=
  if particleLength < initialParticles.length then
    .error (.invalidArgument "Initial particles cannot be longer than particle length.")
  else if hne : initialParticles = [] then .error .undefinedBehaviour
  else if h : initialParticles.length < 2 ^ 31 ∧
      ∀ trace ∈ initialParticles, rowsRead particleLength ≤ trace.length then .ok
    { particleCount := initialParticles.length
      particleLength
      currentRow := (UInt32.ofNat (initialParticles.head hne).length - 1).toNat
      columns := initialParticles.map fun trace =>
        trace.take (rowsRead particleLength) ++ .replicate (particleLength - rowsRead particleLength) 0
      count_lt := by omega
      columns_length := by rw [List.length_map]
      column_length := by
        intro column hcolumn
        obtain ⟨trace, htrace, rfl⟩ := List.mem_map.mp hcolumn
        rw [List.length_append, List.length_take, List.length_replicate,
          Nat.min_eq_left (h.2 trace htrace)]
        exact Nat.add_sub_cancel' (Nat.min_le_right _ _) }
  else .error .undefinedBehaviour

/-- The constructor from a matrix of so many rows: they are the first rows. -/
def ofMatrix (rows : ℕ) (columns : List (List K)) (h : ∀ column ∈ columns, column.length = rows)
    (particleLength : ℕ) : Except Fault (Particles K) :=
  if hrows : particleLength < rows then
    .error (.invalidArgument "Initial particles cannot be longer than particle length.")
  else if hcount : columns.length < 2 ^ 32 then .ok
    { particleCount := columns.length
      particleLength
      currentRow := 0
      columns := columns.map (· ++ .replicate (particleLength - rows) 0)
      count_lt := hcount
      columns_length := by rw [List.length_map]
      column_length := by
        intro column hcolumn
        obtain ⟨c, hc, rfl⟩ := List.mem_map.mp hcolumn
        rw [List.length_append, List.length_replicate, h c hc]
        omega }
  else .error .undefinedBehaviour

/-- An entry is replaced by what `func` makes of it, unless `func` throws. -/
def transformEntry (func : K → Option K) (x : K) : Except Fault Unit × K :=
  match func x with
  | none => (.error .thrown, x)
  | some y => (.ok (), y)

/-- The entries are assigned one after the other, column by column, while `func` is applied to them. -/
def applyTransformation (particles : Particles K) (func : K → Option K) :
    Except Fault Unit × Particles K :=
  let r := updateEach (updateEach (transformEntry func)) particles.columns
  (r.1,
    { particles with
      columns := r.2
      columns_length := by rw [length_updateEach, particles.columns_length]
      column_length := forall_updateEach
        (fun column hcolumn => by rw [length_updateEach, hcolumn]) particles.column_length })

/-- `particleLength_ - 1` is unsigned, so a table without rows passes the first check. -/
def appendParticles (particles : Particles K) (newParticles : List K) :
    Except Fault Unit × Particles K :=
  if particles.particleLength ≠ 0 ∧ particles.particleLength - 1 ≤ particles.currentRow then
    (.error (.invalidArgument "Cannot append more particles."), particles)
  else if hcount : newParticles.length ≠ particles.particleCount then
    (.error (.invalidArgument
      "Number of new particles must be equal to the number of particles in the object."), particles)
  else if particles.particleLength = 0 then (.error .undefinedBehaviour, particles)
  else (.ok (),
    { particles with
      currentRow := particles.currentRow + 1
      columns := List.zipWith (fun column x => column.set (particles.currentRow + 1) x)
        particles.columns newParticles
      columns_length := by
        rw [List.length_zipWith, particles.columns_length, not_not.mp hcount, Nat.min_self]
      column_length := by
        intro column hcolumn
        obtain ⟨i, hi, rfl⟩ := List.mem_iff_getElem.mp hcolumn
        rw [List.getElem_zipWith, List.length_set]
        exact particles.column_length _ (List.getElem_mem _) })

def getLatestParticles (particles : Particles K) : Except Fault (List K) :=
  if particles.currentRow < particles.particleLength then
    .ok (particles.columns.map (·.getD particles.currentRow 0))
  else .error .undefinedBehaviour

/-- The columns are counted by an `int`, which overflows when it has counted `2 ^ 31`. -/
def resampleParticles (env : Env K) (t : ℕ) (particles : Particles K) (weights : List K)
    (seed : UInt32) : Except Fault Unit × Particles K :=
  if h : weights.length = particles.particleCount then
    if 2 ^ 31 ≤ particles.particleCount then (.error .undefinedBehaviour, particles)
    else (.ok (),
    { particles with
      columns := (List.finRange weights.length).map fun col =>
        particles.columns.get ((env.discrete t weights seed col).cast
          (h.trans particles.columns_length.symm))
      columns_length := by rw [List.length_map, List.length_finRange, h]
      column_length := by
        intro column hcolumn
        obtain ⟨col, -, rfl⟩ := List.mem_map.mp hcolumn
        exact particles.column_length _ (List.get_mem _ _) })
  else
    (.error (.invalidArgument
      "Number of weights must be equal to the number of particles in the object."), particles)

def getParticlesWithoutInit (particles : Particles K) : Except Fault (Particles K) :=
  if particles.particleLength = 1 then
    .error (.invalidArgument "Cannot remove initial particles.")
  else if particles.particleLength = 0 then .error .undefinedBehaviour
  else
    ofMatrix (particles.particleLength - 1) (particles.columns.map (·.drop 1))
      (by
        intro column hcolumn
        obtain ⟨c, hc, rfl⟩ := List.mem_map.mp hcolumn
        rw [List.length_drop, particles.column_length c hc])
      (particles.particleLength - 1)

/-- A call that changes the table. The draws of a resampling are those of iteration `t`, and a
transformation may throw. -/
inductive Call (K : Type*)
  | append (newParticles : List K)
  | resample (t : ℕ) (weights : List K) (seed : UInt32)
  | transform (func : K → Option K)

def attempt (env : Env K) (particles : Particles K) : Call K → Except Fault Unit × Particles K
  | .append newParticles => particles.appendParticles newParticles
  | .resample t weights seed => particles.resampleParticles env t weights seed
  | .transform func => particles.applyTransformation func

end Particles

/-! ## The model -/

structure StochasticVolatilityModel (K : Type*) where
  mu : K
  phi : K
  sigma : K
  deriving DecidableEq, Repr

/-- `likelihoods / lSum`. -/
def normalise (likelihoods : List K) (lSum : K) : Except Fault (List K) :=
  if lSum ≤ 0 ∧ 0 ≤ lSum then .error .divideByZero else .ok (likelihoods.map (· / lSum))

section Loops

variable (env : Env K) (model : StochasticVolatilityModel K) (y : List K) (nParticles : ℕ)
  (seed : UInt32)

/-- The particles before the first iteration, in both functions. -/
def start : Except Fault (Particles K) := do
  let dist ← IndependentVectorNormal.constant env.nanMin model.mu (env.exp model.sigma) nParticles
  Particles.ofNormal env dist (y.length + 1) seed

/-- The lines both loop bodies begin with: the particles at `t`, and the distribution of the
observation given each of them. -/
def propose (t : ℕ) (particles : Particles K) :
    Except Fault (List K × IndependentVectorNormal K) := do
  let latestParticles ← particles.getLatestParticles
  let noise ← IndependentVectorNormal.constant env.nanMin 0 (env.exp model.sigma) nParticles
  let noise ← noise.sample env t seed
  let latestParticles := List.zipWith
    (fun x e => model.mu + env.tanh model.phi * (x - model.mu) + e) latestParticles noise
  let dist ← IndependentVectorNormal.new env.nanMin (.replicate nParticles 0)
    (latestParticles.map fun x => env.exp (x / ((2 : ℕ) : K)))
  .ok (latestParticles, dist)

/-- `y[t-1]`. -/
def observation (t : ℕ) : Except Fault K :=
  match y[t - 1]? with
  | none => .error .undefinedBehaviour
  | some x => .ok x

/-- The loop body of `particleFilter`. -/
def filterStep (t : ℕ) (particles : Particles K) : Except Fault (Particles K) := do
  let (latestParticles, dist) ← propose env model nParticles seed t particles
  let x ← observation y t
  let likelihoods := env.pdfs t dist x
  let lSum := likelihoods.sum
  let particles ← uncaught (particles.appendParticles latestParticles)
  if 0 < lSum then
    let weights ← normalise likelihoods lSum
    uncaught (particles.resampleParticles env t weights seed)
  else .ok particles

/-- The particles after iteration `t` of `particleFilter`. -/
def filterAfter : ℕ → Except Fault (Particles K)
  | 0 => start env model y nParticles seed
  | t + 1 => do
    let particles ← filterAfter t
    filterStep env model y nParticles seed (t + 1) particles

/-- The loop body of `logLikelihood`. -/
def likelihoodStep (t : ℕ) (particles : Particles K) (logLikeSum : K) :
    Except Fault (Particles K × K) := do
  let (latestParticles, dist) ← propose env model nParticles seed t particles
  let x ← observation y t
  let logLikelihoods := env.logLikelihoods t dist x
  let likelihoods := logLikelihoods.map env.exp
  let lSum := likelihoods.sum
  let logLikeSum := logLikeSum + logLikelihoods.sum
  let particles ← uncaught (particles.appendParticles latestParticles)
  let weights ← normalise likelihoods lSum
  let particles ← uncaught (particles.resampleParticles env t weights seed)
  .ok (particles, logLikeSum)

/-- The particles and the sum after iteration `t` of `logLikelihood`. -/
def likelihoodAfter : ℕ → Except Fault (Particles K × K)
  | 0 => do
    let particles ← start env model y nParticles seed
    .ok (particles, 0)
  | t + 1 => do
    let (particles, logLikeSum) ← likelihoodAfter t
    likelihoodStep env model y nParticles seed (t + 1) particles logLikeSum

def logLikelihood : Except Fault K := do
  let (_, logLikeSum) ← likelihoodAfter env model y nParticles seed y.length
  if y.length * nParticles = 0 then .error .divideByZero
  else .ok (logLikeSum / ((y.length * nParticles : ℕ) : K))

end Loops

end StochasticVolatility

end SideProjects
