import SideProjects.Lib.Logged
import SideProjects.StochasticVolatility

/-!
# The particle filter with its own integers

`particleFilter` and `logLikelihood` once more, with the variables of the loops as they are declared:
the numbers of observations and of particles are `unsigned int`, and so is their product. The counter
of the loop and `loopSeed` are `int`. What a loop calls has its integers checked where it is defined.
A loop notes every seed it passes on.

Weights divided by a sum of zero are whatever the doubles make of that. What is then drawn with them
is as open as it is with any other weights, and the loop goes on.
-/

namespace SideProjects

namespace StochasticVolatility

namespace Machine

inductive Generator
  | sample
  | resampleParticles
  deriving DecidableEq, Repr

/-- A seed that a loop has passed on. -/
structure Seeding where
  iteration : ℕ
  generator : Generator
  seed : UInt32
  deriving DecidableEq, Repr

/-- `for (int t=1; t<=T; t++)` after iteration `t`. The `t++` that ends an iteration is undefined
where it overflows. -/
def forAfter {σ : Type*} (body : ℕ → σ → Logged Seeding Fault σ) (s : σ) :
    ℕ → Logged Seeding Fault σ
  | 0 => .ofExcept (.ok s)
  | t + 1 => do
    let s ← forAfter body s t
    let s ← body (t + 1) s
    if t + 2 < 2 ^ 31 then .ofExcept (.ok s) else .ofExcept (.error .undefinedBehaviour)

variable {K : Type*} [Zero K] [Add K] [Sub K] [Mul K] [Div K] [NatCast K] [LE K] [LT K]
  [DecidableLE K] [DecidableLT K] [FloatOrder K]

/-- `unsigned int T = y.size()`. -/
def observations (y : List K) : UInt32 := .ofNat y.length

/-- `dist.sample(seed)`; an `int` becomes an `unsigned int` again. -/
def sample (env : Env K) (dist : IndependentVectorNormal K) (t : ℕ) (seed : Int32) :
    Logged Seeding Fault (List K) :=
  .note ⟨t, .sample, seed.toUInt32⟩ (.ofExcept (dist.sample env t seed.toUInt32))

/-- `particles.resampleParticles(weights, seed)`. -/
def resampleParticles (env : Env K) (t : ℕ) (particles : Particles K) (weights : List K)
    (seed : Int32) : Logged Seeding Fault (Particles K) :=
  .note ⟨t, .resampleParticles, seed.toUInt32⟩
    (.ofExcept (uncaught (particles.resampleParticles env t weights seed.toUInt32)))

section Loops

variable (env : Env K) (model : StochasticVolatilityModel K) (y : List K)
  (nParticles seed : UInt32) (loopSeed : Int32)

def start : Except Fault (Particles K) := do
  let dist ← IndependentVectorNormal.constant env.nanMin model.mu (env.exp model.sigma) nParticles.toNat
  Particles.ofNormal env dist (observations y + 1).toNat seed

def propose (t : ℕ) (particles : Particles K) :
    Logged Seeding Fault (List K × IndependentVectorNormal K) := do
  let latestParticles ← .ofExcept particles.getLatestParticles
  let noise ← .ofExcept
    (IndependentVectorNormal.constant env.nanMin 0 (env.exp model.sigma) nParticles.toNat)
  let noise ← sample env noise t loopSeed
  let latestParticles := List.zipWith
    (fun x e => model.mu + env.tanh model.phi * (x - model.mu) + e) latestParticles noise
  let dist ← .ofExcept (IndependentVectorNormal.new env.nanMin (.replicate nParticles.toNat 0)
    (latestParticles.map fun x => env.exp (x / ((2 : ℕ) : K))))
  .ofExcept (.ok (latestParticles, dist))

/-- The loop body of `particleFilter`. -/
def filterStep (t : ℕ) (particles : Particles K) : Logged Seeding Fault (Particles K) := do
  let (latestParticles, dist) ← propose env model nParticles loopSeed t particles
  let x ← .ofExcept (observation y t)
  let likelihoods := env.pdfs t dist x
  let lSum := likelihoods.sum
  let particles ← .ofExcept (uncaught (particles.appendParticles latestParticles))
  if 0 < lSum then
    let weights := likelihoods.map (· / lSum)
    resampleParticles env t particles weights loopSeed
  else .ofExcept (.ok particles)

/-- `particleFilter` up to its iteration `t`. Nothing is assigned to `loopSeed` after
`int loopSeed = seed`. -/
def filterAfter (t : ℕ) : Logged Seeding Fault (Particles K) := do
  let particles ← .ofExcept (start env model y nParticles seed)
  forAfter (filterStep env model y nParticles seed.toInt32) particles t

def particleFilter : Logged Seeding Fault (Particles K) := do
  let particles ← filterAfter env model y nParticles seed (observations y).toNat
  .ofExcept particles.getParticlesWithoutInit

/-- The loop body of `logLikelihood`. -/
def likelihoodStep (t : ℕ) (s : Particles K × K) : Logged Seeding Fault (Particles K × K) := do
  let (particles, logLikeSum) := s
  let (latestParticles, dist) ← propose env model nParticles loopSeed t particles
  let x ← .ofExcept (observation y t)
  let logLikelihoods := env.logLikelihoods t dist x
  let likelihoods := logLikelihoods.map env.exp
  let lSum := likelihoods.sum
  let logLikeSum := logLikeSum + logLikelihoods.sum
  let particles ← .ofExcept (uncaught (particles.appendParticles latestParticles))
  let weights := likelihoods.map (· / lSum)
  let particles ← resampleParticles env t particles weights loopSeed
  .ofExcept (.ok (particles, logLikeSum))

/-- `logLikelihood` up to its iteration `t`. Its `loopSeed` stays the same as well. -/
def likelihoodAfter (t : ℕ) : Logged Seeding Fault (Particles K × K) := do
  let particles ← .ofExcept (start env model y nParticles seed)
  forAfter (likelihoodStep env model y nParticles seed.toInt32) (particles, 0) t

/-- `T*nParticles` wraps around. -/
def logLikelihood : Logged Seeding Fault K := do
  let (_, logLikeSum) ← likelihoodAfter env model y nParticles seed (observations y).toNat
  let terms := observations y * nParticles
  .ofExcept (if terms = 0 then .error .divideByZero else .ok (logLikeSum / (terms.toNat : K)))

end Loops

end Machine

end StochasticVolatility

end SideProjects
