import Mathlib.Algebra.Order.Floor.Semiring
import Mathlib.Data.List.Sort
import SideProjects.StochasticVolatility

/-!
# Sample statistics

`stoch-vola/model`: `mean`, `standardDeviation` and `quantile` of `utilfuns`. The values are exact.
The size of a vector is a `size_t`, a number modulo `2 ^ 64`, and what is subtracted from it becomes
one.
-/

namespace SideProjects

namespace UtilFuns

open StochasticVolatility (Fault)

variable {K : Type*} [Field K] [LinearOrder K]

def mean (data : List K) : Except Fault K :=
  if data = [] then .error (.invalidArgument "Data vector is empty.")
  else
    let sum := data.foldl (· + ·) 0
    .ok (sum / (data.length : K))

/-- `data.size() - ddof`: the `int` is made a `size_t` first. -/
def divisor (data : List K) (ddof : Int32) : UInt64 := .ofNat data.length - .ofInt ddof.toInt

def standardDeviation (sqrt : K → K) (data : List K) (ddof : Int32) : Except Fault K := do
  if ddof < 0 then
    .error (.invalidArgument "Degrees of freedom must be greater than or equal to zero.")
  else if data.length < 2 then .ok 0
  else
    let meanValue ← mean data
    let sumSquares := data.foldl (fun s x => s + (x - meanValue) * (x - meanValue)) 0
    if divisor data ddof = 0 then .error .divideByZero
    else .ok (sqrt (sumSquares / ((divisor data ddof).toNat : K)))

/-- `data[i]`. -/
def element (data : List K) (i : ℕ) : Except Fault K :=
  match data[i]? with
  | none => .error .undefinedBehaviour
  | some x => .ok x

def quantile [FloorSemiring K] (data : List K) (q : K) : Except Fault K := do
  if data = [] then .error (.invalidArgument "Data vector is empty.")
  else if q < 0 ∨ 1 < q then
    .error (.invalidArgument "Quantile must be between 0 and 1.")
  else
    let sortedData := data.insertionSort (· ≤ ·)
    let pos := q * ((sortedData.length - 1 : ℕ) : K)
    let lowerIndex := ⌊pos⌋₊
    let upperIndex := lowerIndex + 1
    let weight := pos - (lowerIndex : K)
    if sortedData.length ≤ upperIndex then element sortedData lowerIndex
    else
      let lower ← element sortedData lowerIndex
      let upper ← element sortedData upperIndex
      .ok (lower * (1 - weight) + upper * weight)

end UtilFuns

end SideProjects
