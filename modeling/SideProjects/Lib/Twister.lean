import SideProjects.Lib.Recurrence

/-!
# The Mersenne twister

The generator `std::mersenne_twister_engine` with words of 64 bits, as the standard has it: a
sequence of words that starts with `n` words from a seed, each later word being the one `m` words
after the start of the window, xored with a twist of the first two, and tempered on its way out.
-/

namespace Twister

abbrev Word := BitVec 64

/-- The template parameters but for the word size. -/
structure Params where
  n : ℕ
  m : ℕ
  r : ℕ
  a : Word
  u : ℕ
  d : Word
  s : ℕ
  b : Word
  t : ℕ
  c : Word
  l : ℕ
  f : Word
  m_pos : 0 < m
  m_lt : m < n

variable (p : Params)

theorem Params.n_pos : 0 < p.n := Nat.lt_trans p.m_pos p.m_lt

/-- The upper bits of `x`, and the lower `r` of `y`. -/
def joined (x y : Word) : Word := ((x >>> p.r) <<< p.r) ||| (y.setWidth p.r).setWidth 64

/-- The next word, from the first two of the window and the one at `m`. -/
def twist (x y z : Word) : Word :=
  z ^^^ (joined p x y >>> 1) ^^^ (p.a * (joined p x y &&& 1))

/-- The words that a seed gives. -/
def start (seed : Word) : ℕ → Word
  | 0 => seed
  | i + 1 => p.f * (start seed i ^^^ (start seed i >>> 62)) + BitVec.ofNat 64 (i + 1)

def word (seed : Word) : ℕ → Word := Recurrence.seq p.m_pos p.m_lt (twist p) (start p seed)

def temper (x : Word) : Word :=
  let z₁ := x ^^^ ((x >>> p.u) &&& p.d)
  let z₂ := z₁ ^^^ ((z₁ <<< p.s) &&& p.b)
  let z₃ := z₂ ^^^ ((z₂ <<< p.t) &&& p.c)
  z₃ ^^^ (z₃ >>> p.l)

/-- The `k`th number, counted from 0. -/
def output (seed : Word) (k : ℕ) : Word := temper p (word p seed (p.n + k))

/-- `std::mt19937_64`. -/
def mt19937_64 : Params where
  n := 312
  m := 156
  r := 31
  a := 0xb5026f5aa96619e9
  u := 29
  d := 0x5555555555555555
  s := 17
  b := 0x71d67fffeda60000
  t := 37
  c := 0xfff7eee000000000
  l := 43
  f := 6364136223846793005
  m_pos := by decide
  m_lt := by decide

end Twister
