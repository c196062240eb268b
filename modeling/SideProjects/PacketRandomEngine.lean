import SideProjects.Lib.Twister
import SideProjects.MorePacketMath

/-!
# The random engine of EigenRand

`stoch-vola/model/external/EigenRand/EigenRand/PacketRandomEngine.h`. `MersenneTwister` runs one
Mersenne twister on each lane of its packets, in an array of twice the words of the state: the upper
half is refilled from the lower one, and the lower one from the upper.
`ParallelRandomEngineAdaptor` hands out the words of several engines one by one. Of the latter,
`IndependentVectorNormal::sample` (`stoch-vola/model/lib/statistics/normal_distribution.cpp`) takes
`P8_mt19937_64`, which is to yield the same numbers for every instruction set.
-/

namespace SideProjects

namespace EigenRand

open Twister (Params)

variable {Packet : Type}

/-! ## The twister on packets -/

section MersenneTwister

variable (M : PacketMath Packet) (p : Params)

structure MersenneTwister where
  state : Vector Packet (2 * p.n)
  stateIdx : ℕ
  /-- The second half of a packet, if it is `valid`. -/
  cache : Option M.HalfPacket

namespace MersenneTwister

def hMask : Word := BitVec.allOnes 64 <<< p.r

def lMask : Word := ~~~ hMask p

/-- The step of both refills. -/
def twist (x y z : Packet) : Packet :=
  let one := M.pseti64 1
  let tmp := M.por (M.pand x (M.pseti64 (hMask p))) (M.pand y (M.pseti64 (lMask p)))
  M.pxor (M.pxor (M.psrl64 1 tmp) (M.pand (M.pcmpeq64 (M.pand tmp one) one) (M.pseti64 p.a))) z

/-- `refill_upper`, the loop being over `i - _Nx`. -/
def refillUpper (state : Vector Packet (2 * p.n)) : Vector Packet (2 * p.n) :=
  Fin.foldl p.n (fun state i =>
    have := p.m_lt
    state.set (p.n + i) (twist M p state[i.val] state[i.val + 1] state[i.val + p.m])) state

/-- The first loop of `refill_lower`. -/
def refillFirst (state : Vector Packet (2 * p.n)) : Vector Packet (2 * p.n) :=
  Fin.foldl (p.n - p.m) (fun state i =>
    have := p.m_lt
    have := p.m_pos
    state.set i.val
      (twist M p state[i.val + p.n] state[i.val + p.n + 1] state[i.val + p.n + p.m])) state

/-- The second loop of `refill_lower`, over `i - (_Nx - _Mx)`. -/
def refillSecond (state : Vector Packet (2 * p.n)) : Vector Packet (2 * p.n) :=
  Fin.foldl (p.m - 1) (fun state i =>
    have := p.m_lt
    state.set (p.n - p.m + i)
      (twist M p state[p.n - p.m + i + p.n] state[p.n - p.m + i + p.n + 1] state[i.val])) state

def refillLower (state : Vector Packet (2 * p.n)) : Vector Packet (2 * p.n) :=
  have := p.m_lt
  have := p.m_pos
  let state := refillSecond M p (refillFirst M p state)
  state.set (p.n - 1) (twist M p state[p.n - 1 + p.n] state[0] state[p.m - 1])

variable {M p}

def seed (e : MersenneTwister M p) (x0 : Packet) : MersenneTwister M p :=
  have := p.n_pos
  let r := Fin.foldl (p.n - 1) (fun (r : Packet × Vector Packet (2 * p.n)) i =>
      let prev := M.pmuluadd64 (M.pxor r.1 (M.psrl64 62 r.1)) p.f (BitVec.ofNat 64 (i + 1))
      (prev, r.2.set (i + 1) prev))
    (x0, e.state.set 0 x0)
  { e with state := r.2, stateIdx := p.n }

/-- The refill before a packet is drawn. -/
def refill (e : MersenneTwister M p) : MersenneTwister M p :=
  if e.stateIdx = p.n then { e with state := refillUpper M p e.state }
  else if 2 * p.n ≤ e.stateIdx then { e with state := refillLower M p e.state, stateIdx := 0 }
  else e

theorem refill_stateIdx_lt (e : MersenneTwister M p) : e.refill.stateIdx < 2 * p.n := by
  have := p.n_pos
  unfold refill
  split_ifs
  · show e.stateIdx < _
    omega
  · show 0 < _
    omega
  · omega

def temper (M : PacketMath Packet) (p : Params) (res : Packet) : Packet :=
  let res := M.pxor res (M.pand (M.psrl64 p.u res) (M.pseti64 p.d))
  let res := M.pxor res (M.pand (M.psll64 p.s res) (M.pseti64 p.b))
  let res := M.pxor res (M.pand (M.psll64 p.t res) (M.pseti64 p.c))
  M.pxor res (M.psrl64 p.l res)

/-- `operator()`. -/
def next (e : MersenneTwister M p) : Packet × MersenneTwister M p :=
  have := e.refill_stateIdx_lt
  (temper M p e.refill.state[e.refill.stateIdx],
    { e.refill with stateIdx := e.refill.stateIdx + 1 })

def discard (e : MersenneTwister M p) : ℕ → MersenneTwister M p
  | 0 => e
  | num + 1 => discard e.next.2 num

def half (e : MersenneTwister M p) : M.HalfPacket × MersenneTwister M p :=
  match e.cache with
  | some cache => (cache, { e with cache := none })
  | none =>
    let (a, cache) := M.splitTwo e.next.1
    (a, { e.next.2 with cache := some cache })

variable (M p)

/-- The constructor from a packet. -/
def ofPacket (x0 : Packet) : MersenneTwister M p :=
  seed ⟨Vector.replicate _ (M.pseti64 0), 0, none⟩ x0

/-- The constructor from a scalar. -/
def ofScalar (x0 : Word) : MersenneTwister M p :=
  ofPacket M p (M.ploadu fun i => x0 + BitVec.ofNat 64 i)

/-! ### Calls -/

inductive Call (Packet : Type)
  | seed (x0 : Packet)
  | next
  | discard (num : ℕ)
  | half

inductive Answer (Packet HalfPacket : Type)
  | done
  | packet (res : Packet)
  | half (res : HalfPacket)

variable {M p}

def step (e : MersenneTwister M p) : Call Packet → Answer Packet M.HalfPacket × MersenneTwister M p
  | .seed x0 => (.done, e.seed x0)
  | .next => (.packet e.next.1, e.next.2)
  | .discard num => (.done, e.discard num)
  | .half => (.half e.half.1, e.half.2)

end MersenneTwister

end MersenneTwister

/-! ## Engines side by side -/

/-- `BaseRng`: an engine whose results are `stride` words. -/
structure BaseRng where
  State : Type
  Result : Type
  new : Word → State
  next : State → Result × State
  stride : ℕ
  /-- The `j`th word of a result in memory. -/
  word : Result → ℕ → Word

def mersenneTwister (M : PacketMath Packet) (p : Params) : BaseRng where
  State := MersenneTwister M p
  Result := Packet
  new := .ofScalar M p
  next := MersenneTwister.next
  stride := M.lanes
  word := M.lane

/-- `std::mersenne_twister_engine`, which is `Vmt19937_64` when nothing is vectorized: a seed, and how
many numbers have been drawn. -/
def stdMersenneTwister (p : Params) : BaseRng where
  State := Word × ℕ
  Result := Word
  new seed := (seed, 0)
  next s := (Twister.output p s.1 s.2, (s.1, s.2 + 1))
  stride := 1
  word x _ := x

/-- The values that words are taken apart into: `perWord` for each word, the lowest first. -/
structure UIntType where
  Value : Type
  perWord : ℕ
  value : Word → ℕ → Value
  perWord_pos : 0 < perWord

def uint64 : UIntType := ⟨Word, 1, fun x _ => x, by decide⟩

def uint32 : UIntType := ⟨BitVec 32, 2, fun x i => x.extractLsb' (32 * i) 32, by decide⟩

/-- The parameters of a `ParallelRandomEngineAdaptor`, with engines that share its words evenly. -/
structure Parallel where
  U : UIntType
  rng : BaseRng
  numU64 : ℕ
  pos : 0 < numU64
  dvd : rng.stride ∣ numU64

namespace Parallel

variable (P : Parallel)

def resultTypeStride : ℕ := P.rng.stride * P.U.perWord

def numParallel : ℕ := P.numU64 / P.rng.stride

def bufSize : ℕ := P.numU64 * P.U.perWord

theorem bufSize_pos : 0 < P.bufSize := Nat.mul_pos P.pos P.U.perWord_pos

end Parallel

structure ParallelRandomEngineAdaptor (P : Parallel) where
  rngs : Vector P.rng.State P.numParallel
  buf : Vector P.U.Value P.bufSize
  cnt : ℕ

namespace ParallelRandomEngineAdaptor

variable {P : Parallel}

/-- A result is written over the values from `base` on. -/
def store (buf : Vector P.U.Value P.bufSize) (base : ℕ) (x : P.rng.Result) :
    Vector P.U.Value P.bufSize :=
  .ofFn fun k =>
    if base ≤ k ∧ k < base + P.resultTypeStride then
      P.U.value (P.rng.word x ((k - base) / P.U.perWord)) ((k - base) % P.U.perWord)
    else buf[k]

def refillBuffer (a : ParallelRandomEngineAdaptor P) : ParallelRandomEngineAdaptor P :=
  let r := Fin.foldl P.numParallel
    (fun (r : Vector P.rng.State P.numParallel × Vector P.U.Value P.bufSize) i =>
      (r.1.set i (P.rng.next r.1[i]).2,
        store r.2 (i * P.resultTypeStride) (P.rng.next r.1[i]).1))
    (a.rngs, a.buf)
  ⟨r.1, r.2, 0⟩

/-- `operator()`. -/
def next (a : ParallelRandomEngineAdaptor P) : P.U.Value × ParallelRandomEngineAdaptor P :=
  if h : a.cnt < P.bufSize then (a.buf[a.cnt], { a with cnt := a.cnt + 1 })
  else
    have := P.bufSize_pos
    (a.refillBuffer.buf[0], { a.refillBuffer with cnt := 1 })

variable (P)

/-- The constructor from a seed. -/
def new (seed : Word) : ParallelRandomEngineAdaptor P where
  rngs := .ofFn fun i => P.rng.new (seed + BitVec.ofNat 64 (i * P.rng.stride))
  buf := .replicate _ (P.U.value 0 0)
  cnt := P.bufSize

end ParallelRandomEngineAdaptor

/-! ## The aliases -/

/-- The instruction sets that are told apart. -/
inductive Vectorized
  | none
  | sse2
  | sse41
  | neon
  | avx
  | avx2
  deriving DecidableEq, Repr

/-- `Vmt19937_64`. AVX alone has the packets of SSE4.1. -/
def vmt19937_64 : Vectorized → BaseRng
  | .none => stdMersenneTwister Twister.mt19937_64
  | .sse2 => mersenneTwister EigenRand.sse2 Twister.mt19937_64
  | .sse41 => mersenneTwister EigenRand.sse41 Twister.mt19937_64
  | .neon => mersenneTwister EigenRand.neon Twister.mt19937_64
  | .avx => mersenneTwister EigenRand.sse41 Twister.mt19937_64
  | .avx2 => mersenneTwister EigenRand.avx2 Twister.mt19937_64

/-- `P8_mt19937`, of which `P8_mt19937_64` is the one of `uint64`. -/
def p8_mt19937 (U : UIntType) (v : Vectorized) : Parallel where
  U := U
  rng := vmt19937_64 v
  numU64 := 8
  pos := by decide
  dvd := by cases v <;> decide

end EigenRand

end SideProjects
