import SideProjects.Proofs.PacketRandomEngine

/-!
# The numbers do not depend on the instruction set

An adaptor seeds the engines so that no two lanes of theirs have the same seed. In its buffer there
is one number of each, in the order of the seeds, however the seeds are spread over engines and
lanes (`refillBuffer_holds`). So what it hands out only depends on the seed and on how many words
there are (`ParallelRandomEngineAdaptor.nthAnswer_next`), and `P8_mt19937_64` has the same numbers
with every instruction set, and with none (`p8_mt19937_interleaves`).
-/

namespace SideProjects

namespace EigenRand

open Twister (Params)

/-- Lane `j` of an engine hands out the numbers `x`, with a seed that is `j` higher. -/
def Serves (rng : BaseRng) (x : Word → ℕ → Word) : Prop :=
  ∀ seed k, ∀ j < rng.stride,
    rng.word (nthAnswer rng.next (rng.new seed) k) j = x (seed + BitVec.ofNat 64 j) k

/-! ## The engines -/

theorem nthAnswer_mersenneTwister {Packet : Type} {M : PacketMath Packet} (hM : Lanewise M)
    (p : Params) (x0 : Packet) (k : ℕ) :
    nthAnswer MersenneTwister.next (MersenneTwister.ofPacket M p x0) k =
      MersenneTwister.drawn M p x0 k := by
  refine nthAnswer_eq (MersenneTwister.drawn M p x0) (MersenneTwister.Window x0)
    (fun k e h => ?_) (MersenneTwister.seed_window _ x0) k
  obtain ⟨hpacket, hwindow, -⟩ := MersenneTwister.next_spec hM h
  exact ⟨hpacket, hwindow⟩

theorem serves_mersenneTwister {Packet : Type} {M : PacketMath Packet} (hM : Lanewise M)
    (p : Params) : Serves (mersenneTwister M p) (Twister.output p) := by
  intro seed k j hj
  show M.lane (nthAnswer MersenneTwister.next (MersenneTwister.ofPacket M p _) k) j = _
  rw [nthAnswer_mersenneTwister hM, MersenneTwister.drawn, hM.ploadu _ j hj, hM.ploadu _ j hj]

theorem serves_stdMersenneTwister (p : Params) :
    Serves (stdMersenneTwister p) (Twister.output p) := by
  intro seed k j hj
  obtain rfl : j = 0 := Nat.lt_one_iff.mp hj
  rw [BitVec.add_zero]
  refine nthAnswer_eq (Twister.output p seed) (fun k s => s = ((seed, k) : Word × ℕ)) ?_ rfl k
  rintro k _ rfl
  exact ⟨rfl, rfl⟩

/-! ## The buffer -/

namespace ParallelRandomEngineAdaptor

variable {P : Parallel} {x : Word → ℕ → Word} {seed : Word}

/-- The `k`th value of the buffer after `r + 1` refills. -/
def row (P : Parallel) (x : Word → ℕ → Word) (seed : Word) (r k : ℕ) : P.U.Value :=
  P.U.value (x (seed + BitVec.ofNat 64 (k / P.U.perWord)) r) (k % P.U.perWord)

/-- Engine `i` has been asked `r` times. -/
def Asked (x : Word → ℕ → Word) (seed : Word) (i r : ℕ) (s : P.rng.State) : Prop :=
  ∀ k, ∀ j < P.rng.stride,
    P.rng.word (nthAnswer P.rng.next s k) j = x (seed + BitVec.ofNat 64 (i * P.rng.stride + j)) (r + k)

theorem asked_new (h : Serves P.rng x) (seed : Word) (i : ℕ) :
    Asked (P := P) x seed i 0 (P.rng.new (seed + BitVec.ofNat 64 (i * P.rng.stride))) := by
  intro k j hj
  rw [h _ k j hj, Nat.zero_add, BitVec.add_assoc, BitVec.ofNat_add]

theorem Asked.next {i r : ℕ} {s : P.rng.State} (h : Asked (P := P) x seed i r s) :
    Asked (P := P) x seed i (r + 1) (P.rng.next s).2 := by
  intro k j hj
  rw [Nat.add_right_comm, Nat.add_assoc]
  exact h (k + 1) j hj

/-- What engine `i` answers has its place in the row. -/
theorem Asked.row_eq {i r : ℕ} {s : P.rng.State} (h : Asked (P := P) x seed i r s) {t : ℕ}
    (ht : t < P.resultTypeStride) :
    P.U.value (P.rng.word (P.rng.next s).1 (t / P.U.perWord)) (t % P.U.perWord) =
      row P x seed r (i * P.resultTypeStride + t) := by
  have hplace : i * P.resultTypeStride + t = P.U.perWord * (i * P.rng.stride) + t := by
    rw [Parallel.resultTypeStride, ← Nat.mul_assoc, Nat.mul_comm]
  have hlane : t / P.U.perWord < P.rng.stride :=
    Nat.div_lt_of_lt_mul (by rwa [Nat.mul_comm])
  have hword := h 0 _ hlane
  rw [nthAnswer, Nat.add_zero] at hword
  rw [row, hplace, Nat.mul_add_div P.U.perWord_pos, Nat.mul_add_mod, hword]

theorem store_getElem (buf : Vector P.U.Value P.bufSize) (base : ℕ) (y : P.rng.Result) {k : ℕ}
    (hk : k < P.bufSize) : (store buf base y)[k] =
      if base ≤ k ∧ k < base + P.resultTypeStride then
        P.U.value (P.rng.word y ((k - base) / P.U.perWord)) ((k - base) % P.U.perWord)
      else buf[k] := by
  rw [store, Vector.getElem_ofFn]
  rfl

/-- In a refill, `n` engines have been asked once more, and their answers are in the buffer. -/
structure Refilling (P : Parallel) (x : Word → ℕ → Word) (seed : Word) (r n : ℕ)
    (s : Vector P.rng.State P.numParallel × Vector P.U.Value P.bufSize) : Prop where
  asked : ∀ i, ∀ hi : i < P.numParallel, Asked x seed i (if i < n then r + 1 else r) s.1[i]
  stored : ∀ k, ∀ hk : k < P.bufSize, k < n * P.resultTypeStride → s.2[k] = row P x seed r k

/-- A refill puts the next row into the buffer. -/
theorem refillBuffer_holds {a : ParallelRandomEngineAdaptor P} {r : ℕ}
    (h : ∀ i, ∀ hi : i < P.numParallel, Asked x seed i r a.rngs[i]) :
    (∀ i, ∀ hi : i < P.numParallel, Asked x seed i (r + 1) a.refillBuffer.rngs[i]) ∧
      ∀ k, ∀ hk : k < P.bufSize, a.refillBuffer.buf[k] = row P x seed r k := by
  have hinit : Refilling P x seed r 0 (a.rngs, a.buf) :=
    ⟨fun i hi => by simpa using h i hi, fun k _ hlt => absurd hlt (by simp)⟩
  have hsize : P.numParallel * P.resultTypeStride = P.bufSize := by
    rw [Parallel.resultTypeStride, ← Nat.mul_assoc, Parallel.numParallel, Nat.div_mul_cancel P.dvd]
    rfl
  have hend : ∀ s, Refilling P x seed r P.numParallel s →
      (∀ i, ∀ hi : i < P.numParallel, Asked x seed i (r + 1) s.1[i]) ∧
        ∀ k, ∀ hk : k < P.bufSize, s.2[k] = row P x seed r k := by
    intro s hs
    refine ⟨fun i hi => ?_, fun k hk => hs.stored k hk (by rwa [hsize])⟩
    have hasked := hs.asked i hi
    rwa [if_pos hi] at hasked
  unfold refillBuffer
  refine hend _ (finFoldl_invariant (fun i s hs => ⟨fun l hl => ?_, fun k hk hlt => ?_⟩) hinit)
  · have hasked := hs.asked l hl
    by_cases hil : i = l
    · subst hil
      rw [if_neg (Nat.lt_irrefl _)] at hasked
      rw [if_pos (Nat.lt_succ_self _), Vector.getElem_set_self]
      exact hasked.next
    · rw [Vector.getElem_set_ne _ _ hil]
      simpa only [show l < i.val + 1 ↔ l < i.val by omega] using hasked
  · rw [store_getElem]
    split_ifs with hin
    · obtain ⟨t, rfl⟩ := Nat.exists_eq_add_of_le hin.1
      have hasked := hs.asked i i.isLt
      rw [if_neg (Nat.lt_irrefl _)] at hasked
      rw [Nat.add_sub_cancel_left]
      exact hasked.row_eq (by omega)
    · rw [Nat.add_mul, Nat.one_mul] at hlt
      exact hs.stored k hk (by omega)

/-! ## One number after the other -/

/-- `q` numbers have been handed out. -/
structure HandedOut (P : Parallel) (x : Word → ℕ → Word) (seed : Word) (q : ℕ)
    (a : ParallelRandomEngineAdaptor P) : Prop where
  cnt_le : a.cnt ≤ P.bufSize
  rows : ∃ r, q + P.bufSize = r * P.bufSize + a.cnt ∧
    (∀ i, ∀ hi : i < P.numParallel, Asked x seed i r a.rngs[i]) ∧
    ∀ r', r = r' + 1 → ∀ k, ∀ hk : k < P.bufSize, a.buf[k] = row P x seed r' k

theorem next_handedOut {q : ℕ} {a : ParallelRandomEngineAdaptor P} (h : HandedOut P x seed q a) :
    a.next.1 = row P x seed (q / P.bufSize) (q % P.bufSize) ∧
      HandedOut P x seed (q + 1) a.next.2 := by
  obtain ⟨hle, r, hq, hasked, hbuf⟩ := h
  have hpos := P.bufSize_pos
  unfold next
  split_ifs with hlt
  · obtain ⟨r, rfl⟩ : ∃ r', r = r' + 1 := Nat.exists_eq_succ_of_ne_zero (by rintro rfl; omega)
    have hq' : q = P.bufSize * r + a.cnt := by
      rw [Nat.add_mul, Nat.one_mul, Nat.mul_comm] at hq
      omega
    refine ⟨?_, hlt, r + 1, by dsimp only; omega, hasked, hbuf⟩
    rw [hq', Nat.mul_add_div hpos, Nat.mul_add_mod, Nat.div_eq_of_lt hlt, Nat.mod_eq_of_lt hlt]
    exact hbuf r rfl a.cnt hlt
  · obtain ⟨hasked', hbuf'⟩ := refillBuffer_holds hasked
    have hq' : q = P.bufSize * r + 0 := by
      rw [Nat.mul_comm]
      omega
    refine ⟨?_, hpos, r + 1, ?_, hasked', ?_⟩
    · rw [hq', Nat.mul_add_div hpos, Nat.mul_add_mod, Nat.zero_div, Nat.zero_mod]
      exact hbuf' 0 hpos
    · rw [Nat.add_mul, Nat.one_mul]
      dsimp only
      omega
    · intro r' hr
      obtain rfl : r = r' := Nat.succ_injective hr
      exact hbuf'

theorem new_handedOut (h : Serves P.rng x) (seed : Word) : HandedOut P x seed 0 (.new P seed) where
  cnt_le := Nat.le_refl _
  rows := by
    refine ⟨0, by rw [Nat.zero_mul]; rfl, fun i hi => ?_, fun r' hr => absurd hr (by omega)⟩
    show Asked x seed i 0 (Vector.ofFn _)[i]
    rw [Vector.getElem_ofFn]
    exact asked_new h seed i

/-- The `k`th number is of the lane, and of the round, that `k` falls into. -/
theorem nthAnswer_next (h : Serves P.rng x) (seed : Word) (k : ℕ) :
    nthAnswer next (.new P seed) k = row P x seed (k / P.bufSize) (k % P.bufSize) :=
  nthAnswer_eq _ (HandedOut P x seed) (fun _ _ => next_handedOut) (new_handedOut h seed) k

end ParallelRandomEngineAdaptor

/-! ## The aliases -/

theorem serves_vmt19937_64 (v : Vectorized) :
    Serves (vmt19937_64 v) (Twister.output Twister.mt19937_64) := by
  cases v with
  | none => exact serves_stdMersenneTwister _
  | sse2 => exact serves_mersenneTwister lanewise_sse2 _
  | sse41 => exact serves_mersenneTwister lanewise_sse41 _
  | neon => exact serves_mersenneTwister lanewise_neon _
  | avx => exact serves_mersenneTwister lanewise_sse41 _
  | avx2 => exact serves_mersenneTwister lanewise_avx2 _

/-- With every instruction set, and with none, the generator hands out the numbers of eight
`std::mt19937_64` in turn, which are seeded with the seed and the seven words after it. -/
theorem p8_mt19937_interleaves (U : UIntType) (v : Vectorized) (seed : Word) (k : ℕ) :
    nthAnswer ParallelRandomEngineAdaptor.next (.new (p8_mt19937 U v) seed) k =
      U.value (Twister.output Twister.mt19937_64
        (seed + BitVec.ofNat 64 (k / U.perWord % 8)) (k / U.perWord / 8)) (k % U.perWord) := by
  rw [ParallelRandomEngineAdaptor.nthAnswer_next (serves_vmt19937_64 v)]
  show U.value (Twister.output _ (seed + BitVec.ofNat 64 (k % (8 * U.perWord) / U.perWord))
    (k / (8 * U.perWord))) (k % (8 * U.perWord) % U.perWord) = _
  rw [Nat.mod_mul_left_mod, Nat.mod_mul_left_div_self, Nat.mul_comm 8, ← Nat.div_div_eq_div_mul]

/-- Seeds that are less than eight apart share numbers: the higher one hands out earlier what the lower
one hands out in the same round. -/
theorem p8_mt19937_64_shared (v : Vectorized) (seed : Word) {d k : ℕ} (hd : k % 8 + d < 8) :
    nthAnswer ParallelRandomEngineAdaptor.next
        (.new (p8_mt19937 uint64 v) (seed + BitVec.ofNat 64 d)) k =
      nthAnswer ParallelRandomEngineAdaptor.next (.new (p8_mt19937 uint64 v) seed) (k + d) := by
  rw [ParallelRandomEngineAdaptor.nthAnswer_next (serves_vmt19937_64 v),
    ParallelRandomEngineAdaptor.nthAnswer_next (serves_vmt19937_64 v)]
  show Twister.output _ (seed + BitVec.ofNat 64 d + BitVec.ofNat 64 (k % 8 / 1)) (k / 8) =
    Twister.output _ (seed + BitVec.ofNat 64 ((k + d) % 8 / 1)) ((k + d) / 8)
  rw [Nat.div_one, Nat.div_one, BitVec.add_assoc, ← BitVec.ofNat_add,
    show d + k % 8 = (k + d) % 8 by omega, show k / 8 = (k + d) / 8 by omega]

/-- The second number with the seed `8` is the fifth with the seed `5`. -/
theorem p8_mt19937_64_shared_three :
    nthAnswer ParallelRandomEngineAdaptor.next
        (.new (p8_mt19937 uint64 .avx2) (5 + BitVec.ofNat 64 3)) 1 =
      nthAnswer ParallelRandomEngineAdaptor.next (.new (p8_mt19937 uint64 .avx2) 5) (1 + 3) :=
  p8_mt19937_64_shared .avx2 5 (by decide)

end EigenRand

end SideProjects
