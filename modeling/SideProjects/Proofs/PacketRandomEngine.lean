import SideProjects.PacketRandomEngine
import SideProjects.Proofs.MorePacketMath

/-!
# The packet engine is a Mersenne twister on every lane

The two halves of the array are windows of one sequence. While one of them is handed out, it is
everything that is needed to refill the other (`Window`), so that the engine draws the words of the
sequence one by one, whatever it is asked for (`step_represents`). Over any calls it answers like a
machine that only knows the seed, how many packets have been drawn, and the half that is left
(`run_refines`).
-/

namespace SideProjects

namespace EigenRand

namespace MersenneTwister

open Twister (Params)

variable {Packet : Type} {M : PacketMath Packet} {p : Params}

/-! ## Lanes -/

theorem and_hMask (x : Word) : x &&& hMask p = (x >>> p.r) <<< p.r := by
  ext i hi
  simp only [hMask, BitVec.getElem_and, BitVec.getElem_shiftLeft, BitVec.getElem_ushiftRight,
    BitVec.getElem_allOnes]
  by_cases hr : i < p.r
  · simp [hr]
  · simp [hr, show p.r + (i - p.r) = i by omega, BitVec.getLsbD_eq_getElem hi]

theorem and_lMask (x : Word) : x &&& lMask p = (x.setWidth p.r).setWidth 64 := by
  ext i hi
  simp only [lMask, hMask, BitVec.getElem_and, BitVec.getElem_not, BitVec.getElem_shiftLeft,
    BitVec.getElem_allOnes, BitVec.getElem_setWidth, BitVec.getLsbD_setWidth]
  by_cases hr : i < p.r
  · simp [hr, BitVec.getLsbD_eq_getElem hi]
  · simp [hr]

/-- A word is masked by its parity. -/
theorem cmpeqWord_and (a y : Word) : cmpeqWord (y &&& 1) 1 &&& a = a * (y &&& 1) := by
  rw [show (1 : Word) = 1#64 from rfl, BitVec.and_one_eq_setWidth_ofBool_getLsbD]
  cases y.getLsbD 0 with
  | false => simp [cmpeqWord, compareMask]
  | true =>
    show BitVec.allOnes 64 &&& a = a * 1#64
    rw [BitVec.allOnes_and, BitVec.mul_one]

section Lanes

variable (hM : Lanewise M)

include hM

theorem lane_twist (x y z : Packet) {j : ℕ} (hj : j < M.lanes) :
    M.lane (twist M p x y z) j = Twister.twist p (M.lane x j) (M.lane y j) (M.lane z j) := by
  unfold twist Twister.twist
  dsimp only
  simp only [hM.pxor _ _ j hj, hM.psrl64 _ _ j hj, hM.pand _ _ j hj, hM.por _ _ j hj,
    hM.pcmpeq64 _ _ j hj, hM.pseti64 _ j hj, and_hMask, and_lMask, cmpeqWord_and]
  rw [BitVec.xor_comm _ (M.lane z j), ← BitVec.xor_assoc]
  rfl

theorem lane_temper (x : Packet) {j : ℕ} (hj : j < M.lanes) :
    M.lane (temper M p x) j = Twister.temper p (M.lane x j) := by
  unfold temper Twister.temper
  dsimp only
  simp only [hM.pxor _ _ j hj, hM.psrl64 _ _ j hj, hM.pand _ _ j hj, hM.psll64 _ _ j hj,
    hM.pseti64 _ j hj]

end Lanes

/-! ## The sequence of packets -/

/-- The packets that a seed gives. -/
def start (M : PacketMath Packet) (p : Params) (x0 : Packet) : ℕ → Packet
  | 0 => x0
  | i + 1 => M.pmuluadd64 (M.pxor (start M p x0 i) (M.psrl64 62 (start M p x0 i))) p.f
      (BitVec.ofNat 64 (i + 1))

def packets (M : PacketMath Packet) (p : Params) (x0 : Packet) : ℕ → Packet :=
  Recurrence.seq p.m_pos p.m_lt (twist M p) (start M p x0)

theorem lane_start (hM : Lanewise M) (x0 : Packet) {j : ℕ} (hj : j < M.lanes) :
    ∀ i, M.lane (start M p x0 i) j = Twister.start p (M.lane x0 j) i
  | 0 => rfl
  | i + 1 => by
    rw [start, Twister.start, hM.pmuluadd64 _ _ _ j hj, hM.pxor _ _ j hj, hM.psrl64 _ _ j hj,
      lane_start hM x0 hj i, BitVec.mul_comm]

theorem lane_packets (hM : Lanewise M) (x0 : Packet) {j : ℕ} (hj : j < M.lanes) (i : ℕ) :
    M.lane (packets M p x0 i) j = Twister.word p (M.lane x0 j) i := by
  unfold packets Twister.word
  rw [Recurrence.map_seq (f := fun x => M.lane x j) fun x y z => lane_twist hM x y z hj]
  exact congrArg (Recurrence.seq _ _ _ · i) (funext fun k => lane_start hM x0 hj k)

/-- The packet that is drawn as the `k`th after the seed `x0`. -/
def drawn (M : PacketMath Packet) (p : Params) (x0 : Packet) (k : ℕ) : Packet :=
  M.ploadu fun j => Twister.output p (M.lane x0 j) k

theorem temper_packets (hM : Lanewise M) (x0 : Packet) (k : ℕ) :
    temper M p (packets M p x0 (p.n + k)) = drawn M p x0 k := by
  refine hM.ext fun j hj => ?_
  rw [lane_temper hM _ hj, lane_packets hM x0 hj, drawn, hM.ploadu _ j hj]
  rfl

/-! ## Refills -/

section Refills

variable {x0 : Packet} {state : Vector Packet (2 * p.n)} {b : ℕ}

theorem packets_add (i : ℕ) : packets M p x0 (i + p.n) =
    twist M p (packets M p x0 i) (packets M p x0 (i + 1)) (packets M p x0 (i + p.m)) :=
  Recurrence.seq_add i

/-- `refill_upper` goes on from the lower half. -/
theorem refillUpper_holds (h : Recurrence.Holds (packets M p x0) state 0 b p.n) :
    Recurrence.Holds (packets M p x0) (refillUpper M p state) p.n (b + p.n) p.n := by
  have hn := p.m_lt
  have hm := p.m_pos
  have hall : Recurrence.Holds (packets M p x0) (refillUpper M p state) 0 b (p.n + p.n) := by
    unfold refillUpper
    refine finFoldl_invariant (motive := fun k state => Recurrence.Holds (packets M p x0) state 0 b
      (p.n + k)) (fun i state h => ?_) h
    have hi := i.isLt
    refine h.push (by omega) (by omega) ?_
    rw [show b + (p.n + i.val) = b + i + p.n by omega, packets_add,
      h.get (l := b + i) _ (by omega) (by omega), h.get (l := b + i + 1) _ (by omega) (by omega),
      h.get (l := b + i + p.m) _ (by omega) (by omega)]
  simpa using hall.sub (i := p.n) (l := p.n) (by omega)

/-- In `refill_lower`, `k` packets of the lower half are new. -/
def Refilling (x0 : Packet) (b k : ℕ) (state : Vector Packet (2 * p.n)) : Prop :=
  Recurrence.Holds (packets M p x0) state p.n b p.n ∧
    Recurrence.Holds (packets M p x0) state 0 (b + p.n) k

theorem refillFirst_holds (h : Refilling (M := M) x0 b 0 state) :
    Refilling (M := M) x0 b (p.n - p.m) (refillFirst M p state) := by
  unfold refillFirst
  refine finFoldl_invariant (motive := Refilling x0 b) (fun i state ⟨hu, hl⟩ => ?_) h
  have hn := p.m_lt
  have hm := p.m_pos
  have hi := i.isLt
  refine ⟨hu.set (by omega) (by omega), hl.push (by omega) (by omega) ?_⟩
  rw [show b + p.n + i.val = b + i + p.n by omega, packets_add,
    hu.get (l := b + i) _ (by omega) (by omega), hu.get (l := b + i + 1) _ (by omega) (by omega),
    hu.get (l := b + i + p.m) _ (by omega) (by omega)]

theorem refillSecond_holds (h : Refilling (M := M) x0 b (p.n - p.m) state) :
    Refilling (M := M) x0 b (p.n - 1) (refillSecond M p state) := by
  have hn := p.m_lt
  have hm := p.m_pos
  have hloop : Refilling (M := M) x0 b (p.n - p.m + (p.m - 1)) (refillSecond M p state) := by
    unfold refillSecond
    refine finFoldl_invariant (motive := fun k => Refilling x0 b (p.n - p.m + k))
      (fun i state ⟨hu, hl⟩ => ?_) h
    have hi := i.isLt
    refine ⟨hu.set (by omega) (by omega), hl.push (by omega) (by omega) ?_⟩
    rw [show b + p.n + (p.n - p.m + i.val) = b + (p.n - p.m + i) + p.n by omega, packets_add,
      hu.get (l := b + (p.n - p.m + i)) _ (by omega) (by omega),
      hu.get (l := b + (p.n - p.m + i) + 1) _ (by omega) (by omega),
      hl.get (l := b + (p.n - p.m + i) + p.m) _ (by omega) (by omega)]
  rwa [show p.n - p.m + (p.m - 1) = p.n - 1 by omega] at hloop

/-- `refill_lower` goes on from the upper half, and then from what it has written. -/
theorem refillLower_holds (h : Recurrence.Holds (packets M p x0) state p.n b p.n) :
    Recurrence.Holds (packets M p x0) (refillLower M p state) 0 (b + p.n) p.n := by
  have hn := p.m_lt
  have hm := p.m_pos
  obtain ⟨hu, hl⟩ := refillSecond_holds (refillFirst_holds ⟨h, fun j hj => absurd hj (by omega)⟩)
  have hlast : Recurrence.Holds (packets M p x0) (refillLower M p state) 0 (b + p.n)
      (p.n - 1 + 1) := by
    refine hl.push (by omega) (by omega) ?_
    rw [show b + p.n + (p.n - 1) = b + (p.n - 1) + p.n by omega, packets_add,
      hu.get (l := b + (p.n - 1)) _ (by omega) (by omega),
      hl.get (l := b + (p.n - 1) + 1) _ (by omega) (by omega),
      hl.get (l := b + (p.n - 1) + p.m) _ (by omega) (by omega)]
  rwa [show p.n - 1 + 1 = p.n by omega] at hlast

end Refills

/-! ## One packet after the other -/

/-- `k` packets have been drawn after the seed `x0`. The half that is handed out next is a window that
ends where the other is to go on, or already has. -/
def Window (x0 : Packet) (k : ℕ) (e : MersenneTwister M p) : Prop :=
  (e.stateIdx ≤ p.n ∧ ∃ b, b + e.stateIdx = k + p.n ∧
    Recurrence.Holds (packets M p x0) e.state 0 b p.n) ∨
  (p.n < e.stateIdx ∧ e.stateIdx ≤ 2 * p.n ∧ ∃ b, b + e.stateIdx = k + 2 * p.n ∧
    Recurrence.Holds (packets M p x0) e.state p.n b p.n)

variable {x0 : Packet} {k : ℕ} {e : MersenneTwister M p}

theorem seed_window (e : MersenneTwister M p) (x0 : Packet) : Window x0 0 (e.seed x0) := by
  have hn := p.n_pos
  have hstart : ∀ i < p.n, packets M p x0 i = start M p x0 i := fun i => Recurrence.seq_of_lt
  let Inv (i : ℕ) (r : Packet × Vector Packet (2 * p.n)) : Prop :=
    r.1 = start M p x0 i ∧ Recurrence.Holds (packets M p x0) r.2 0 0 (i + 1)
  have hinit : Inv 0 (x0, e.state.set 0 x0) := by
    refine ⟨rfl, fun j hj => ?_⟩
    obtain rfl : j = 0 := by omega
    rw [Vector.getElem?_set_self, hstart 0 hn]
    rfl
  have hend : ∀ r, Inv (p.n - 1) r → Recurrence.Holds (packets M p x0) r.2 0 0 p.n := by
    rintro r ⟨-, hr⟩
    rwa [Nat.sub_add_cancel hn] at hr
  refine .inl ⟨Nat.le_refl _, 0, rfl, ?_⟩
  unfold seed
  refine hend _ (finFoldl_invariant (fun i r hr => ?_) hinit)
  obtain ⟨hprev, hstate⟩ := hr
  have hnext : M.pmuluadd64 (M.pxor r.1 (M.psrl64 62 r.1)) p.f (BitVec.ofNat 64 (i + 1)) =
      start M p x0 (i + 1) := by rw [hprev, start]
  refine ⟨hnext, hstate.push (by omega) (Nat.zero_add _).symm ?_⟩
  rw [hnext, Nat.zero_add, hstart _ (by omega)]

/-- A window further on. -/
theorem window_lower {state : Vector Packet (2 * p.n)} {stateIdx b : ℕ} (cache : Option M.HalfPacket)
    (h : Recurrence.Holds (packets M p x0) state 0 b p.n) (hlt : stateIdx < p.n)
    (hb : b + stateIdx = k + p.n) : state[stateIdx]? = some (packets M p x0 (p.n + k)) ∧
      Window x0 (k + 1) ⟨state, stateIdx + 1, cache⟩ :=
  have hb' : b + (stateIdx + 1) = k + 1 + p.n := by omega
  ⟨h.get? ⟨Nat.zero_le _, by omega⟩ (by omega), .inl ⟨hlt, b, hb', h⟩⟩

theorem window_upper {state : Vector Packet (2 * p.n)} {stateIdx b : ℕ} (cache : Option M.HalfPacket)
    (h : Recurrence.Holds (packets M p x0) state p.n b p.n) (hle : p.n ≤ stateIdx)
    (hlt : stateIdx < 2 * p.n) (hb : b + stateIdx = k + 2 * p.n) :
    state[stateIdx]? = some (packets M p x0 (p.n + k)) ∧
      Window x0 (k + 1) ⟨state, stateIdx + 1, cache⟩ :=
  have hb' : b + (stateIdx + 1) = k + 1 + 2 * p.n := by omega
  ⟨h.get? (by omega) (by omega), .inr ⟨Nat.lt_succ_of_le hle, hlt, b, hb', h⟩⟩

/-- The word under the index is the next one. -/
theorem refill_window (h : Window x0 k e) :
    e.refill.state[e.refill.stateIdx]? = some (packets M p x0 (p.n + k)) ∧
      Window x0 (k + 1) { e.refill with stateIdx := e.refill.stateIdx + 1 } := by
  have hn := p.n_pos
  unfold refill
  obtain ⟨hle, b, hb, hstate⟩ | ⟨hgt, hle, b, hb, hstate⟩ := h
  · by_cases hidx : e.stateIdx = p.n
    · have hlt : e.stateIdx < 2 * p.n := by omega
      have hb' : b + p.n + e.stateIdx = k + 2 * p.n := by omega
      rw [if_pos hidx]
      exact window_upper e.cache (refillUpper_holds hstate) (Nat.le_of_eq hidx.symm) hlt hb'
    · rw [if_neg hidx, if_neg (by omega)]
      exact window_lower e.cache hstate (by omega) hb
  · rw [if_neg (by omega)]
    by_cases hidx : 2 * p.n ≤ e.stateIdx
    · have hb' : b + p.n + 0 = k + p.n := by omega
      rw [if_pos hidx]
      exact window_lower e.cache (refillLower_holds hstate) hn hb'
    · rw [if_neg hidx]
      exact window_upper e.cache hstate (by omega) (by omega) hb

theorem refill_cache (e : MersenneTwister M p) : e.refill.cache = e.cache := by
  unfold refill
  split_ifs <;> rfl

/-- The next packet is the next of the sequence. -/
theorem next_spec (hM : Lanewise M) (h : Window x0 k e) :
    e.next.1 = drawn M p x0 k ∧ Window x0 (k + 1) e.next.2 ∧ e.next.2.cache = e.cache := by
  obtain ⟨hget, hwindow⟩ := refill_window h
  refine ⟨?_, hwindow, e.refill_cache⟩
  rw [Vector.getElem?_eq_getElem e.refill_stateIdx_lt] at hget
  rw [← temper_packets hM, ← Option.some.inj hget]
  rfl

theorem discard_spec (hM : Lanewise M) : ∀ {k : ℕ} {e : MersenneTwister M p} (num : ℕ),
    Window x0 k e → Window x0 (k + num) (e.discard num) ∧ (e.discard num).cache = e.cache
  | _, _, 0, h => ⟨h, rfl⟩
  | k, e, num + 1, h => by
    obtain ⟨-, hnext, hcache⟩ := next_spec hM h
    obtain ⟨hwindow, hcache'⟩ := discard_spec hM num hnext
    rw [Nat.add_right_comm] at hwindow
    exact ⟨hwindow, hcache'.trans hcache⟩

/-! ## Any calls -/

/-- What the answers depend on: the seed, how many packets have been drawn since, and the half of one
that is left. -/
structure Drawing (M : PacketMath Packet) where
  x0 : Packet
  drawn : ℕ
  left : Option M.HalfPacket

namespace Drawing

variable (p)

/-- The packet to come. -/
def packet (d : Drawing M) : Packet := MersenneTwister.drawn M p d.x0 d.drawn

/-- A new seed leaves the half that is left from the old one. -/
def step (d : Drawing M) : Call Packet → Answer Packet M.HalfPacket × Drawing M
  | .seed x0 => (.done, { d with x0 := x0, drawn := 0 })
  | .next => (.packet (d.packet p), { d with drawn := d.drawn + 1 })
  | .discard num => (.done, { d with drawn := d.drawn + num })
  | .half =>
    match d.left with
    | some h => (.half h, { d with left := none })
    | none => (.half (M.splitTwo (d.packet p)).1,
        { d with drawn := d.drawn + 1, left := some (M.splitTwo (d.packet p)).2 })

end Drawing

/-- The engine stands for `d`. -/
structure Represents (e : MersenneTwister M p) (d : Drawing M) : Prop where
  window : Window d.x0 d.drawn e
  left : e.cache = d.left

theorem step_represents (hM : Lanewise M) {d : Drawing M} (h : Represents e d) (call : Call Packet) :
    (step e call).1 = (d.step p call).1 ∧ Represents (step e call).2 (d.step p call).2 := by
  obtain ⟨hpacket, hnext, hcache⟩ := next_spec hM h.window
  cases call with
  | seed x0 => exact ⟨rfl, seed_window e x0, h.left⟩
  | next => exact ⟨congrArg Answer.packet hpacket, hnext, hcache.trans h.left⟩
  | discard num =>
    obtain ⟨hwindow, hcache⟩ := discard_spec hM num h.window
    exact ⟨rfl, hwindow, hcache.trans h.left⟩
  | half =>
    unfold step half Drawing.step
    rw [← h.left]
    rcases hc : e.cache with _ | cache
    · dsimp only
      rw [hpacket]
      exact ⟨rfl, hnext, rfl⟩
    · exact ⟨rfl, h.window, rfl⟩

/-- Whatever is called, in any order, the engine answers with the numbers of the standard's Mersenne
twister on each lane, for the seed of the lane: an `operator()` with the next ones, and a `half` with
one half of these and then the other. -/
theorem run_refines (hM : Lanewise M) (p : Params) (x0 : Packet) (calls : List (Call Packet)) :
    (feed step (ofPacket M p x0) calls).1 =
      (feed (Drawing.step p) (⟨x0, 0, none⟩ : Drawing M) calls).1 :=
  (feed_simulates _ (fun _ _ call h => step_represents hM h call) calls
    ⟨seed_window _ x0, rfl⟩).1

/-- With AVX, a half is handed out before so many packets are discarded that both halves of the state
have been refilled, and the other half after the packet that follows. -/
theorem run_refines_halves :
    let x0 : Packet8i := ⟨5489, 5490, 5491, 5492⟩
    let packet := drawn avx Twister.mt19937_64 x0
    (feed step (ofPacket avx Twister.mt19937_64 x0) [.half, .discard 700, .next, .half]).1 =
      [.half (packet 0).splitTwo.1, .done, .packet (packet 701), .half (packet 0).splitTwo.2] :=
  run_refines lanewise_avx Twister.mt19937_64 ⟨5489, 5490, 5491, 5492⟩
    [.half, .discard 700, .next, .half]

end MersenneTwister

end EigenRand

end SideProjects
