import Mathlib.Data.Nat.Notation

/-!
# Packets of integers

`stoch-vola/model/external/EigenRand/EigenRand/arch/*/MorePacketMath.h`, as far as the random engine
goes: the operations on 64-bit lanes that each instruction set has, or that are put together from
what it has. SSE2 cannot compare 64-bit lanes, and AVX without AVX2 has no integer operations on 256
bits.
-/

namespace SideProjects

namespace EigenRand

/-- `uint64_t`. -/
abbrev Word := BitVec 64

/-- `__m128i` by its two words, or four 32-bit lanes. -/
structure Packet4i where
  w₀ : Word
  w₁ : Word
  deriving DecidableEq, Repr

namespace Packet4i

def map64 (f : Word → Word) (a : Packet4i) : Packet4i := ⟨f a.w₀, f a.w₁⟩

def zip64 (f : Word → Word → Word) (a b : Packet4i) : Packet4i := ⟨f a.w₀ b.w₀, f a.w₁ b.w₁⟩

def lane32 (a : Packet4i) : Fin 4 → BitVec 32
  | 0 => a.w₀.extractLsb' 0 32
  | 1 => a.w₀.extractLsb' 32 32
  | 2 => a.w₁.extractLsb' 0 32
  | 3 => a.w₁.extractLsb' 32 32

def ofLanes32 (f : Fin 4 → BitVec 32) : Packet4i := ⟨f 1 ++ f 0, f 3 ++ f 2⟩

end Packet4i

/-- `__m256i` by its four words. -/
structure Packet8i where
  w₀ : Word
  w₁ : Word
  w₂ : Word
  w₃ : Word
  deriving DecidableEq, Repr

namespace Packet8i

def map64 (f : Word → Word) (a : Packet8i) : Packet8i := ⟨f a.w₀, f a.w₁, f a.w₂, f a.w₃⟩

def zip64 (f : Word → Word → Word) (a b : Packet8i) : Packet8i :=
  ⟨f a.w₀ b.w₀, f a.w₁ b.w₁, f a.w₂ b.w₂, f a.w₃ b.w₃⟩

/-- `split_two`. -/
def splitTwo (x : Packet8i) : Packet4i × Packet4i := (⟨x.w₀, x.w₁⟩, ⟨x.w₂, x.w₃⟩)

/-- `combine_two`. -/
def combineTwo (a b : Packet4i) : Packet8i := ⟨a.w₀, a.w₁, b.w₀, b.w₁⟩

/-- An operation on the two halves. -/
def onHalves (f : Packet4i → Packet4i → Packet4i) (a b : Packet8i) : Packet8i :=
  combineTwo (f a.splitTwo.1 b.splitTwo.1) (f a.splitTwo.2 b.splitTwo.2)

end Packet8i

/-! ## Instructions -/

/-- What a comparison makes of a lane. -/
def compareMask (w : ℕ) (c : Bool) : BitVec w := if c then BitVec.allOnes w else 0

def cmpeqWord (x y : Word) : Word := compareMask 64 (x == y)

/-- `_mm_cmpeq_epi32`. -/
def mmCmpeqEpi32 (a b : Packet4i) : Packet4i :=
  .ofLanes32 fun i => compareMask 32 (a.lane32 i == b.lane32 i)

/-- `_mm_shuffle_epi32` with `_MM_SHUFFLE(z, y, x, w)`. -/
def mmShuffleEpi32 (a : Packet4i) (z y x w : Fin 4) : Packet4i :=
  .ofLanes32 fun
    | 0 => a.lane32 w
    | 1 => a.lane32 x
    | 2 => a.lane32 y
    | 3 => a.lane32 z

/-- `_mm_cmpeq_epi64` of SSE4.1, and `vceqq_s64` of NEON. -/
def mmCmpeqEpi64 : Packet4i → Packet4i → Packet4i := .zip64 cmpeqWord

/-! ## Instruction sets -/

/-- The operations that the engine uses. -/
structure PacketMath (Packet : Type) where
  /-- The words of a packet, half of `unpacket_traits<Packet>::size`. -/
  lanes : ℕ
  /-- The `j`th word in memory. -/
  lane : Packet → ℕ → Word
  ploadu : (ℕ → Word) → Packet
  pseti64 : Word → Packet
  pand : Packet → Packet → Packet
  por : Packet → Packet → Packet
  pxor : Packet → Packet → Packet
  psll64 : ℕ → Packet → Packet
  psrl64 : ℕ → Packet → Packet
  pcmpeq64 : Packet → Packet → Packet
  pmuluadd64 : Packet → Word → Word → Packet
  HalfPacket : Type
  splitTwo : Packet → HalfPacket × HalfPacket

/-- `Packet4i` with one of the two comparisons. -/
def packet4i (pcmpeq64 : Packet4i → Packet4i → Packet4i) : PacketMath Packet4i where
  lanes := 2
  lane
    | a, 0 => a.w₀
    | a, _ => a.w₁
  ploadu u := ⟨u 0, u 1⟩
  pseti64 a := ⟨a, a⟩
  pand := .zip64 (· &&& ·)
  por := .zip64 (· ||| ·)
  pxor := .zip64 (· ^^^ ·)
  psll64 b := .map64 (· <<< b)
  psrl64 b := .map64 (· >>> b)
  pcmpeq64 := pcmpeq64
  pmuluadd64 a b c := a.map64 (· * b + c)
  HalfPacket := Word
  splitTwo x := (x.w₀, x.w₁)

def sse2 : PacketMath Packet4i :=
  packet4i fun a b =>
    let c := mmCmpeqEpi32 a b
    c.zip64 (· &&& ·) (mmShuffleEpi32 c 2 3 0 1)

def sse41 : PacketMath Packet4i := packet4i mmCmpeqEpi64

/-- NEON defines no `split_two`, so that there is no `half` to link to. The one here is that of SSE. -/
def neon : PacketMath Packet4i := packet4i mmCmpeqEpi64

def avx2 : PacketMath Packet8i where
  lanes := 4
  lane
    | a, 0 => a.w₀
    | a, 1 => a.w₁
    | a, 2 => a.w₂
    | a, _ => a.w₃
  ploadu u := ⟨u 0, u 1, u 2, u 3⟩
  pseti64 a := ⟨a, a, a, a⟩
  pand := .zip64 (· &&& ·)
  por := .zip64 (· ||| ·)
  pxor := .zip64 (· ^^^ ·)
  psll64 b := .map64 (· <<< b)
  psrl64 b := .map64 (· >>> b)
  pcmpeq64 := .zip64 cmpeqWord
  pmuluadd64 a b c := a.map64 (· * b + c)
  HalfPacket := Packet4i
  splitTwo := Packet8i.splitTwo

/-- Without AVX2, shifts and comparisons are done on the halves. -/
def avx : PacketMath Packet8i :=
  { avx2 with
    psll64 := fun b a => .combineTwo (a.splitTwo.1.map64 (· <<< b)) (a.splitTwo.2.map64 (· <<< b))
    psrl64 := fun b a => .combineTwo (a.splitTwo.1.map64 (· >>> b)) (a.splitTwo.2.map64 (· >>> b))
    pcmpeq64 := Packet8i.onHalves mmCmpeqEpi64 }

end EigenRand

end SideProjects
