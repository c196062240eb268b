import Mathlib.Tactic.Common
import SideProjects.MorePacketMath

/-!
# Packets are their words

Every operation on packets is the operation on words, lane by lane (`Lanewise`), for each of the
instruction sets. Where the source makes up for an instruction that is missing, what it does instead
comes to the same (`sse2_eq_sse41`, `avx_eq_avx2`).
-/

namespace SideProjects

namespace EigenRand

/-- The operations work lane by lane, and a packet is determined by its lanes. -/
structure Lanewise {Packet : Type} (M : PacketMath Packet) : Prop where
  lanes_pos : 0 < M.lanes
  ext : ∀ {x y}, (∀ j < M.lanes, M.lane x j = M.lane y j) → x = y
  ploadu : ∀ u, ∀ j < M.lanes, M.lane (M.ploadu u) j = u j
  pseti64 : ∀ a, ∀ j < M.lanes, M.lane (M.pseti64 a) j = a
  pand : ∀ x y, ∀ j < M.lanes, M.lane (M.pand x y) j = M.lane x j &&& M.lane y j
  por : ∀ x y, ∀ j < M.lanes, M.lane (M.por x y) j = M.lane x j ||| M.lane y j
  pxor : ∀ x y, ∀ j < M.lanes, M.lane (M.pxor x y) j = M.lane x j ^^^ M.lane y j
  psll64 : ∀ b x, ∀ j < M.lanes, M.lane (M.psll64 b x) j = M.lane x j <<< b
  psrl64 : ∀ b x, ∀ j < M.lanes, M.lane (M.psrl64 b x) j = M.lane x j >>> b
  pcmpeq64 : ∀ x y, ∀ j < M.lanes, M.lane (M.pcmpeq64 x y) j = cmpeqWord (M.lane x j) (M.lane y j)
  pmuluadd64 : ∀ x b c, ∀ j < M.lanes, M.lane (M.pmuluadd64 x b c) j = M.lane x j * b + c

/-! ## Comparing 64-bit lanes with SSE2 -/

theorem append_halves (x : Word) : x.extractLsb' 32 32 ++ x.extractLsb' 0 32 = x :=
  BitVec.extractLsb'_append_extractLsb'

theorem eq_iff_halves (x y : Word) :
    x = y ↔ x.extractLsb' 32 32 = y.extractLsb' 32 32 ∧ x.extractLsb' 0 32 = y.extractLsb' 0 32 := by
  constructor
  · rintro rfl
    exact ⟨rfl, rfl⟩
  · rintro ⟨hhigh, hlow⟩
    rw [← append_halves x, ← append_halves y, hhigh, hlow]

/-- The halves are compared, and both results are needed in both. -/
theorem compareMask_halves (x y : Word) :
    let high := compareMask 32 (x.extractLsb' 32 32 == y.extractLsb' 32 32)
    let low := compareMask 32 (x.extractLsb' 0 32 == y.extractLsb' 0 32)
    (high ++ low) &&& (low ++ high) = cmpeqWord x y := by
  have hxy := eq_iff_halves x y
  by_cases hhigh : x.extractLsb' 32 32 = y.extractLsb' 32 32 <;>
    by_cases hlow : x.extractLsb' 0 32 = y.extractLsb' 0 32 <;>
      simp only [cmpeqWord, compareMask, beq_iff_eq, hxy, hhigh, hlow, and_self, and_true, and_false,
        if_true, if_false] <;> decide

theorem lane32_ofLanes32 (f : Fin 4 → BitVec 32) (i : Fin 4) :
    (Packet4i.ofLanes32 f).lane32 i = f i := by
  match i with
  | 0 => exact BitVec.extractLsb'_append_eq_right
  | 1 => exact BitVec.extractLsb'_append_eq_left
  | 2 => exact BitVec.extractLsb'_append_eq_right
  | 3 => exact BitVec.extractLsb'_append_eq_left

/-- With `_MM_SHUFFLE(2, 3, 0, 1)` the halves of each word change places. -/
theorem mmShuffleEpi32_mmCmpeqEpi32 (a b : Packet4i) :
    mmShuffleEpi32 (mmCmpeqEpi32 a b) 2 3 0 1 =
      ⟨compareMask 32 (a.lane32 0 == b.lane32 0) ++ compareMask 32 (a.lane32 1 == b.lane32 1),
        compareMask 32 (a.lane32 2 == b.lane32 2) ++ compareMask 32 (a.lane32 3 == b.lane32 3)⟩ := by
  have hlane (i : Fin 4) :
      (mmCmpeqEpi32 a b).lane32 i = compareMask 32 (a.lane32 i == b.lane32 i) :=
    lane32_ofLanes32 _ i
  rw [← hlane 0, ← hlane 1, ← hlane 2, ← hlane 3]
  rfl

theorem sse2_eq_sse41 : sse2 = sse41 := by
  refine congrArg packet4i (funext fun a => funext fun b => ?_)
  dsimp only
  rw [mmShuffleEpi32_mmCmpeqEpi32]
  exact congrArg₂ Packet4i.mk (compareMask_halves a.w₀ b.w₀) (compareMask_halves a.w₁ b.w₁)

theorem avx_eq_avx2 : avx = avx2 := rfl

/-! ## The instruction sets -/

theorem forall_lt_two {P : ℕ → Prop} (h₀ : P 0) (h₁ : P 1) : ∀ j < 2, P j
  | 0, _ => h₀
  | 1, _ => h₁

theorem forall_lt_four {P : ℕ → Prop} (h₀ : P 0) (h₁ : P 1) (h₂ : P 2) (h₃ : P 3) : ∀ j < 4, P j
  | 0, _ => h₀
  | 1, _ => h₁
  | 2, _ => h₂
  | 3, _ => h₃

theorem lanewise_sse41 : Lanewise sse41 where
  lanes_pos := by decide
  ext {x y} h := by
    have h₀ : x.w₀ = y.w₀ := h 0 (by decide)
    have h₁ : x.w₁ = y.w₁ := h 1 (by decide)
    cases x
    cases y
    exact congrArg₂ Packet4i.mk h₀ h₁
  ploadu _ := forall_lt_two rfl rfl
  pseti64 _ := forall_lt_two rfl rfl
  pand _ _ := forall_lt_two rfl rfl
  por _ _ := forall_lt_two rfl rfl
  pxor _ _ := forall_lt_two rfl rfl
  psll64 _ _ := forall_lt_two rfl rfl
  psrl64 _ _ := forall_lt_two rfl rfl
  pcmpeq64 _ _ := forall_lt_two rfl rfl
  pmuluadd64 _ _ _ := forall_lt_two rfl rfl

theorem lanewise_neon : Lanewise neon := lanewise_sse41

theorem lanewise_sse2 : Lanewise sse2 := sse2_eq_sse41 ▸ lanewise_sse41

theorem lanewise_avx2 : Lanewise avx2 where
  lanes_pos := by decide
  ext {x y} h := by
    have h₀ : x.w₀ = y.w₀ := h 0 (by decide)
    have h₁ : x.w₁ = y.w₁ := h 1 (by decide)
    have h₂ : x.w₂ = y.w₂ := h 2 (by decide)
    have h₃ : x.w₃ = y.w₃ := h 3 (by decide)
    cases x
    cases y
    exact congr (congr (congrArg₂ Packet8i.mk h₀ h₁) h₂) h₃
  ploadu _ := forall_lt_four rfl rfl rfl rfl
  pseti64 _ := forall_lt_four rfl rfl rfl rfl
  pand _ _ := forall_lt_four rfl rfl rfl rfl
  por _ _ := forall_lt_four rfl rfl rfl rfl
  pxor _ _ := forall_lt_four rfl rfl rfl rfl
  psll64 _ _ := forall_lt_four rfl rfl rfl rfl
  psrl64 _ _ := forall_lt_four rfl rfl rfl rfl
  pcmpeq64 _ _ := forall_lt_four rfl rfl rfl rfl
  pmuluadd64 _ _ _ := forall_lt_four rfl rfl rfl rfl

theorem lanewise_avx : Lanewise avx := avx_eq_avx2 ▸ lanewise_avx2

end EigenRand

end SideProjects
