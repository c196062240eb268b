import Mathlib.Tactic.IntervalCases
import SideProjects.Fenwick
import SideProjects.Lib.LowBit

/-!
# Updates of a Fenwick tree at 32 bits

A step that adds the lowest set bit to an index below `2 ^ 31` goes to `2 ^ 31` at most, so it
overflows exactly at the indices `2 ^ 31 - 2 ^ k`. The climb from any index below one of these gets
there, or to a smaller one of them (`add_lowBit_cases`), and if that is at most `n` then `update_tree`
takes the step. The index is negative then, which the loop does not stop at.
-/

namespace SideProjects

namespace Fenwick

/-- The states in which a call of `update_tree` tests its condition. -/
abbrev Tests (tree : Cells Int32) (n index : Int32) (val : ℤ) : Update Int32 → Prop :=
  While.Visits (fun u => u.index ≤ n) (Update.round val) ⟨index + 1, tree⟩

/-- What holds of a call of `update_tree` that stays in range: the loop ends, the cells it writes are
among the last `n` and its additions are exact. -/
structure InRange (tree : Cells Int32) (n index : Int32) (val : ℤ) : Prop where
  ends : ∃ fuel tree', updateTree fuel tree n index val = some tree'
  cells : ∀ u, Tests tree n index val u → u.index ≤ n → 1 ≤ u.index
  steps : ∀ u, Tests tree n index val u → u.index ≤ n →
    (u.index + (u.index &&& -u.index)).toInt = u.index.toInt + (u.index &&& -u.index).toInt

/-! ## Steps -/

theorem toInt_and_neg {i : Int32} {q : ℕ} (hi : i.toInt = q) (hq : 0 < q) :
    (i &&& -i).toInt = lowBit q := by
  have hlt : i.toInt < 2 ^ 31 := i.toInt_lt
  have hnat : i.toBitVec.toNat = q := by
    have := BitVec.toInt_eq_toNat_cond i.toBitVec
    rw [Int32.toInt_toBitVec, hi] at this
    split at this <;> omega
  have hand : (i &&& -i).toBitVec.toNat = lowBit q := by
    rw [Int32.toBitVec_and, Int32.toBitVec_neg, BitVec.toNat_and_neg (hnat ▸ hq), hnat]
  have hle := lowBit_le hq
  rw [← Int32.toInt_toBitVec, BitVec.toInt_eq_toNat_of_lt (by omega), hand]

/-- A step that stays below `2 ^ 31` is exact. -/
theorem toInt_climb {i : Int32} {q : ℕ} (hi : i.toInt = q) (hq : 0 < q)
    (hlt : q + lowBit q < 2 ^ 31) : (i + (i &&& -i)).toInt = (q + lowBit q : ℕ) := by
  rw [Int32.toInt_add, hi, toInt_and_neg hi hq, ← Nat.cast_add]
  exact Int.bmod_eq_of_le (by omega) (by omega)

/-- A step to `2 ^ 31` is not. -/
theorem toInt_climb_ne {i : Int32} {q : ℕ} (hi : i.toInt = q) (hq : 0 < q)
    (heq : q + lowBit q = 2 ^ 31) :
    (i + (i &&& -i)).toInt ≠ i.toInt + (i &&& -i).toInt := by
  intro h
  have hlt : (i + (i &&& -i)).toInt < 2 ^ 31 := Int32.toInt_lt _
  rw [hi, toInt_and_neg hi hq] at h
  omega

/-! ## The climb -/

/-- The cells up to `n` exist. -/
def Allocated (n : Int32) (tree : Cells Int32) : Prop :=
  ∀ i, 0 ≤ i → i ≤ n → ∃ x, tree i = some x

theorem allocated_array (n : Int32) (values : Int32 → ℤ) : Allocated n (array n values) :=
  fun i h0 hn => ⟨values i, if_pos ⟨h0, hn⟩⟩

theorem Allocated.round {n : Int32} {u : Update Int32} (h : Allocated n u.tree) (val : ℤ) {q : ℕ}
    (hq : u.index.toInt = q) (hn : u.index ≤ n) :
    ∃ u', u.round val = some u' ∧ u'.index = u.index + (u.index &&& -u.index) ∧
      Allocated n u'.tree := by
  obtain ⟨x, hx⟩ := h u.index (Int32.le_iff_toInt_le.mpr (by simp [hq])) hn
  unfold Update.round
  rw [hx]
  refine ⟨_, rfl, rfl, fun i h0 hi => ?_⟩
  by_cases hindex : i = u.index
  · exact ⟨x + val, by rw [hindex]; exact Function.update_self _ _ _⟩
  · obtain ⟨y, hy⟩ := h i h0 hi
    exact ⟨y, by dsimp only; rw [Function.update_of_ne hindex, hy]⟩

/-- In every state the cells exist and the index is above the one it started from. -/
def Above (n index : Int32) (u : Update Int32) : Prop :=
  Allocated n u.tree ∧ ∃ q : ℕ, u.index.toInt = q ∧ index.toInt < q

/-- The addition before the loop is exact. -/
theorem toInt_succ {n index : Int32} (h0 : 0 ≤ index) (hn : index < n) :
    (index + 1).toInt = (index.toInt.toNat + 1 : ℕ) := by
  have h0' : 0 ≤ index.toInt := Int32.le_iff_toInt_le.mp h0
  have hn' := Int32.lt_iff_toInt_lt.mp hn
  have hmax : n.toInt < 2 ^ 31 := n.toInt_lt
  have hone : (1 : Int32).toInt = 1 := rfl
  rw [Int32.toInt_add, hone, Int.bmod_eq_of_le (by omega) (by omega)]
  omega

/-- No index that a step overflows at is above `index` and at most `n`. -/
def Clear (n index : Int32) : Prop :=
  ∀ k < 31, ¬ (index.toInt < 2 ^ 31 - 2 ^ k ∧ 2 ^ 31 - 2 ^ k ≤ n.toInt)

theorem Clear.lt {n index : Int32} (h : Clear n index) {q : ℕ} (h0 : 0 ≤ index.toInt)
    (hq : index.toInt < q) (hn : q ≤ n.toInt) : q + lowBit q < 2 ^ 31 := by
  have hmax : n.toInt < 2 ^ 31 := n.toInt_lt
  have hpos : 0 < q := by omega
  refine lt_of_le_of_ne (add_lowBit_le hpos (by omega)) fun heq => ?_
  have hk : padicValNat 2 q < 31 :=
    (Nat.pow_lt_pow_iff_right (by decide : 1 < 2)).mp ((lowBit_le hpos).trans_lt (by omega))
  have hcast : (2 : ℤ) ^ padicValNat 2 q = lowBit q := by simp [lowBit]
  refine h _ hk ?_
  rw [hcast]
  omega

theorem Above.round {n index : Int32} (hclear : Clear n index) (h0 : 0 ≤ index) {u : Update Int32}
    (h : Above n index u) (val : ℤ) (hn : u.index ≤ n) :
    ∃ u', u.round val = some u' ∧ Above n index u' ∧ u.index.toInt < u'.index.toInt := by
  obtain ⟨halloc, q, hq, hlow⟩ := h
  have h0' : 0 ≤ index.toInt := Int32.le_iff_toInt_le.mp h0
  have hn' := Int32.le_iff_toInt_le.mp hn
  have hpos := lowBit_pos q
  obtain ⟨u', hround, hindex, halloc'⟩ := halloc.round val hq hn
  have hstep := toInt_climb hq (by omega) (hclear.lt h0' hlow (by omega))
  rw [← hindex] at hstep
  exact ⟨u', hround, ⟨halloc', q + lowBit q, hstep, by omega⟩, by omega⟩

theorem inRange_of_clear {tree : Cells Int32} {n index : Int32} (htree : Allocated n tree)
    (h0 : 0 ≤ index) (hn : index < n) (hclear : Clear n index) (val : ℤ) :
    InRange tree n index val := by
  have hstart : Above n index ⟨index + 1, tree⟩ := ⟨htree, _, toInt_succ h0 hn, by omega⟩
  have h0' : 0 ≤ index.toInt := Int32.le_iff_toInt_le.mp h0
  have habove : ∀ u, Tests tree n index val u → Above n index u := fun u hvisit => by
    refine hvisit.invariant (fun t u ht hcond hbody => ?_) hstart
    obtain ⟨u', hround, habove, -⟩ := ht.round hclear h0 val hcond
    rw [hround] at hbody
    exact Option.some.inj hbody ▸ habove
  refine ⟨?_, fun u hvisit _ => ?_, fun u hvisit hle => ?_⟩
  · obtain ⟨u, hrun, -⟩ := While.run_of_variant
      (fun u : Update Int32 => (n.toInt + 1 - u.index.toInt).toNat) (fun u hu hle => by
        obtain ⟨u', hround, habove, hlt⟩ := hu.round hclear h0 val hle
        have hle' := Int32.le_iff_toInt_le.mp hle
        exact ⟨u', hround, habove, by omega⟩) _ _ hstart (le_refl _)
    exact ⟨_, u.tree, by rw [updateTree, hrun]; rfl⟩
  · obtain ⟨-, q, hq, hlow⟩ := habove u hvisit
    have hone : (1 : Int32).toInt = 1 := rfl
    exact Int32.le_iff_toInt_le.mpr (by omega)
  · obtain ⟨-, q, hq, hlow⟩ := habove u hvisit
    have hle' := Int32.le_iff_toInt_le.mp hle
    rw [toInt_climb hq (by omega) (hclear.lt h0' hlow (by omega)), toInt_and_neg hq (by omega), hq,
      Nat.cast_add]

/-- From below an index a step overflows at, the climb overflows there or before. -/
theorem exists_overflow {tree : Cells Int32} {n index : Int32} {val : ℤ} {k : ℕ} (hk : k < 31)
    (hn : (2 ^ 31 - 2 ^ k : ℕ) ≤ n.toInt) (d : ℕ) : ∀ {u : Update Int32} {q : ℕ},
      Tests tree n index val u → Allocated n u.tree → u.index.toInt = q → 0 < q →
      q + d = 2 ^ 31 - 2 ^ k →
      ∃ v, Tests tree n index val v ∧ v.index ≤ n ∧
        (v.index + (v.index &&& -v.index)).toInt ≠ v.index.toInt + (v.index &&& -v.index).toInt := by
  induction d using Nat.strong_induction_on with
  | _ d ih =>
    intro u q hvisit halloc hq hpos hd
    have hle : u.index ≤ n := Int32.le_iff_toInt_le.mpr (by omega)
    rcases add_lowBit_cases hpos hk (by omega) with hbelow | hover
    · obtain ⟨u', hround, hindex, halloc'⟩ := halloc.round val hq hle
      have hlow := lowBit_pos q
      have hkpos := Nat.two_pow_pos k
      have hstep := toInt_climb hq hpos (by omega)
      rw [← hindex] at hstep
      exact ih (2 ^ 31 - 2 ^ k - (q + lowBit q)) (by omega) (hvisit.round hle hround) halloc' hstep
        (by omega) (by omega)
    · exact ⟨u, hvisit, hle, toInt_climb_ne hq hpos hover⟩

theorem clear_of_inRange {tree : Cells Int32} {n index : Int32} (htree : Allocated n tree)
    (h0 : 0 ≤ index) (hn : index < n) {val : ℤ} (h : InRange tree n index val) : Clear n index := by
  rintro k hk ⟨hlow, hhigh⟩
  have h0' : 0 ≤ index.toInt := Int32.le_iff_toInt_le.mp h0
  have hpow : 2 ^ k < 2 ^ 31 := Nat.pow_lt_pow_right (by decide) hk
  have hcast : ((2 ^ 31 - 2 ^ k : ℕ) : ℤ) = 2 ^ 31 - 2 ^ k := by
    rw [Nat.cast_sub hpow.le]
    simp
  rw [← hcast] at hlow hhigh
  have hstart : Tests tree n index val ⟨index + 1, tree⟩ := .start
  obtain ⟨u, hvisit, hle, hne⟩ := exists_overflow hk hhigh
    (2 ^ 31 - 2 ^ k - (index.toInt.toNat + 1)) hstart htree (toInt_succ h0 hn) (by omega) (by omega)
  exact hne (h.steps u hvisit hle)

/-- `update_tree` stays in range exactly when no index that a step overflows at is in its way. -/
theorem updateTree_inRange_iff (values : Int32 → ℤ) {n index : Int32} (h0 : 0 ≤ index)
    (hn : index < n) (val : ℤ) :
    InRange (array n values) n index val ↔
      ∀ k < 31, ¬ (index.toInt < 2 ^ 31 - 2 ^ k ∧ 2 ^ 31 - 2 ^ k ≤ n.toInt) :=
  ⟨clear_of_inRange (allocated_array n values) h0 hn,
    fun hclear => inRange_of_clear (allocated_array n values) h0 hn hclear val⟩

/-- The last index of a tree of `2 ^ 31 - 3` values. -/
theorem updateTree_inRange_iff_large :
    (0 : Int32) ≤ 2147483644 ∧ (2147483644 : Int32) < 2147483645 ∧
      InRange (array 2147483645 fun _ => 0) 2147483645 2147483644 1 := by
  refine ⟨by decide, by decide, ?_⟩
  rw [updateTree_inRange_iff _ (by decide) (by decide)]
  rintro k hk ⟨hlow, hhigh⟩
  interval_cases k <;> revert hlow hhigh <;> decide

/-- Counting in the first of `2 ^ 30` values, the climb gets to `2 ^ 30` and overflows. -/
theorem updateTree_overflows :
    (1073741824 : Int32).toInt < 2 ^ 31 - 1 ∧ (0 : Int32) ≤ 0 ∧ (0 : Int32) < 1073741824 ∧
      ¬ InRange (array 1073741824 fun _ => 0) 1073741824 0 1 := by
  refine ⟨by decide, by decide, by decide, fun h => ?_⟩
  exact clear_of_inRange (allocated_array _ _) (by decide) (by decide) h 30 (by decide) (by decide)

end Fenwick

end SideProjects
