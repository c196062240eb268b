import Mathlib.Algebra.BigOperators.Group.List.Basic
import SideProjects.Fenwick
import SideProjects.Lib.LowBit

/-!
# The Fenwick tree gives prefix sums

Cell `j` holds the sum of the values from `j - lowBit j` on, up to the `j`th, so it is the difference
of two prefix sums (`Stores`). `update_tree` climbs through exactly the cells that count a value,
since `covers_iff` says which are left after each step, and `get_sum` adds differences up until
nothing is left to subtract.
-/

namespace SideProjects

namespace Fenwick

/-- The cells of a tree for `n` values whose prefix sums are `P`. -/
def Stores (n : ℕ) (P : ℕ → ℤ) (tree : Cells ℤ) : Prop :=
  ∀ j : ℕ, 0 < j → j ≤ n → tree j = some (P j - P (j - lowBit j))

/-- The prefix sums when `val` is added to value `i`. -/
def addAt (P : ℕ → ℤ) (i : ℕ) (val : ℤ) (m : ℕ) : ℤ := P m + if i < m then val else 0

theorem add_lowBit {q : ℕ} (hq : 0 < q) : (q : ℤ) + ((q : ℤ) &&& -(q : ℤ)) = (q + lowBit q : ℕ) := by
  show (q : ℤ) + Int.land q (-q) = _
  rw [Int.land_neg hq, Nat.cast_add]

theorem sub_lowBit {q : ℕ} (hq : 0 < q) : (q : ℤ) - ((q : ℤ) &&& -(q : ℤ)) = (q - lowBit q : ℕ) := by
  show (q : ℤ) - Int.land q (-q) = _
  rw [Int.land_neg hq, Nat.cast_sub (lowBit_le hq)]

/-! ## Updates -/

/-- What is in the cells so far and what the loop still adds to them is what they should hold. -/
def Climbing (n : ℕ) (P : ℕ → ℤ) (val : ℤ) (u : Update ℤ) : Prop :=
  ∃ q : ℕ, u.index = q ∧ 0 < q ∧ ∀ j : ℕ, 0 < j → j ≤ n →
    ∃ x, u.tree j = some x ∧
      x + (if q ∈ Set.Ioc (j - lowBit j) j then val else 0) = P j - P (j - lowBit j)

theorem Climbing.round {n : ℕ} {P : ℕ → ℤ} {val : ℤ} {u : Update ℤ} (h : Climbing n P val u)
    (hle : u.index ≤ n) :
    ∃ u', u.round val = some u' ∧ Climbing n P val u' ∧
      ((n : ℤ) + 1 - u'.index).toNat < ((n : ℤ) + 1 - u.index).toNat := by
  obtain ⟨q, hindex, hq, hcells⟩ := h
  have hqn : q ≤ n := by omega
  have hpos := lowBit_pos q
  obtain ⟨x, hx, hsum⟩ := hcells q hq hqn
  have hself : q ∈ Set.Ioc (q - lowBit q) q := ⟨by omega, Nat.le_refl q⟩
  rw [if_pos hself] at hsum
  unfold Update.round
  rw [hindex, hx, add_lowBit hq]
  refine ⟨_, rfl, ⟨q + lowBit q, rfl, by omega, fun j hj hjn => ?_⟩, ?_⟩
  · by_cases hjq : j = q
    · subst hjq
      have hout : j + lowBit j ∉ Set.Ioc (j - lowBit j) j := fun hmem => by
        have := hmem.2
        omega
      exact ⟨x + val, Function.update_self _ _ _, by rw [if_neg hout, add_zero, hsum]⟩
    · obtain ⟨y, hy, hsumj⟩ := hcells j hj hjn
      refine ⟨y, ?_, ?_⟩
      · dsimp only
        rw [Function.update_of_ne (by omega), hy]
      · rw [← hsumj]
        simp only [covers_iff hq hj, hjq, false_or]
  · show ((n : ℤ) + 1 - (q + lowBit q : ℕ)).toNat < ((n : ℤ) + 1 - q).toNat
    omega

/-- `update_tree` ends and adds the value to the sums that count it. -/
theorem updateTree_stores {n : ℕ} {P : ℕ → ℤ} {tree : Cells ℤ} (h : Stores n P tree) (i : ℕ)
    (val : ℤ) {fuel : ℕ} (hfuel : n ≤ fuel) :
    ∃ tree', updateTree fuel tree (n : ℤ) (i : ℤ) val = some tree' ∧
      Stores n (addAt P i val) tree' := by
  have hstart : Climbing n (addAt P i val) val ⟨(i : ℤ) + 1, tree⟩ := by
    refine ⟨i + 1, by simp, Nat.succ_pos i, fun j hj hjn => ⟨_, h j hj hjn, ?_⟩⟩
    have hle : j - lowBit j ≤ j := Nat.sub_le _ _
    simp only [addAt, Set.mem_Ioc]
    split_ifs <;> omega
  obtain ⟨u, hrun, ⟨q, hindex, hq, hcells⟩, hend⟩ :=
    While.run_of_variant (fun u : Update ℤ => ((n : ℤ) + 1 - u.index).toNat)
      (fun u hu hle => hu.round hle) fuel _ hstart (by dsimp only; omega)
  refine ⟨u.tree, by rw [updateTree, hrun]; rfl, fun j hj hjn => ?_⟩
  obtain ⟨x, hx, hsum⟩ := hcells j hj hjn
  have hout : q ∉ Set.Ioc (j - lowBit j) j := fun hmem => by
    have := hmem.2
    omega
  rw [if_neg hout, add_zero] at hsum
  rw [hx, hsum]

/-! ## Sums -/

/-- What has been added up and the prefix sum that is left make up the sum asked for. -/
def Descending (n : ℕ) (P : ℕ → ℤ) (total : ℤ) (q : Query ℤ) : Prop :=
  ∃ k : ℕ, q.index = k ∧ k ≤ n ∧ q.sum + P k = total

theorem Descending.round {n : ℕ} {P : ℕ → ℤ} {tree : Cells ℤ} (h : Stores n P tree) {total : ℤ}
    {q : Query ℤ} (hq : Descending n P total q) (hcond : 0 < q.index) :
    ∃ q', q.round tree = some q' ∧ Descending n P total q' ∧ q'.index.toNat < q.index.toNat := by
  obtain ⟨k, hindex, hk, hsum⟩ := hq
  have hkpos : 0 < k := by omega
  have hpos := lowBit_pos k
  have hle := lowBit_le hkpos
  unfold Query.round
  rw [hindex, h k hkpos hk, sub_lowBit hkpos]
  refine ⟨_, rfl, ⟨k - lowBit k, rfl, by omega, ?_⟩, ?_⟩
  · rw [← hsum]
    ring
  · show ((k - lowBit k : ℕ) : ℤ).toNat < (k : ℤ).toNat
    omega

/-- `get_sum` ends and gives the prefix sum. -/
theorem getSum_stores {n : ℕ} {P : ℕ → ℤ} {tree : Cells ℤ} (h : Stores n P tree) (hP : P 0 = 0)
    {i : ℕ} (hi : i < n) {fuel : ℕ} (hfuel : n ≤ fuel) :
    getSum fuel tree (i : ℤ) = some (P (i + 1)) := by
  have hstart : Descending n P (P (i + 1)) ⟨0, (i : ℤ) + 1⟩ := ⟨i + 1, by simp, hi, by simp⟩
  obtain ⟨q, hrun, ⟨k, hindex, -, hsum⟩, hend⟩ :=
    While.run_of_variant (fun q : Query ℤ => q.index.toNat) (fun q hq hcond => hq.round h hcond) fuel
      _ hstart (by dsimp only; omega)
  obtain rfl : k = 0 := by omega
  rw [getSum, hrun, Option.map_some, ← hsum, hP, add_zero]

/-! ## Trees -/

theorem addAt_take (arr : List ℤ) {k : ℕ} (hk : k < arr.length) :
    addAt (fun m => (arr.take (min m k)).sum) k arr[k] = fun m => (arr.take (min m (k + 1))).sum := by
  funext m
  unfold addAt
  dsimp only
  split_ifs with hm
  · rw [min_eq_right hm.le, min_eq_right hm, List.sum_take_succ arr k hk]
  · rw [min_eq_left (not_lt.mp hm), min_eq_left (by omega), add_zero]

/-- The first values have been counted. -/
def Filling (arr : List ℤ) (c : Construct) : Prop :=
  ∃ k : ℕ, c.i = k ∧ k ≤ arr.length ∧
    Stores arr.length (fun m => (arr.take (min m k)).sum) c.tree

theorem Filling.round {arr : List ℤ} {fuel : ℕ} (hfuel : arr.length ≤ fuel) {c : Construct}
    (h : Filling arr c) (hcond : c.i < arr.length) :
    ∃ c', c.round fuel arr arr.length = some c' ∧ Filling arr c' ∧
      ((arr.length : ℤ) - c'.i).toNat < ((arr.length : ℤ) - c.i).toNat := by
  obtain ⟨k, hk, -, hstores⟩ := h
  have hlt : k < arr.length := by omega
  obtain ⟨tree, htree, hstores'⟩ := updateTree_stores hstores k arr[k] hfuel
  rw [addAt_take arr hlt] at hstores'
  unfold Construct.round
  rw [hk, Int.toNat_natCast, List.getElem?_eq_getElem hlt]
  dsimp only
  rw [htree]
  refine ⟨_, rfl, ⟨k + 1, by simp, hlt, hstores'⟩, ?_⟩
  show ((arr.length : ℤ) - ((k : ℤ) + 1)).toNat < ((arr.length : ℤ) - k).toNat
  omega

theorem filling_start (arr : List ℤ) : Filling arr ⟨array (arr.length : ℤ) fun _ => 0, 0⟩ := by
  refine ⟨0, rfl, Nat.zero_le _, fun j hj hjn => ?_⟩
  simp [array, hjn]

theorem constructTree_stores (arr : List ℤ) {fuel : ℕ} (hfuel : arr.length ≤ fuel) :
    ∃ tree, constructTree fuel arr arr.length = some tree ∧
      Stores arr.length (fun m => (arr.take m).sum) tree := by
  obtain ⟨c, hrun, ⟨k, hk, hkn, hstores⟩, hend⟩ :=
    While.run_of_variant (fun c : Construct => ((arr.length : ℤ) - c.i).toNat)
      (fun c hc hcond => hc.round hfuel hcond) fuel _ (filling_start arr) (by dsimp only; omega)
  refine ⟨c.tree, by rw [constructTree, hrun]; rfl, ?_⟩
  obtain rfl : k = arr.length := by omega
  intro j hj hjn
  rw [hstores j hj hjn]
  dsimp only
  rw [min_eq_left hjn, min_eq_left ((Nat.sub_le _ _).trans hjn)]

/-- The sum of the values that updates add to values before the `m`th. -/
def added (updates : List (ℤ × ℤ)) (m : ℕ) : ℤ :=
  ((updates.filter fun u => u.1 < (m : ℤ)).map Prod.snd).sum

theorem updateAll_stores {n fuel : ℕ} (hfuel : n ≤ fuel) : ∀ {updates : List (ℤ × ℤ)} {P : ℕ → ℤ}
    {tree : Cells ℤ}, (∀ u ∈ updates, 0 ≤ u.1) → Stores n P tree →
    ∃ tree', updateAll fuel n updates tree = some tree' ∧
      Stores n (fun m => P m + added updates m) tree'
  | [], P, tree, _, h => ⟨tree, rfl, by simpa [added] using h⟩
  | (index, val) :: updates, P, tree, hnonneg, h => by
    obtain ⟨i, rfl⟩ := Int.eq_ofNat_of_zero_le (hnonneg _ List.mem_cons_self)
    obtain ⟨tree₁, htree₁, h₁⟩ := updateTree_stores h i val hfuel
    obtain ⟨tree₂, htree₂, h₂⟩ :=
      updateAll_stores hfuel (fun u hu => hnonneg u (List.mem_cons_of_mem _ hu)) h₁
    refine ⟨tree₂, by rw [updateAll, htree₁, Option.bind_some, htree₂], ?_⟩
    have hP : (fun m => addAt P i val m + added updates m) =
        fun m => P m + added (((i : ℤ), val) :: updates) m := by
      funext m
      unfold addAt added
      by_cases hm : i < m <;> simp [hm, add_assoc]
    rwa [hP] at h₂

theorem getSum_updateAll (arr : List ℤ) {updates : List (ℤ × ℤ)} (hnonneg : ∀ u ∈ updates, 0 ≤ u.1)
    {fuel : ℕ} (hfuel : arr.length ≤ fuel) :
    ∃ tree, (constructTree fuel arr arr.length).bind (updateAll fuel arr.length updates) = some tree ∧
      ∀ i : ℕ, i < arr.length → getSum fuel tree (i : ℤ) =
        some ((arr.take (i + 1)).sum + ((updates.filter fun u => u.1 ≤ (i : ℤ)).map Prod.snd).sum) := by
  obtain ⟨tree₀, htree₀, h₀⟩ := constructTree_stores arr hfuel
  obtain ⟨tree, htree, h⟩ := updateAll_stores hfuel hnonneg h₀
  refine ⟨tree, by rw [htree₀, Option.bind_some, htree], fun i hi => ?_⟩
  have hzero : (arr.take 0).sum + added updates 0 = 0 := by
    have : updates.filter (fun u => u.1 < ((0 : ℕ) : ℤ)) = [] :=
      List.filter_eq_nil_iff.mpr fun u hu => by simpa using hnonneg u hu
    rw [added, this]
    rfl
  rw [getSum_stores h hzero hi hfuel]
  simp only [added, Nat.cast_add, Nat.cast_one, Int.lt_add_one_iff]

/-- Whatever has been added, in whatever order, `get_sum` gives the sum of the first values. -/
theorem getSum_prefix (arr : List ℤ) {updates : List (ℤ × ℤ)}
    (hupdates : ∀ u ∈ updates, 0 ≤ u.1 ∧ u.1 < arr.length) {fuel : ℕ} (hfuel : arr.length ≤ fuel) :
    ∃ tree, (constructTree fuel arr arr.length).bind (updateAll fuel arr.length updates) = some tree ∧
      (∀ i : ℕ, i < arr.length → getSum fuel tree (i : ℤ) =
        some ((arr.take (i + 1)).sum + ((updates.filter fun u => u.1 ≤ (i : ℤ)).map Prod.snd).sum)) ∧
      ∀ updates' : List (ℤ × ℤ), updates'.Perm updates →
        ∃ tree', (constructTree fuel arr arr.length).bind (updateAll fuel arr.length updates') =
            some tree' ∧
          ∀ i : ℕ, i < arr.length → getSum fuel tree' (i : ℤ) = getSum fuel tree (i : ℤ) := by
  obtain ⟨tree, htree, hget⟩ := getSum_updateAll arr (fun u hu => (hupdates u hu).1) hfuel
  refine ⟨tree, htree, hget, fun updates' hperm => ?_⟩
  obtain ⟨tree', htree', hget'⟩ :=
    getSum_updateAll arr (fun u hu => (hupdates u (hperm.subset hu)).1) hfuel
  refine ⟨tree', htree', fun i hi => ?_⟩
  rw [hget i hi, hget' i hi, ((hperm.filter _).map _).sum_eq]

/-- The sum of the first six numbers of `main`, with ten added to the third. -/
theorem getSum_prefix_main :
    let freq : List ℤ := [2, 1, 1, 3, 2, 3, 4, 5, 6, 7, 8, 9]
    ∃ tree, (constructTree 12 freq 12).bind (updateAll 12 12 [(2, 10)]) = some tree ∧
      getSum 12 tree 5 = some 22 := by
  intro freq
  have hupdates : ∀ u ∈ [((2 : ℤ), (10 : ℤ))], 0 ≤ u.1 ∧ u.1 < freq.length := by decide
  obtain ⟨tree, htree, hget, -⟩ := getSum_prefix freq hupdates (le_refl 12)
  exact ⟨tree, htree, hget 5 (by decide)⟩

end Fenwick

end SideProjects
