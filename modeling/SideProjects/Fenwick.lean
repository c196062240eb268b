import Mathlib.Data.Int.Bitwise
import Mathlib.Logic.Function.Basic
import SideProjects.Lib.While

/-!
# The Fenwick tree

`algorithms-data-structures/c++/fenwick_tree/main.cpp`. The type `ι` of the indices is that of the
integers, or `Int32` where the width of `int` matters; `&` is that of two's complement. An array has
cells at some indices, and an access to any other fails. Loops are given up after `fuel` rounds.
-/

namespace SideProjects

namespace Fenwick

instance instAndOp : AndOp ℤ := ⟨Int.land⟩

abbrev Cells (ι : Type) := ι → Option ℤ

section

variable {ι : Type} [OfNat ι 0] [OfNat ι 1] [Add ι] [Sub ι] [Neg ι] [AndOp ι] [LE ι] [LT ι]
  [DecidableLE ι] [DecidableLT ι] [DecidableEq ι]

/-- The `n + 1` cells of an array. -/
def array (n : ι) (values : ι → ℤ) : Cells ι :=
  fun i => if 0 ≤ i ∧ i ≤ n then some (values i) else none

/-- The variables of `update_tree`. -/
structure Update (ι : Type) where
  index : ι
  tree : Cells ι

def Update.round (val : ℤ) (u : Update ι) : Option (Update ι) :=
  match u.tree u.index with
  | none => none
  | some x =>
    some ⟨u.index + (u.index &&& -u.index), Function.update u.tree u.index (some (x + val))⟩

def updateTree (fuel : ℕ) (tree : Cells ι) (n index : ι) (val : ℤ) : Option (Cells ι) :=
  (While.run (fun u : Update ι => u.index ≤ n) (Update.round val) fuel ⟨index + 1, tree⟩).map
    (·.tree)

/-- The variables of `get_sum`. -/
structure Query (ι : Type) where
  sum : ℤ
  index : ι

def Query.round (tree : Cells ι) (q : Query ι) : Option (Query ι) :=
  match tree q.index with
  | none => none
  | some x => some ⟨q.sum + x, q.index - (q.index &&& -q.index)⟩

def getSum (fuel : ℕ) (tree : Cells ι) (index : ι) : Option ℤ :=
  (While.run (fun q : Query ι => 0 < q.index) (Query.round tree) fuel ⟨0, index + 1⟩).map (·.sum)

end

/-- The variables of `construct_tree`. -/
structure Construct where
  tree : Cells ℤ
  i : ℤ

def Construct.round (fuel : ℕ) (arr : List ℤ) (n : ℤ) (c : Construct) : Option Construct :=
  match arr[c.i.toNat]? with
  | none => none
  | some x => (updateTree fuel c.tree n c.i x).map fun tree => ⟨tree, c.i + 1⟩

def constructTree (fuel : ℕ) (arr : List ℤ) (n : ℤ) : Option (Cells ℤ) :=
  (While.run (fun c : Construct => c.i < n) (Construct.round fuel arr n) fuel
    ⟨array n fun _ => 0, 0⟩).map (·.tree)

/-- Calls of `update_tree`, each with its index and its value. -/
def updateAll (fuel : ℕ) (n : ℤ) : List (ℤ × ℤ) → Cells ℤ → Option (Cells ℤ)
  | [], tree => some tree
  | (index, val) :: updates, tree =>
    (updateTree fuel tree n index val).bind (updateAll fuel n updates)

end Fenwick

end SideProjects
