import Mathlib.Order.Lattice
import Mathlib.Data.List.Basic

/-!
# Comparing floating-point numbers

`FloatOrder` says how floating-point numbers compare: what is not a number is not even `≤` itself, and
any two numbers are comparable, also where one of them is an infinity. Two zeros may be different. A
linear order is one without the exceptions. `minimum` is what a loop of comparisons finds, and only
where all entries are numbers is it known to be the least of them (`minimum_le`). `WithNaN` adds a
value that is not a number to an order.
-/

universe u

class FloatOrder (α : Type u) [Zero α] [LE α] [LT α] : Prop where
  lt_iff : ∀ a b : α, a < b ↔ a ≤ b ∧ ¬ b ≤ a
  trans : ∀ a b c : α, a ≤ b → b ≤ c → a ≤ c
  total : ∀ a b : α, a ≤ a → b ≤ b → a ≤ b ∨ b ≤ a
  left_number : ∀ a b : α, a ≤ b → a ≤ a
  right_number : ∀ a b : α, a ≤ b → b ≤ b
  zero_number : (0 : α) ≤ 0

namespace FloatOrder

instance instLinearOrder {α : Type u} [Zero α] [LinearOrder α] : FloatOrder α where
  lt_iff _ _ := lt_iff_le_not_ge
  trans _ _ _ := le_trans
  total a b _ _ := le_total a b
  left_number _ _ _ := le_rfl
  right_number _ _ _ := le_rfl
  zero_number := le_rfl

variable {α : Type u} [Zero α] [LE α] [LT α] [FloatOrder α] {a b : α}

theorem lt_of_not_le (ha : a ≤ a) (hb : b ≤ b) (h : ¬ b ≤ a) : a < b :=
  (lt_iff a b).mpr ⟨(total a b ha hb).resolve_right h, h⟩

theorem not_le_of_lt (h : a < b) : ¬ b ≤ a := ((lt_iff a b).mp h).2

theorem right_number_of_lt (h : a < b) : b ≤ b := right_number a b ((lt_iff a b).mp h).1

/-- What is compared with zero is positive, or not a number. -/
theorem pos_iff : 0 < a ↔ a ≤ a ∧ ¬ a ≤ 0 :=
  ⟨fun h => ⟨right_number_of_lt h, not_le_of_lt h⟩, fun h => lt_of_not_le zero_number h.1 h.2⟩

/-! ## The minimum of a list -/

section minimum

variable [DecidableLT α]

/-- The entry that is left when each one is compared with the least one before it. -/
def minimumFrom (x : α) (xs : List α) : α :=
  xs.foldl (fun least x => if x < least then x else least) x

def minimum : List α → α
  | [] => 0
  | x :: xs => minimumFrom x xs

omit [Zero α] [LE α] [FloatOrder α] in
theorem minimumFrom_mem : ∀ (x : α) (xs : List α), minimumFrom x xs ∈ x :: xs
  | x, [] => List.mem_cons_self
  | x, y :: ys => by
    rw [minimumFrom, List.foldl_cons]
    split_ifs
    · exact List.mem_cons_of_mem _ (minimumFrom_mem y ys)
    · rcases List.mem_cons.mp (minimumFrom_mem x ys) with hx | hmem
      · exact List.mem_cons.mpr (.inl hx)
      · exact List.mem_cons_of_mem _ (List.mem_cons_of_mem _ hmem)

theorem minimumFrom_le : ∀ (x : α) (xs : List α), (∀ y ∈ x :: xs, y ≤ y) →
    ∀ y ∈ x :: xs, minimumFrom x xs ≤ y
  | x, [], h, y, hy => List.mem_singleton.mp hy ▸ h x List.mem_cons_self
  | x, z :: zs, h, y, hy => by
    obtain ⟨hx, hz, hzs⟩ : x ≤ x ∧ z ≤ z ∧ ∀ y ∈ zs, y ≤ y := by simpa using h
    rw [minimumFrom, List.foldl_cons]
    split_ifs with hlt
    · have hrest := minimumFrom_le z zs (List.forall_mem_cons.mpr ⟨hz, hzs⟩)
      rcases List.mem_cons.mp hy with rfl | hy
      · exact trans _ _ _ (hrest z List.mem_cons_self) ((lt_iff z y).mp hlt).1
      · exact hrest y hy
    · have hrest := minimumFrom_le x zs (List.forall_mem_cons.mpr ⟨hx, hzs⟩)
      have hxz : x ≤ z := by
        by_contra hnot
        exact hlt (lt_of_not_le hz hx hnot)
      rcases List.mem_cons.mp hy with rfl | hy
      · exact hrest y List.mem_cons_self
      · rcases List.mem_cons.mp hy with rfl | hy
        · exact trans _ _ _ (hrest x List.mem_cons_self) hxz
        · exact hrest y (List.mem_cons_of_mem _ hy)

omit [LE α] [FloatOrder α] in
theorem minimum_mem : ∀ {xs : List α}, xs ≠ [] → minimum xs ∈ xs
  | [], h => absurd rfl h
  | x :: xs, _ => minimumFrom_mem x xs

theorem minimum_le : ∀ {xs : List α}, (∀ x ∈ xs, x ≤ x) → ∀ x ∈ xs, minimum xs ≤ x
  | [], _ => by simp
  | x :: xs, h => minimumFrom_le x xs h

/-- The minimum of numbers is at most a bound if and only if one of them is. -/
theorem minimum_le_iff {xs : List α} (hne : xs ≠ []) (h : ∀ x ∈ xs, x ≤ x) :
    minimum xs ≤ a ↔ ∃ x ∈ xs, x ≤ a :=
  ⟨fun hle => ⟨_, minimum_mem hne, hle⟩,
    fun ⟨x, hx, hle⟩ => trans _ _ _ (minimum_le h x hx) hle⟩

end minimum

end FloatOrder

/-! ## A value that is not a number -/

inductive WithNaN (α : Type u)
  | nan
  | number (x : α)
  deriving DecidableEq, Repr

namespace WithNaN

variable {α : Type u}

def map₂ (op : α → α → α) : WithNaN α → WithNaN α → WithNaN α
  | number x, number y => number (op x y)
  | _, _ => nan

protected def le [LE α] : WithNaN α → WithNaN α → Prop
  | number x, number y => x ≤ y
  | _, _ => False

protected def lt [LT α] : WithNaN α → WithNaN α → Prop
  | number x, number y => x < y
  | _, _ => False

instance instZero [Zero α] : Zero (WithNaN α) := ⟨number 0⟩
instance instNatCast [NatCast α] : NatCast (WithNaN α) := ⟨fun n => number n⟩
instance instAdd [Add α] : Add (WithNaN α) := ⟨map₂ (· + ·)⟩
instance instNeg [Neg α] : Neg (WithNaN α) :=
  ⟨fun
    | number x => number (-x)
    | nan => nan⟩
instance instSub [Sub α] : Sub (WithNaN α) := ⟨map₂ (· - ·)⟩
instance instMul [Mul α] : Mul (WithNaN α) := ⟨map₂ (· * ·)⟩
instance instDiv [Div α] : Div (WithNaN α) := ⟨map₂ (· / ·)⟩
instance instLE [LE α] : LE (WithNaN α) := ⟨WithNaN.le⟩
instance instLT [LT α] : LT (WithNaN α) := ⟨WithNaN.lt⟩

instance instDecidableLE [LE α] [DecidableLE α] : DecidableLE (WithNaN α)
  | number x, number y => inferInstanceAs (Decidable (x ≤ y))
  | number _, nan => .isFalse id
  | nan, number _ => .isFalse id
  | nan, nan => .isFalse id

instance instDecidableLT [LT α] [DecidableLT α] : DecidableLT (WithNaN α)
  | number x, number y => inferInstanceAs (Decidable (x < y))
  | number _, nan => .isFalse id
  | nan, number _ => .isFalse id
  | nan, nan => .isFalse id

variable [LinearOrder α]

@[simp]
theorem not_nan_le (x : WithNaN α) : ¬ nan ≤ x := by
  cases x <;> exact id

@[simp]
theorem not_le_nan (x : WithNaN α) : ¬ x ≤ nan := by
  cases x <;> exact id

@[simp]
theorem not_nan_lt (x : WithNaN α) : ¬ nan < x := by
  cases x <;> exact id

@[simp]
theorem not_lt_nan (x : WithNaN α) : ¬ x < nan := by
  cases x <;> exact id

instance instFloatOrder [Zero α] : FloatOrder (WithNaN α) where
  lt_iff
    | number x, number y => lt_iff_le_not_ge (a := x) (b := y)
    | nan, _ => by simp
    | _, nan => by simp
  trans
    | number _, number _, number _ => le_trans (α := α)
    | nan, _, _ => fun h => absurd h (not_nan_le _)
    | _, nan, _ => fun h => absurd h (not_le_nan _)
    | _, _, nan => fun _ h => absurd h (not_le_nan _)
  total
    | number x, number y => fun _ _ => le_total x y
    | nan, _ => fun h => absurd h (not_nan_le _)
    | _, nan => fun _ h => absurd h (not_nan_le _)
  left_number
    | number x, _ => fun _ => le_refl x
    | nan, _ => fun h => absurd h (not_nan_le _)
  right_number
    | _, number y => fun _ => le_refl y
    | _, nan => fun h => absurd h (not_le_nan _)
  zero_number := le_refl (0 : α)

end WithNaN
