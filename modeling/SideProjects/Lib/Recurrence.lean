import Mathlib.Tactic.TypeStar
import SideProjects.Lib.Runs

/-!
# Sequences from a window

A sequence may go on from its last `n` values: `x (i + n) = g (x i) (x (i + 1)) (x (i + m))`. To
compute it, it is enough to keep a window of `n` values in an array. `Holds` says that a part of the
array is a part of the sequence.
-/

namespace Recurrence

variable {α β : Type*} {n m : ℕ}

/-- The sequence that starts with `n` values of `start`. -/
def seq (hm : 0 < m) (hmn : m < n) (g : α → α → α → α) (start : ℕ → α) (i : ℕ) : α :=
  if i < n then start i
  else
    g (seq hm hmn g start (i - n)) (seq hm hmn g start (i - n + 1)) (seq hm hmn g start (i - n + m))
termination_by i

variable {hm : 0 < m} {hmn : m < n} {g : α → α → α → α} {start : ℕ → α}

theorem seq_of_lt {i : ℕ} (hi : i < n) : seq hm hmn g start i = start i := by
  rw [seq, if_pos hi]

theorem seq_add (i : ℕ) : seq hm hmn g start (i + n) =
    g (seq hm hmn g start i) (seq hm hmn g start (i + 1)) (seq hm hmn g start (i + m)) := by
  rw [seq, if_neg (by omega), Nat.add_sub_cancel]

/-- What commutes with `g` takes the sequence to a sequence. -/
theorem map_seq {g' : β → β → β → β} {f : α → β} (hg : ∀ x y z, f (g x y z) = g' (f x) (f y) (f z))
    (i : ℕ) : f (seq hm hmn g start i) = seq hm hmn g' (fun j => f (start j)) i := by
  induction i using Nat.strongRecOn with
  | ind i ih =>
    rcases Nat.lt_or_ge i n with hi | hi
    · rw [seq_of_lt hi, seq_of_lt hi]
    · obtain ⟨j, rfl⟩ := Nat.exists_eq_add_of_le' hi
      rw [seq_add, seq_add, hg, ih j (by omega), ih (j + 1) (by omega), ih (j + m) (by omega)]

/-! ## Windows -/

variable {N : ℕ}

/-- From `pos` on, the array has the `k` values of `x` from `b` on. -/
def Holds (x : ℕ → α) (v : Vector α N) (pos b k : ℕ) : Prop :=
  ∀ j < k, v[pos + j]? = some (x (b + j))

variable {x : ℕ → α} {v : Vector α N} {pos b k : ℕ}

theorem Holds.get? (h : Holds x v pos b k) {i l : ℕ} (hl : pos ≤ i ∧ i < pos + k)
    (hb : b + i = pos + l) : v[i]? = some (x l) := by
  have hv := h (i - pos) (by omega)
  rwa [show pos + (i - pos) = i by omega, show b + (i - pos) = l by omega] at hv

theorem Holds.get (h : Holds x v pos b k) {i l : ℕ} (hi : i < N) (hl : pos ≤ i ∧ i < pos + k)
    (hb : b + i = pos + l) : v[i] = x l := by
  have hv := h.get? hl hb
  rw [Vector.getElem?_eq_getElem hi] at hv
  exact Option.some.inj hv

/-- A write outside the window. -/
theorem Holds.set (h : Holds x v pos b k) {i : ℕ} {a : α} (hi : i < N)
    (hout : i < pos ∨ pos + k ≤ i) : Holds x (v.set i a) pos b k := by
  intro j hj
  rw [Vector.getElem?_set_ne hi (by omega)]
  exact h j hj

/-- The next value is written behind the window. -/
theorem Holds.push (h : Holds x v pos b k) {i : ℕ} {a : α} (hi : i < N) (hik : i = pos + k)
    (ha : a = x (b + k)) : Holds x (v.set i a) pos b (k + 1) := by
  intro j hj
  rcases Nat.lt_succ_iff_lt_or_eq.mp hj with hj | rfl
  · exact h.set hi (.inr (Nat.le_of_eq hik.symm)) j hj
  · subst hik
    rw [Vector.getElem?_set_self, ha]

theorem Holds.sub (h : Holds x v pos b k) {i l : ℕ} (hl : i + l ≤ k) :
    Holds x v (pos + i) (b + i) l := by
  intro j hj
  rw [Nat.add_assoc, Nat.add_assoc]
  exact h (i + j) (by omega)

end Recurrence
