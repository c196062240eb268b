import Mathlib.Data.Nat.ModEq
import Mathlib.Logic.Function.Basic

/-!
# Ring buffers

A ring of `cap` slots keeps the items number `c` to `p - 1` of a stream, item `i` in slot
`i % cap`. As long as the ring has room for one more, slot `p % cap` is none of theirs.
-/

namespace Ring

/-- The slot after slot `i`. -/
def next (cap i : ℕ) : ℕ := if i + 1 = cap then 0 else i + 1

theorem next_mod {cap : ℕ} (h : 0 < cap) (i : ℕ) : next cap (i % cap) = (i + 1) % cap := by
  have hi := Nat.mod_lt i h
  rw [← Nat.mod_add_mod i cap 1]
  unfold next
  split_ifs with hn
  · rw [hn, Nat.mod_self]
  · exact (Nat.mod_eq_of_lt (by omega)).symm

theorem eq_of_mod_eq {cap i j : ℕ} (h : i % cap = j % cap) (hij : i ≤ j) (hj : j < i + cap) :
    i = j := by
  have hd : cap ∣ j - i := (Nat.modEq_iff_dvd' hij).mp h
  have := Nat.eq_zero_of_dvd_of_lt hd (by omega)
  omega

variable {β : Type*} {cap c p : ℕ} {slots item : ℕ → β}

def Holds (cap c p : ℕ) (slots item : ℕ → β) : Prop :=
  ∀ i, c ≤ i → i < p → slots (i % cap) = item i

theorem Holds.write (h : Holds cap c p slots item) (hp : p < c + cap) (x : β) :
    Holds cap c p (Function.update slots (p % cap) x) item := by
  intro i hc hi
  have hne : i % cap ≠ p % cap := fun e => by
    have := eq_of_mod_eq e hi.le (by omega)
    omega
  rw [Function.update_of_ne hne]
  exact h i hc hi

theorem Holds.push (h : Holds cap c p slots item) (hp : slots (p % cap) = item p) :
    Holds cap c (p + 1) slots item := by
  intro i hc hi
  rcases Nat.eq_or_lt_of_le (Nat.le_of_lt_succ hi) with rfl | hi
  · exact hp
  · exact h i hc hi

theorem Holds.pop (h : Holds cap c p slots item) : Holds cap (c + 1) p slots item :=
  fun i hc hi => h i (by omega) hi

theorem Holds.congr (h : Holds cap c p slots item) {f : ℕ → β} (hf : ∀ i < p, f i = item i) :
    Holds cap c p slots f :=
  fun i hc hi => (h i hc hi).trans (hf i hi).symm

end Ring
