import Mathlib.Order.Bounds.Basic
import SideProjects.MinimumStackQueue

/-!
# Suffix minima and prefix minima

The deque holds the elements that are no more than any after them (`queue_eq`): a new element drops
those that are more than it, which are at the back since the deque is sorted. The stack holds every
element with the least so far (`entries_stack`). The first of the suffix minima and the last of the
prefix minima are the same, the least of all.
-/

namespace SideProjects

namespace MinimumStackQueue

variable {α : Type*} [LinearOrder α]

/-- The elements that are no more than any after them. -/
def suffixMinima : List α → List α
  | [] => []
  | x :: xs => if ∀ y ∈ xs, x ≤ y then x :: suffixMinima xs else suffixMinima xs

/-! ## The queue -/

theorem mem_of_mem_suffixMinima : ∀ {xs : List α} {x : α}, x ∈ suffixMinima xs → x ∈ xs
  | y :: xs, x, h => by
    unfold suffixMinima at h
    split_ifs at h
    · rcases List.mem_cons.mp h with rfl | h
      · exact List.mem_cons_self
      · exact List.mem_cons_of_mem _ (mem_of_mem_suffixMinima h)
    · exact List.mem_cons_of_mem _ (mem_of_mem_suffixMinima h)

theorem suffixMinima_sorted : ∀ xs : List α, (suffixMinima xs).Pairwise (· ≤ ·)
  | [] => .nil
  | x :: xs => by
    unfold suffixMinima
    split_ifs with hx
    · exact .cons (fun y hy => hx y (mem_of_mem_suffixMinima hy)) (suffixMinima_sorted xs)
    · exact suffixMinima_sorted xs

/-- The first suffix minimum is the least of all. -/
theorem suffixMinima_head : ∀ {xs : List α}, xs ≠ [] →
    ∃ m, (suffixMinima xs).head? = some m ∧ IsLeast {x | x ∈ xs} m
  | [x], _ => ⟨x, rfl, List.mem_cons_self, fun y hy => by simp_all⟩
  | x :: y :: ys, _ => by
    obtain ⟨m, hhead, hmem, hle⟩ := suffixMinima_head (List.cons_ne_nil y ys)
    unfold suffixMinima
    split_ifs with hx
    · refine ⟨x, rfl, List.mem_cons_self, fun z hz => ?_⟩
      rcases List.mem_cons.mp hz with rfl | hz
      · exact le_rfl
      · exact hx z hz
    · refine ⟨m, hhead, List.mem_cons_of_mem _ hmem, fun z hz => ?_⟩
      rcases List.mem_cons.mp hz with rfl | hz
      · push Not at hx
        obtain ⟨w, hw, hlt⟩ := hx
        exact (hle hw).trans hlt.le
      · exact hle hz

/-- One more element keeps the suffix minima that are no more than it. -/
theorem suffixMinima_concat (x : α) : ∀ xs : List α,
    suffixMinima (xs ++ [x]) = (suffixMinima xs).filter (· ≤ x) ++ [x]
  | [] => by simp [suffixMinima]
  | y :: xs => by
    have hall : (∀ z ∈ xs ++ [x], y ≤ z) ↔ (∀ z ∈ xs, y ≤ z) ∧ y ≤ x := by
      simp only [List.mem_append, List.mem_singleton, or_imp, forall_and, forall_eq]
    rw [List.cons_append, suffixMinima, suffixMinima]
    simp only [hall, suffixMinima_concat x xs]
    by_cases hxs : ∀ z ∈ xs, y ≤ z
    · by_cases hx : y ≤ x
      · rw [if_pos ⟨hxs, hx⟩, if_pos hxs, List.filter_cons_of_pos (by simpa using hx),
          List.cons_append]
      · rw [if_neg fun h => hx h.2, if_pos hxs, List.filter_cons_of_neg (by simpa using hx)]
    · rw [if_neg fun h => hxs h.1, if_neg hxs]

/-- In a sorted deque the elements that are more than `x` are at the back. -/
theorem popGreater_eq (x : α) {q : List α} (hq : q.Pairwise (· ≤ ·)) :
    popGreater q x = q.filter (· ≤ x) := by
  induction q using List.reverseRecOn with
  | nil => rfl
  | append_singleton q back ih =>
    obtain ⟨hq', -, hback⟩ := List.pairwise_append.mp hq
    unfold popGreater at ih ⊢
    by_cases hx : x < back
    · rw [List.rdropWhile_concat_pos _ _ _ (by simpa using hx), ih hq', List.filter_append,
        List.filter_cons_of_neg (by simpa using hx), List.filter_nil, List.append_nil]
    · have hle : ∀ y ∈ q ++ [back], y ≤ x := by
        intro y hy
        rcases List.mem_append.mp hy with hy | hy
        · exact (hback y hy back List.mem_cons_self).trans (not_lt.mp hx)
        · rw [List.mem_singleton.mp hy]
          exact not_lt.mp hx
      rw [List.rdropWhile_concat_neg _ _ _ (by simpa using hx),
        List.filter_eq_self.mpr fun y hy => by simpa using hle y hy]

theorem queue_eq (xs : List α) : queue xs = suffixMinima xs := by
  induction xs using List.reverseRecOn with
  | nil => rfl
  | append_singleton xs x ih =>
    unfold queue at ih ⊢
    rw [List.foldl_concat, ih, popGreater_eq x (suffixMinima_sorted xs), suffixMinima_concat]

/-! ## The stack -/

theorem stack_concat (xs : List α) (x : α) : stack (xs ++ [x]) = push (stack xs) x := by
  rw [stack, List.foldl_concat, ← stack]

/-- A stack that holds, at every depth, an element of the list and the least of those up to it. -/
def Entries (xs : List α) (st : List (α × α)) : Prop :=
  st.length = xs.length ∧ ∀ (i : ℕ) (hi : i < xs.length),
    ∃ m, st[xs.length - 1 - i]? = some (xs[i], m) ∧ IsLeast {x | x ∈ xs.take (i + 1)} m

theorem isLeast_concat {xs : List α} {m : α} (h : IsLeast {y | y ∈ xs} m) (x : α) :
    IsLeast {y | y ∈ xs ++ [x]} (min x m) := by
  refine ⟨?_, fun y hy => ?_⟩
  · rcases le_total x m with hle | hle
    · rw [min_eq_left hle]
      exact List.mem_append_right _ List.mem_cons_self
    · rw [min_eq_right hle]
      exact List.mem_append_left _ h.1
  · rcases List.mem_append.mp hy with hy | hy
    · exact (min_le_right x m).trans (h.2 hy)
    · exact List.mem_singleton.mp hy ▸ min_le_left x m

theorem Entries.top {xs : List α} {st : List (α × α)} (h : Entries xs st) (hne : xs ≠ []) :
    ∃ x m below, st = (x, m) :: below ∧ IsLeast {y | y ∈ xs} m := by
  have hpos := List.length_pos_of_ne_nil hne
  obtain ⟨m, htop, hleast⟩ := h.2 (xs.length - 1) (by omega)
  rw [Nat.sub_self] at htop
  rw [Nat.sub_add_cancel hpos, List.take_length] at hleast
  rcases st with _ | ⟨top, below⟩
  · simp at htop
  · obtain rfl := Option.some.inj htop
    exact ⟨_, m, below, rfl, hleast⟩

/-- A push goes on top, with the least of all so far. -/
theorem Entries.push_eq {xs : List α} {st : List (α × α)} (h : Entries xs st) (x : α) :
    ∃ m, push st x = (x, m) :: st ∧ IsLeast {y | y ∈ xs ++ [x]} m := by
  rcases eq_or_ne xs [] with rfl | hne
  · obtain rfl := List.length_eq_zero_iff.mp h.1
    exact ⟨x, rfl, by simp [IsLeast, lowerBounds]⟩
  · obtain ⟨x', m, below, rfl, hleast⟩ := h.top hne
    exact ⟨min x m, rfl, isLeast_concat hleast x⟩

theorem Entries.push {xs : List α} {st : List (α × α)} (h : Entries xs st) (x : α) :
    Entries (xs ++ [x]) (push st x) := by
  obtain ⟨m, hpush, hleast⟩ := h.push_eq x
  rw [hpush]
  refine ⟨by simp [h.1], fun i hi => ?_⟩
  rw [List.length_append, List.length_singleton] at hi ⊢
  rcases Nat.lt_succ_iff_lt_or_eq.mp hi with hlt | rfl
  · obtain ⟨m', hget, hleast'⟩ := h.2 i hlt
    refine ⟨m', ?_, ?_⟩
    · rw [Nat.add_sub_cancel, show xs.length - i = xs.length - 1 - i + 1 by omega,
        List.getElem?_cons_succ, hget, List.getElem_append_left hlt]
    · rwa [List.take_append_of_le_length hlt]
  · refine ⟨m, ?_, ?_⟩
    · simp
    · rwa [List.take_of_length_le (by simp)]

theorem entries_stack (xs : List α) : Entries xs (stack xs) := by
  induction xs using List.reverseRecOn with
  | nil => exact ⟨rfl, by simp⟩
  | append_singleton xs x ih =>
    rw [stack_concat]
    exact ih.push x

/-- Both programs find the least element: the deque is sorted and holds the suffix minima, the stack
holds the prefix minima, and the front of the one is the second component on top of the other. -/
theorem minimum_agrees {xs : List α} (hne : xs ≠ []) :
    (queue xs).Pairwise (· ≤ ·) ∧ queue xs = suffixMinima xs ∧ Entries xs (stack xs) ∧
      ∃ m, IsLeast {x | x ∈ xs} m ∧ queueMinimum xs = some m ∧ stackMinimum xs = some m := by
  obtain ⟨m, hhead, hleast⟩ := suffixMinima_head hne
  obtain ⟨x, m', below, hstack, hleast'⟩ := (entries_stack xs).top hne
  obtain rfl := hleast.unique hleast'
  refine ⟨?_, queue_eq xs, entries_stack xs, m, hleast, ?_, ?_⟩
  · rw [queue_eq]
    exact suffixMinima_sorted xs
  · rw [queueMinimum, queue_eq, hhead]
  · rw [stackMinimum, hstack]
    rfl

/-- Ties are kept. -/
theorem minimum_agrees_ties : queue [3, 1, 2, 1, 4] = [1, 1, 4] ∧
    stack [3, 1, 2, 1, 4] = [(4, 1), (1, 1), (2, 1), (1, 1), (3, 3)] ∧
      ∃ m : ℤ, queueMinimum [3, 1, 2, 1, 4] = some m ∧ stackMinimum [3, 1, 2, 1, 4] = some m := by
  obtain ⟨-, -, -, m, -, hqueue, hstack⟩ :=
    minimum_agrees (List.cons_ne_nil (3 : ℤ) [1, 2, 1, 4])
  exact ⟨by decide, by decide, m, hqueue, hstack⟩

end MinimumStackQueue

end SideProjects
