import Mathlib.Order.Filter.AtTopBot.Basic
import Mathlib.Order.RelClasses

/-!
# Fair schedules

An endless schedule gives one party after the other a step. Safety is about the states after its first
`n` steps; that something comes about needs the parties to get their turn again and again.

The rule for it is that of a helpful party (`reaches_of_helpful`): a step never raises the measure, in
a state that is not yet the one looked for some party is helpful, the steps of a helpful party lower
the measure, and those of the others leave it helpful unless they lower the measure themselves. Where
a step that does not lower the measure changes nothing at all, every party that can move is helpful
(`reaches_of_movable`).
-/

namespace Fair

variable {σ ι κ W : Type*} {step : σ → ι → σ}

/-- The first `n` steps of a schedule. -/
def first (schedule : ℕ → ι) (n : ℕ) : List ι := (List.range n).map schedule

@[simp]
theorem first_zero (schedule : ℕ → ι) : first schedule 0 = [] := rfl

theorem foldl_first_succ (step : σ → ι → σ) (schedule : ℕ → ι) (n : ℕ) (s : σ) :
    (first schedule (n + 1)).foldl step s =
      step ((first schedule n).foldl step s) (schedule n) := by
  simp [first, List.range_succ]

/-- The turn of `p` comes again and again, `owner` being the party that takes a step. -/
def Recurs (owner : ι → κ) (schedule : ℕ → ι) (p : κ) : Prop :=
  ∃ᶠ n in Filter.atTop, owner (schedule n) = p

/-- What all steps keep still holds later. -/
theorem invariant_later (Inv : σ → Prop) (keeps : ∀ s i, Inv s → Inv (step s i)) {s : σ}
    {schedule : ℕ → ι} {m : ℕ} (hs : Inv ((first schedule m).foldl step s)) : ∀ {n : ℕ}, m ≤ n →
    Inv ((first schedule n).foldl step s)
  | n, hmn => by
    induction n, hmn using Nat.le_induction with
    | base => exact hs
    | succ n _ ih =>
      rw [foldl_first_succ]
      exact keeps _ _ ih

section Helpful

variable [Preorder W] [WellFoundedLT W] (Inv Done : σ → Prop) (measure : σ → W)
  (Helpful : σ → κ → Prop) (owner : ι → κ) {schedule : ℕ → ι} {s : σ}

omit [WellFoundedLT W] in
/-- Until the turn of a helpful party, and with it, the measure is lowered. -/
theorem lowered_of_helpful
    (keeps : ∀ s i, Inv s → Inv (step s i))
    (hstep : ∀ s i p, Inv s → ¬ Done s → Helpful s p → measure (step s i) < measure s ∨
      owner i ≠ p ∧ measure (step s i) = measure s ∧ Helpful (step s i) p)
    {k : ℕ} (hk : Inv ((first schedule k).foldl step s)) {p : κ} :
    ∀ {d : ℕ}, owner (schedule (k + d)) = p → Helpful ((first schedule k).foldl step s) p →
      ∃ n, k ≤ n ∧ (Done ((first schedule n).foldl step s) ∨
        measure ((first schedule n).foldl step s) < measure ((first schedule k).foldl step s)) := by
  intro d
  induction d generalizing k with
  | zero =>
    intro hp hhelp
    by_cases hdone : Done ((first schedule k).foldl step s)
    · exact ⟨k, le_rfl, .inl hdone⟩
    · refine ⟨k + 1, Nat.le_succ k, .inr ?_⟩
      rw [foldl_first_succ]
      rcases hstep _ (schedule k) p hk hdone hhelp with hlt | ⟨hne, -, -⟩
      · exact hlt
      · exact absurd hp hne
  | succ d ih =>
    intro hp hhelp
    by_cases hdone : Done ((first schedule k).foldl step s)
    · exact ⟨k, le_rfl, .inl hdone⟩
    · have hnext : Inv ((first schedule (k + 1)).foldl step s) := by
        rw [foldl_first_succ]
        exact keeps _ _ hk
      rcases hstep _ (schedule k) p hk hdone hhelp with hlt | ⟨-, heq, hstill⟩
      · refine ⟨k + 1, Nat.le_succ k, .inr ?_⟩
        rw [foldl_first_succ]
        exact hlt
      · rw [← foldl_first_succ step] at heq hstill
        obtain ⟨n, hn, h⟩ := ih hnext (by rwa [show k + 1 + d = k + (d + 1) by omega]) hstill
        exact ⟨n, by omega, h.imp_right fun hlt => heq ▸ hlt⟩

theorem reaches_of_helpful
    (keeps : ∀ s i, Inv s → Inv (step s i))
    (hhelpful : ∀ s, Inv s → ¬ Done s → ∃ p, Helpful s p)
    (hstep : ∀ s i p, Inv s → ¬ Done s → Helpful s p → measure (step s i) < measure s ∨
      owner i ≠ p ∧ measure (step s i) = measure s ∧ Helpful (step s i) p)
    (hfair : ∀ s p, Inv s → Helpful s p → Recurs owner schedule p) {k : ℕ}
    (hk : Inv ((first schedule k).foldl step s)) :
    ∃ n, k ≤ n ∧ Done ((first schedule n).foldl step s) := by
  -- The induction is on the measure of the state after `k` steps.
  induction hm : measure ((first schedule k).foldl step s) using WellFoundedLT.induction
    generalizing k with
  | ind m ih =>
    by_cases hdone : Done ((first schedule k).foldl step s)
    · exact ⟨k, le_rfl, hdone⟩
    · obtain ⟨p, hp⟩ := hhelpful _ hk hdone
      obtain ⟨n, hn, hturn⟩ := Filter.frequently_atTop.mp (hfair _ p hk hp) k
      obtain ⟨n', hn', hdone' | hlt⟩ := lowered_of_helpful Inv Done measure Helpful owner keeps
        hstep hk
        (d := n - k) (by rwa [Nat.add_sub_cancel' hn]) hp
      · exact ⟨n', hn', hdone'⟩
      · obtain ⟨n'', hn'', h⟩ := ih _ (hm ▸ hlt) (invariant_later Inv keeps hk hn') rfl
        exact ⟨n'', hn'.trans hn'', h⟩

/-- If a step lowers the measure or changes nothing, and some party can always move, fair schedules
get there. -/
theorem reaches_of_movable {step : σ → κ → σ} {schedule : ℕ → κ}
    (keeps : ∀ s i, Inv s → Inv (step s i))
    (hmovable : ∀ s, Inv s → ¬ Done s → ∃ p, step s p ≠ s)
    (hstep : ∀ s i, Inv s → step s i ≠ s → measure (step s i) < measure s)
    (hfair : ∀ p, Recurs id schedule p) (hs : Inv s) :
    ∃ n, Done ((first schedule n).foldl step s) := by
  have hlower : ∀ s i p, Inv s → ¬ Done s → step s p ≠ s → measure (step s i) < measure s ∨
      id i ≠ p ∧ measure (step s i) = measure s ∧ step (step s i) p ≠ step s i := by
    intro s i p h _ hp
    by_cases hi : step s i = s
    · refine .inr ⟨?_, by rw [hi], by rwa [hi]⟩
      rintro rfl
      exact hp hi
    · exact .inl (hstep s i h hi)
  obtain ⟨n, -, hn⟩ := reaches_of_helpful Inv Done measure (fun s p => step s p ≠ s) id keeps hmovable
    hlower (fun _ p _ _ => hfair p) (k := 0) hs
  exact ⟨n, hn⟩

end Helpful

end Fair
