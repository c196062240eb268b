import Mathlib.Data.Nat.Notation
import Mathlib.Tactic.SplitIfs
import Mathlib.Tactic.TypeStar

/-!
# While loops

`run cond body fuel s` goes round a loop while `cond` holds, and gives up if that takes more than
`fuel` rounds or if a round fails. A loop whose rounds keep an invariant and lower a variant ends,
with the invariant and without its condition (`run_of_variant`). `Visits` has all the states the loop
goes through, whether it ends or not.
-/

namespace While

variable {σ : Type*}

def run (cond : σ → Prop) [DecidablePred cond] (body : σ → Option σ) : ℕ → σ → Option σ
  | fuel, s =>
    if cond s then
      match fuel with
      | 0 => none
      | fuel + 1 =>
        match body s with
        | none => none
        | some s' => run cond body fuel s'
    else some s

/-- The states from `s` on in which the condition is tested. -/
inductive Visits (cond : σ → Prop) (body : σ → Option σ) (s : σ) : σ → Prop
  | start : Visits cond body s s
  | round {t u : σ} (visits : Visits cond body s t) (hcond : cond t) (hbody : body t = some u) :
      Visits cond body s u

variable {cond : σ → Prop} {body : σ → Option σ} {Inv : σ → Prop}

/-- What every round keeps holds in every state. -/
theorem Visits.invariant (hstep : ∀ t u, Inv t → cond t → body t = some u → Inv u) {s t : σ}
    (h : Visits cond body s t) (hs : Inv s) : Inv t := by
  induction h with
  | start => exact hs
  | round _ hcond hbody ih => exact hstep _ _ ih hcond hbody

/-- A loop whose rounds keep an invariant and lower a variant ends. -/
theorem run_of_variant [DecidablePred cond] (variant : σ → ℕ)
    (hstep : ∀ s, Inv s → cond s → ∃ s', body s = some s' ∧ Inv s' ∧ variant s' < variant s) :
    ∀ (fuel : ℕ) (s : σ), Inv s → variant s ≤ fuel →
      ∃ s', run cond body fuel s = some s' ∧ Inv s' ∧ ¬ cond s'
  | fuel, s, hs, hfuel => by
    unfold run
    split_ifs with hcond
    · obtain ⟨s', hbody, hs', hlt⟩ := hstep s hs hcond
      cases fuel with
      | zero => omega
      | succ fuel =>
        rw [hbody]
        exact run_of_variant variant hstep fuel s' hs' (by omega)
    · exact ⟨s, rfl, hs, hcond⟩

end While
