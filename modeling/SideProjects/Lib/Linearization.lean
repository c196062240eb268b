import Mathlib.Data.List.Nodup
import SideProjects.Lib.Runs

/-!
# Linearizations

Requests are served at the same time, each of them in several steps, one of which does the work at
once. Then the answers are those of the requests served one after the other, in the order in which
their work has been done. `Linearization` says so of the requests whose work has been done so far: it
holds while nothing has been done, and goes on to hold if some request's work is done (`serve_one`), or if a
step changes no answer (`congr`). The order only grows at its end, so that a request which has been
answered before another one comes in stands before it.

If the work of a request is always done by its last step, the order is that in which the requests
complete, and nothing more has to be recorded (`feed_completed`).
-/

variable {σ ρ α ι : Type*}

structure Linearization (serve : σ → ρ → α × σ) (init : σ) (requests : ι → ρ) (order : List ι) (s : σ)
    (answer : ι → Option α) : Prop where
  nodup : order.Nodup
  state : s = (feed serve init (order.map requests)).2
  served : ∀ i, i ∈ order ↔ (answer i).isSome
  answers : ∀ (i : ι) (k : ℕ), order[k]? = some i → (feed serve init (order.map requests)).1[k]? = answer i

namespace Linearization

variable {serve : σ → ρ → α × σ} {init s : σ} {requests : ι → ρ} {order : List ι}
  {answer answer' : ι → Option α}

theorem nil (h : ∀ i, answer i = none) : Linearization serve init requests [] init answer where
  nodup := List.nodup_nil
  state := rfl
  served i := by simp [h i]
  answers i k hk := by simp at hk

theorem congr (h : Linearization serve init requests order s answer)
    (hanswer : ∀ i, answer' i = answer i) : Linearization serve init requests order s answer' := by
  obtain rfl : answer' = answer := funext hanswer
  exact h

theorem serve_one (h : Linearization serve init requests order s answer) {i : ι}
    (answer' : ι → Option α) (hi : answer i = none) (hself : answer' i = some (serve s (requests i)).1)
    (hother : ∀ j, j ≠ i → answer' j = answer j) :
    Linearization serve init requests (order ++ [i]) (serve s (requests i)).2 answer' := by
  have hnew : i ∉ order := by simp [h.served i, hi]
  have hne : ∀ j ∈ order, j ≠ i := fun j hj he => hnew (he ▸ hj)
  refine ⟨?_, ?_, fun j => ?_, fun j k hk => ?_⟩
  · exact List.nodup_append.mpr ⟨h.nodup, List.nodup_singleton i, by simpa using hne⟩
  · rw [List.map_append, feed_append, ← h.state]
    rfl
  · rw [List.mem_append, List.mem_singleton]
    by_cases hj : j = i
    · simp [hj, hself]
    · simp [hj, hother j hj, h.served j]
  · rw [List.map_append, feed_append, ← h.state]
    rcases Nat.lt_trichotomy k order.length with hlt | rfl | hgt
    · rw [List.getElem?_append_left hlt] at hk
      rw [List.getElem?_append_left (by rwa [length_feed, List.length_map]), h.answers j k hk,
        hother j (hne j (List.mem_of_getElem? hk))]
    · obtain rfl : i = j := by simpa using hk
      have hlen : (feed serve init (order.map requests)).1.length = order.length := by
        rw [length_feed, List.length_map]
      rw [List.getElem?_append_right (Nat.le_of_eq hlen), hlen, Nat.sub_self, hself]
      rfl
    · rw [List.getElem?_eq_none (by simpa using Nat.succ_le_of_lt hgt)] at hk
      cases hk

/-- An answer is that to its request, after the requests before it in the order. -/
theorem answer_eq (h : Linearization serve init requests order s answer) {i : ι} {k : ℕ}
    (hk : order[k]? = some i) :
    answer i = some (serve (feed serve init ((order.take k).map requests)).2 (requests i)).1 := by
  rw [← h.answers i k hk, List.map_take]
  exact getElem?_feed serve (by rw [List.getElem?_map, hk]; rfl)

end Linearization

/-! ## Requests that take effect at their last step -/

section Completed

variable {τ : Type*} {step : σ → ι → σ} {done : σ → ι → Option (ρ × α)} {serve : τ → ρ → α × τ}
  {f : σ → τ} {Inv : σ → Prop}

/-- The requests that steps complete and their answers, in the order in which they do. -/
def completed (step : σ → ι → σ) (done : σ → ι → Option (ρ × α)) : σ → List ι → List (ρ × α)
  | _, [] => []
  | s, i :: is => (done s i).toList ++ completed step done (step s i) is

/-- If the step that completes a request does its work and no other step does any, the answers are those
of the requests served one after the other as they complete. -/
theorem feed_completed (hinv : ∀ s i, Inv s → Inv (step s i))
    (hdone : ∀ s i r a, Inv s → done s i = some (r, a) → serve (f s) r = (a, f (step s i)))
    (hrest : ∀ s i, Inv s → done s i = none → f (step s i) = f s) :
    ∀ (is : List ι) {s : σ}, Inv s →
      feed serve (f s) ((completed step done s is).map Prod.fst) =
        ((completed step done s is).map Prod.snd, f (is.foldl step s))
  | [], _, _ => rfl
  | i :: is, s, hs => by
    have ih := feed_completed hinv hdone hrest is (hinv s i hs)
    rw [completed, List.foldl_cons]
    rcases hd : done s i with _ | ⟨r, a⟩
    · rw [← hrest s i hs hd]
      exact ih
    · rw [Option.toList_some, List.singleton_append, List.map_cons, List.map_cons, feed,
        hdone s i r a hs hd, ih]

end Completed
