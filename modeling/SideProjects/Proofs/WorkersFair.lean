import SideProjects.Lib.Fair
import SideProjects.Proofs.Workers

/-!
# When a worker can be awaited

An `AtomicWorker` that goes on getting its turn returns just when somebody sets the flag: it ends the
round it is in and looks. A `TokenWorker` returns just when `select!` finds the token's branch first,
some time after the token is cancelled; that the token is cancelled is not enough, as the branch of
the sleep may be found first again and again.
-/

namespace SideProjects

namespace Workers

namespace AtomicWorker

/-- The steps to the return, once the flag is set. -/
def Point.steps : Point → ℕ
  | .returned => 0
  | .loadStop => 1
  | .storeNotDoing => 2
  | .storeDone => 3
  | .sleep => 4
  | .storeNotDone => 5
  | .storeDoing => 6

theorem step_stopped {s : State} (hs : s.stopSignal = true) (hp : s.point ≠ .returned) :
    (step s .doWork).point.steps < s.point.steps := by
  obtain ⟨flags, stopSignal, point⟩ := s
  obtain rfl : stopSignal = true := hs
  cases point with
  | returned => exact absurd rfl hp
  | loadStop | storeDoing | storeNotDone | sleep | storeDone | storeNotDoing => exact Nat.le_refl _

/-- Nobody sets the flag but by `stop`, and nothing else lets the worker return. -/
theorem point_ne_returned {moves : List Move} (h : .stop ∉ moves) :
    (run moves).stopSignal = false ∧ (run moves).point ≠ .returned := by
  rw [run]
  refine List.foldlRecOn (motive := fun s : State => s.stopSignal = false ∧ s.point ≠ .returned) moves
    step ⟨rfl, by decide⟩ ?_
  rintro ⟨flags, stopSignal, point⟩ ⟨rfl, hp⟩ move hmove
  cases move with
  | stop => exact absurd hmove h
  | doWork =>
    cases point with
    | returned => exact absurd rfl hp
    | loadStop | storeDoing | storeNotDone | sleep | storeDone | storeNotDoing =>
      exact ⟨rfl, by rintro ⟨⟩⟩

theorem exists_returned_iff {schedule : ℕ → Move} (hfair : Fair.Recurs id schedule .doWork) :
    (∃ n, (run (Fair.first schedule n)).point = .returned) ↔ ∃ k, schedule k = .stop := by
  constructor
  · rintro ⟨n, hn⟩
    by_contra hnever
    refine (point_ne_returned fun hmem => ?_).2 hn
    obtain ⟨k, -, hk⟩ := List.mem_map.mp hmem
    exact hnever ⟨k, hk⟩
  · rintro ⟨k, hk⟩
    have hstopped : ((Fair.first schedule (k + 1)).foldl step new).stopSignal = true := by
      rw [Fair.foldl_first_succ, hk]
      rfl
    have hlower : ∀ (s : State) (move p : Move), s.stopSignal = true → s.point ≠ .returned →
        p = .doWork → (step s move).point.steps < s.point.steps ∨
          move ≠ p ∧ (step s move).point.steps = s.point.steps ∧ p = .doWork := by
      rintro s move p hs hp rfl
      cases move with
      | doWork => exact .inl (step_stopped hs hp)
      | stop => exact .inr ⟨by decide, rfl, rfl⟩
    obtain ⟨n, -, hn⟩ := Fair.reaches_of_helpful (fun s : State => s.stopSignal = true)
      (fun s => s.point = .returned) (fun s => s.point.steps) (fun _ p => p = .doWork) id
      (fun _ move hs => step_stopSignal move hs) (fun _ _ _ => ⟨.doWork, rfl⟩) hlower (fun _ _ _ hp => hp ▸ hfair) hstopped
    exact ⟨n, hn⟩

end AtomicWorker

namespace TokenWorker

/-- The worker has found the token's branch. -/
def Point.leaving : Point → Bool
  | .cancelledDone => true
  | .cancelledNotDoing => true
  | .returned => true
  | _ => false

/-- The steps to the return from there. -/
def Point.steps : Point → ℕ
  | .cancelledDone => 2
  | .cancelledNotDoing => 1
  | _ => 0

/-- The next step of the worker finds the token's branch. -/
def State.finds (s : State) (move : Move) : Bool :=
  s.point == .select && s.cancelled && move == .doWork .cancelled

theorem step_leaving {s : State} (move : Move) :
    (step s move).point.leaving = (s.point.leaving || s.finds move) := by
  obtain ⟨flags, cancelled, point⟩ := s
  rcases move with first | _
  · cases point <;> cases first <;> cases cancelled <;> rfl
  · cases point <;> cases cancelled <;> rfl

/-- Whose step it is. -/
def Move.isWork : Move → Bool
  | .doWork _ => true
  | .cancel => false

theorem step_steps {s : State} (first : Branch) (hs : s.point.leaving) (hp : s.point ≠ .returned) :
    (step s (.doWork first)).point.steps < s.point.steps := by
  obtain ⟨flags, cancelled, point⟩ := s
  cases point with
  | returned => exact absurd rfl hp
  | cancelledDone | cancelledNotDoing => exact Nat.le_refl _
  | storeDoing | storeNotDone | select | sleptDone | sleptNotDoing => cases hs

theorem exists_returned_iff {schedule : ℕ → Move}
    (hfair : Fair.Recurs Move.isWork schedule true) :
    (∃ n, (run (Fair.first schedule n)).point = .returned) ↔
      ∃ k, (run (Fair.first schedule k)).finds (schedule k) := by
  constructor
  · rintro ⟨n, hn⟩
    by_contra hnever
    push Not at hnever
    have hnot : ∀ n, (run (Fair.first schedule n)).point.leaving = false := by
      intro n
      induction n with
      | zero => rfl
      | succ n ih =>
        rw [run, Fair.foldl_first_succ, step_leaving]
        simp only [run] at ih hnever
        rw [ih]
        simpa using hnever n
    have hfalse := hnot n
    rw [hn] at hfalse
    cases hfalse
  · rintro ⟨k, hk⟩
    have hleaving : ((Fair.first schedule (k + 1)).foldl step new).point.leaving := by
      rw [Fair.foldl_first_succ, step_leaving]
      rw [run] at hk
      rw [hk, Bool.or_true]
    have hlower : ∀ (s : State) (move : Move) (p : Bool), s.point.leaving → s.point ≠ .returned →
        p = true → (step s move).point.steps < s.point.steps ∨
          move.isWork ≠ p ∧ (step s move).point.steps = s.point.steps ∧ p = true := by
      rintro s move p hs hp rfl
      cases move with
      | doWork first => exact .inl (step_steps first hs hp)
      | cancel => exact .inr ⟨by decide, rfl, rfl⟩
    obtain ⟨n, -, hn⟩ := Fair.reaches_of_helpful (fun s : State => s.point.leaving)
      (fun s => s.point = .returned) (fun s => s.point.steps) (fun _ p => p = true) Move.isWork
      (fun s move hs => by rw [step_leaving, hs, Bool.true_or])
      (fun _ _ _ => ⟨true, rfl⟩) hlower (fun _ _ _ hp => hp ▸ hfair) hleaving
    exact ⟨n, hn⟩

end TokenWorker

/-- A worker that goes on getting its turn: an `AtomicWorker` returns if and only if somebody sets the
flag; a `TokenWorker` returns if and only if `select!` once finds the token's branch first. -/
theorem returns_iff {moves : ℕ → AtomicWorker.Move} {tokenMoves : ℕ → TokenWorker.Move}
    (hfair : Fair.Recurs id moves .doWork)
    (htoken : Fair.Recurs TokenWorker.Move.isWork tokenMoves true) :
    ((∃ n, (AtomicWorker.run (Fair.first moves n)).point = .returned) ↔ ∃ k, moves k = .stop) ∧
      ((∃ n, (TokenWorker.run (Fair.first tokenMoves n)).point = .returned) ↔
        ∃ k, (TokenWorker.run (Fair.first tokenMoves k)).finds (tokenMoves k)) :=
  ⟨AtomicWorker.exists_returned_iff hfair, TokenWorker.exists_returned_iff htoken⟩

/-- Told to stop in their first round. -/
theorem returns_iff_mid_round :
    let moves : ℕ → AtomicWorker.Move := fun n => if n = 3 then .stop else .doWork
    let tokenMoves : ℕ → TokenWorker.Move := fun n => if n = 0 then .cancel else .doWork .cancelled
    ((∃ n, (AtomicWorker.run (Fair.first moves n)).point = .returned) ↔ ∃ k, moves k = .stop) ∧
      ((∃ n, (TokenWorker.run (Fair.first tokenMoves n)).point = .returned) ↔
        ∃ k, (TokenWorker.run (Fair.first tokenMoves k)).finds (tokenMoves k)) := by
  intro moves tokenMoves
  refine returns_iff (Filter.frequently_atTop.mpr fun n => ⟨n + 4, by omega, ?_⟩)
    (Filter.frequently_atTop.mpr fun n => ⟨n + 1, by omega, ?_⟩)
  · simp [moves]
  · simp [tokenMoves, TokenWorker.Move.isWork]

end Workers

end SideProjects
