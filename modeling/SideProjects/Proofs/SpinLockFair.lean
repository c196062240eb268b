import Mathlib.Algebra.Order.BigOperators.Group.Finset
import SideProjects.Lib.Fair
import SideProjects.Proofs.SpinLock

/-!
# The rounds one after the other

Whatever a round makes of the value, the data are at every moment what the rounds that have been
written make of the first value, one after the other, in the order in which they were written
(`run_serial`). A step that changes anything brings a thread closer to its end, and unless all have
finished there is a thread that can move: the one inside, or any other if nobody is. So under a fair
schedule all threads finish, and their rounds have been made one after the other (`run_finishes`).
-/

namespace SideProjects

namespace SpinLock

variable {T ι : Type*} [DecidableEq ι]

/-! ## The order of the rounds -/

/-- A round of `i` with nothing in between: the rounds every thread has left, and the value. -/
def serialRound (update : ι → ℕ → T → T) (s : (ι → ℕ) × T) (i : ι) : (ι → ℕ) × T :=
  (Function.update s.1 i (s.1 i - 1), update i (s.1 i - 1) s.2)

/-- The data are what these rounds make of the first value, and the threads have the others left. -/
def Serial (update : ι → ℕ → T → T) (data : T) (rounds : ι → ℕ) (order : List ι) (s : State T ι) :
    Prop :=
  order.foldl (serialRound update) (rounds, data) = (fun i => (s.threads i).toWrite, s.shared.data) ∧
    ∀ i, order.count i + (s.threads i).toWrite = rounds i

theorem Serial.keep {update : ι → ℕ → T → T} {data : T} {rounds : ι → ℕ} {order : List ι}
    {s s' : State T ι} (h : Serial update data rounds order s)
    (hthreads : ∀ j, (s'.threads j).toWrite = (s.threads j).toWrite)
    (hdata : s'.shared.data = s.shared.data) : Serial update data rounds order s' := by
  obtain ⟨hfold, hcount⟩ := h
  refine ⟨?_, fun i => by rw [hthreads]; exact hcount i⟩
  rw [hfold, hdata]
  simp only [hthreads]

theorem toWrite_update {threads : ι → Thread T} {i : ι} {t : Thread T}
    (ht : t.toWrite = (threads i).toWrite) (j : ι) :
    (Function.update threads i t j).toWrite = (threads j).toWrite := by
  by_cases hj : j = i
  · rw [hj, Function.update_self, ht]
  · rw [Function.update_of_ne hj]

/-- Only a write adds a round, and it finds the value that the rounds before it have left. -/
theorem step_serial (version : Version) {update : ι → ℕ → T → T} {data : T} {rounds : ι → ℕ}
    {order : List ι} {s : State T ι} (i : ι) (h : Inv s) (hs : Serial update data rounds order s) :
    ∃ order', Serial update data rounds order' (s.step version update i) := by
  unfold State.step
  rcases ht : s.threads i with (_ | left) | left | ⟨left, value⟩ | left
  · exact ⟨order, hs⟩
  · rcases hflag : s.shared.lock with _ | _
    · simp only [swap, hflag, Bool.false_eq_true, if_false]
      exact ⟨order, hs.keep (toWrite_update (by rw [ht]; rfl)) rfl⟩
    · simp only [swap, hflag, if_true]
      exact ⟨order, hs.keep (fun _ => rfl) rfl⟩
  · exact ⟨order, hs.keep (toWrite_update (by rw [ht]; rfl)) rfl⟩
  · obtain ⟨hfold, hcount⟩ := hs
    have hleft : (s.threads i).toWrite = left + 1 := by rw [ht]; rfl
    refine ⟨order ++ [i], ?_, fun j => ?_⟩
    · rw [List.foldl_append, hfold]
      simp only [List.foldl_cons, List.foldl_nil, serialRound, hleft, Nat.add_sub_cancel,
        h.value i left value ht, Prod.mk.injEq, and_true]
      funext j
      by_cases hj : j = i
      · subst hj
        simp [Thread.toWrite]
      · simp [Function.update_of_ne hj]
    · show (order ++ [i]).count j + (Function.update s.threads i (.releasing left) j).toWrite = _
      rw [List.count_append]
      have hj := hcount j
      by_cases he : j = i
      · subst he
        simp only [List.count_singleton_self, Function.update_self, Thread.toWrite]
        omega
      · rw [Function.update_of_ne he, List.count_singleton, if_neg (by simpa using Ne.symm he)]
        exact hj
  · exact ⟨order, hs.keep (toWrite_update (by rw [ht]; rfl)) (by cases version <;> rfl)⟩

/-- After every interleaving. -/
theorem run_serial (version : Version) (update : ι → ℕ → T → T) (data : T) (rounds : ι → ℕ)
    (schedule : List ι) :
    ∃ order, Serial update data rounds order (run version update data rounds schedule) := by
  have h := List.foldlRecOn
    (motive := fun s => Inv s ∧ ∃ order, Serial update data rounds order s) schedule
    (State.step version update) ⟨Inv.init data rounds, [], rfl, by simp [State.init, Thread.toWrite]⟩
    fun s h i _ => ⟨step_inv version update i h.1, h.2.elim fun _ hs => step_serial version i h.1 hs⟩
  exact h.2

/-! ## Every thread finishes -/

/-- The steps a thread has yet to make, without those that find the flag set. -/
def Thread.steps : Thread T → ℕ
  | .locking left => 4 * left
  | .reading left => 4 * left + 3
  | .writing left _ => 4 * left + 2
  | .releasing left => 4 * left + 1

section Fintype

variable [Fintype ι]

theorem sum_steps_update {threads : ι → Thread T} {i : ι} {t : Thread T}
    (ht : t.steps < (threads i).steps) :
    ∑ j, (Function.update threads i t j).steps < ∑ j, (threads j).steps := by
  refine Finset.sum_lt_sum (fun j _ => ?_) ⟨i, Finset.mem_univ i, by rwa [Function.update_self]⟩
  by_cases hj : j = i
  · rw [hj, Function.update_self]
    exact ht.le
  · rw [Function.update_of_ne hj]

/-- A step that changes anything leaves fewer to be made. -/
theorem step_steps (version : Version) (update : ι → ℕ → T → T) {s : State T ι} {i : ι}
    (hne : s.step version update i ≠ s) :
    ∑ j, ((s.step version update i).threads j).steps < ∑ j, (s.threads j).steps := by
  unfold State.step at hne ⊢
  rcases ht : s.threads i with (_ | left) | left | ⟨left, value⟩ | left <;> rw [ht] at hne
  · exact absurd rfl hne
  · rcases hflag : s.shared.lock with _ | _
    · simp only [swap, hflag, Bool.false_eq_true, if_false]
      exact sum_steps_update (by rw [ht]; simp only [Thread.steps]; omega)
    · refine absurd ?_ hne
      simp only [swap, hflag, if_true]
      rw [← hflag]
  · exact sum_steps_update (by rw [ht]; simp only [Thread.steps]; omega)
  · exact sum_steps_update (by rw [ht]; simp only [Thread.steps]; omega)
  · exact sum_steps_update (by rw [ht]; simp only [Thread.steps]; omega)

end Fintype

/-- A thread that is inside can move. -/
theorem step_ne_of_inside (version : Version) (update : ι → ℕ → T → T) {s : State T ι} {i : ι}
    (hi : (s.threads i).inside) : s.step version update i ≠ s := by
  intro he
  have hself := congrArg (fun s => s.threads i) he
  unfold State.step at hself
  rcases ht : s.threads i with left | left | ⟨left, value⟩ | left <;> rw [ht] at hself hi
  · cases hi
  · simp at hself
  · simp at hself
  · simp at hself

/-- Unless all have finished, a thread can move. -/
theorem exists_step_ne (version : Version) (update : ι → ℕ → T → T) {s : State T ι} (h : Inv s)
    (hleft : ¬ ∀ i, (s.threads i).finished) : ∃ i, s.step version update i ≠ s := by
  rcases hflag : s.shared.lock with _ | _
  · push Not at hleft
    obtain ⟨i, hi⟩ := hleft
    refine ⟨i, fun he => ?_⟩
    have hself := congrArg (fun s => s.threads i) he
    unfold State.step at hself
    rcases ht : s.threads i with (_ | left) | left | ⟨left, value⟩ | left <;> rw [ht] at hself hi
    · exact hi rfl
    · simp [swap, hflag] at hself
    · simp at hself
    · simp at hself
    · simp at hself
  · obtain ⟨i, hi⟩ := h.flag.mp hflag
    exact ⟨i, step_ne_of_inside version update hi⟩

theorem eq_of_finished : ∀ {t : Thread T}, t.finished → t = .locking 0
  | .locking 0, _ => rfl

/-- Threads that have finished stay where they are. -/
theorem finished_step (version : Version) (update : ι → ℕ → T → T) {s : State T ι} (i : ι)
    (hs : ∀ j, (s.threads j).finished) : s.step version update i = s := by
  unfold State.step
  rw [eq_of_finished (hs i)]

/-- If every thread gets its turn again and again, all of them finish, whoever had to spin: from then
on the lock is free, and the data are what all the rounds make of the first value, one after the
other, in some order. -/
theorem run_finishes [Fintype ι] (version : Version) (update : ι → ℕ → T → T) (data : T)
    (rounds : ι → ℕ) {schedule : ℕ → ι} (hfair : ∀ i, Fair.Recurs id schedule i) :
    ∃ (n : ℕ) (order : List ι) (value : T), (∀ i, order.count i = rounds i) ∧
      order.foldl (serialRound update) (rounds, data) = (fun _ => 0, value) ∧
      ∀ m, n ≤ m → run version update data rounds (Fair.first schedule m) =
        ⟨⟨false, value⟩, fun _ => .locking 0⟩ := by
  obtain ⟨n, hn⟩ := Fair.reaches_of_movable Inv (fun s : State T ι => ∀ i, (s.threads i).finished)
    (fun s => ∑ j, (s.threads j).steps) (fun s i => step_inv version update i)
    (fun s h hleft => exists_step_ne version update h hleft)
    (fun s i _ hne => step_steps version update hne) hfair (Inv.init data rounds)
  set s := run version update data rounds (Fair.first schedule n) with hs
  have hthreads : s.threads = fun _ => .locking 0 := funext fun i => eq_of_finished (hn i)
  have hlock : s.shared.lock = false := by
    by_contra hlock
    obtain ⟨i, hi⟩ := (run_inv version update data rounds _).flag.mp (by simpa using hlock)
    rw [← hs, hthreads] at hi
    cases hi
  obtain ⟨order, hfold, hcount⟩ := run_serial version update data rounds (Fair.first schedule n)
  rw [← hs, hthreads] at hfold
  refine ⟨n, order, s.shared.data, fun i => ?_, hfold, fun m hm => ?_⟩
  · have := hcount i
    rw [← hs, hthreads] at this
    exact this
  · have hstay : run version update data rounds (Fair.first schedule m) = s :=
      Fair.invariant_later (fun s' => s' = s) (fun s' i he => by
        rw [he]
        exact finished_step version update i hn) hs.symm hm
    rw [hstay, ← hthreads, ← hlock]

/-- Two threads in turn, the second with a round that does not commute with the first's. -/
theorem run_finishes_inTurn :
    let update : Fin 2 → ℕ → ℤ → ℤ := fun i _ v => if i = 0 then v + 1 else 2 * v
    (∀ i, Fair.Recurs id (Fin.ofNat 2) i) ∧
      ∃ (n : ℕ) (order : List (Fin 2)) (value : ℤ), (∀ i, order.count i = ![1, 2] i) ∧
        order.foldl (serialRound update) (![1, 2], 0) = (fun _ => 0, value) ∧
        ∀ m, n ≤ m → run .spinLock2 update 0 ![1, 2] (Fair.first (Fin.ofNat 2) m) =
          ⟨⟨false, value⟩, fun _ => .locking 0⟩ := by
  have hfair : ∀ i, Fair.Recurs id (Fin.ofNat 2) i := by
    intro i
    refine Filter.frequently_atTop.mpr fun n => ⟨2 * n + i, by omega, ?_⟩
    ext
    simp only [id, Fin.val_ofNat]
    omega
  exact ⟨hfair, run_finishes .spinLock2 _ 0 ![1, 2] hfair⟩

end SpinLock

end SideProjects
