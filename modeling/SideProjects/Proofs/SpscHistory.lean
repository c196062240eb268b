import SideProjects.Proofs.SpscBounds

/-!
# The SPSC queue is linearizable

A call takes effect at its last step: a `push` when it stores `write_idx` or finds the queue full, a
`pop` when it stores `read_idx` or finds the queue empty. At that step it does to the waiting items what
the bounded queue does, and no other step changes them (`Inv.completes`, `Inv.waiting_step`). So
whatever the interleaving, the calls in the order in which they return are a run of the bounded queue
(`history_linearizes`).
-/

namespace SideProjects

namespace SpscQueue

variable {α : Type*} {s : State α}

namespace State

theorem Inv.step (h : s.Inv) (turn : Turn α) : (s.step turn).Inv :=
  match turn with
  | .producer item => h.pushStep item
  | .consumer => h.popStep

theorem Inv.length_waiting (h : s.Inv) :
    s.returned.length + s.waiting.length = s.published.length := by
  rw [waiting, List.length_drop]
  have := h.behind
  omega

/-- A `push` that returns has done what the bounded queue does. -/
theorem Inv.completes_push (h : s.Inv) {item : α} {call : Call α} {answer : Answer α}
    (hc : s.completes (.producer item) = some (call, answer)) :
    boundedCall (s.cap - 1) s.waiting call = (answer, (s.step (.producer item)).waiting) := by
  have hlen := h.length_waiting
  have hok := h.push
  unfold PushOk at hok
  rcases hp : s.push with _ | ⟨item', writeIdx⟩ | ⟨item', writeIdx⟩ | ⟨item', writeIdx⟩ <;>
    simp only [completes, pushAnswer, hp] at hc hok
  · cases hc
  · obtain rfl := hok
    by_cases hroom : s.queue.nextIdx s.queue.writeIdx ≠ s.queue.readIdx
    · simp [hroom] at hc
    · obtain ⟨rfl, rfl⟩ : .push item' = call ∧ .pushed false = answer := by simpa [hroom] using hc
      have hfull := h.full (not_not.mp hroom)
      rw [boundedCall, if_neg (by omega)]
      simp only [State.step, State.pushStep, hp, if_neg hroom]
      rfl
  · cases hc
  · obtain ⟨rfl, rfl⟩ : .push item' = call ∧ .pushed true = answer := by simpa using hc
    rw [boundedCall, if_pos (by omega)]
    simp only [State.step, State.pushStep, hp, waiting]
    rw [List.drop_append_of_le_length h.behind]

/-- So has a `pop`. -/
theorem Inv.completes_pop (h : s.Inv) {call : Call α} {answer : Answer α}
    (hc : s.completes .consumer = some (call, answer)) :
    boundedCall (s.cap - 1) s.waiting call = (answer, (s.step .consumer).waiting) := by
  have hok := h.pop
  unfold PopOk at hok
  rcases hp : s.pop with _ | readIdx | readIdx | ⟨readIdx, result⟩ <;>
    simp only [completes, popAnswer, hp] at hc hok
  · cases hc
  · obtain rfl := hok
    by_cases he : s.queue.readIdx = s.queue.writeIdx
    · obtain ⟨rfl, rfl⟩ : .pop = call ∧ .popped none = answer := by simpa [he] using hc
      have hnone : s.waiting = [] := List.drop_eq_nil_of_le (h.empty he).ge
      have hstep : (s.step .consumer).waiting = s.waiting := by
        simp only [State.step, State.popStep, hp, if_pos he]
        rfl
      rw [hstep, hnone, boundedCall]
    · simp [he] at hc
  · cases hc
  · obtain ⟨rfl, rfl⟩ : .pop = call ∧ .popped result = answer := by simpa using hc
    obtain ⟨-, hlt, rfl⟩ := hok
    have hsome : s.waiting =
        s.published[s.returned.length] :: s.published.drop (s.returned.length + 1) :=
      List.drop_eq_getElem_cons hlt
    rw [hsome, boundedCall, List.getElem?_eq_getElem hlt]
    simp [State.step, State.popStep, hp, waiting]

/-- A step that completes no call leaves the waiting items alone. -/
theorem waiting_step {turn : Turn α} (hc : s.completes turn = none) :
    (s.step turn).waiting = s.waiting := by
  cases turn with
  | producer item =>
    rcases hp : s.push with _ | ⟨item', writeIdx⟩ | ⟨item', writeIdx⟩ | ⟨item', writeIdx⟩ <;>
      simp only [completes, pushAnswer, hp, Option.map_some, reduceCtorEq] at hc <;>
      simp only [State.step, State.pushStep, hp, waiting]
    split_ifs <;> rfl
  | consumer =>
    rcases hp : s.pop with _ | readIdx | readIdx | ⟨readIdx, result⟩ <;>
      simp only [completes, popAnswer, hp, Option.map_some, reduceCtorEq] at hc <;>
      simp only [State.step, State.popStep, hp, waiting]
    split_ifs <;> rfl

end State

/-- However `push` and `pop` interleave, the calls that have returned, in the order in which they did,
got the answers of a queue that takes up to `capacity - 1` items and serves one call at a time, and the
items such a queue would then hold are those that are waiting. -/
theorem history_linearizes {capacity : UInt64} (h : 1 ≤ capacity) (turns : List (Turn α)) :
    feed (boundedCall (capacity.toNat - 1)) [] ((history capacity turns).map Prod.fst) =
      ((history capacity turns).map Prod.snd, (run capacity turns).waiting) := by
  have hstep : ∀ (s : State α) turn, s.Inv ∧ s.queue.capacity = capacity →
      (s.step turn).Inv ∧ (s.step turn).queue.capacity = capacity :=
    fun s turn hs => ⟨hs.1.step turn, (step_capacity s turn).trans hs.2⟩
  have hdone : ∀ (s : State α) turn call answer, s.Inv ∧ s.queue.capacity = capacity →
      s.completes turn = some (call, answer) →
        boundedCall (capacity.toNat - 1) s.waiting call = (answer, (s.step turn).waiting) := by
    rintro s turn call answer ⟨hinv, rfl⟩ hc
    cases turn with
    | producer item => exact hinv.completes_push hc
    | consumer => exact hinv.completes_pop hc
  exact feed_completed hstep hdone (fun s turn _ hc => State.waiting_step hc) turns ⟨.init h, rfl⟩

/-- With room for one item, a `push` that began while the queue was full finds room: the `pop` that
returns before it comes first. -/
theorem history_linearizes_one_slot :
    let turns : List (Turn ℕ) := [.producer 7, .producer 7, .producer 7, .producer 7, .consumer,
      .consumer, .consumer, .producer 8, .consumer, .producer 8, .producer 8, .producer 8]
    history 2 turns = [(.push 7, .pushed true), (.pop, .popped (some 7)), (.push 8, .pushed true)] ∧
      feed (boundedCall 1) [] ((history 2 turns).map Prod.fst) =
        ((history 2 turns).map Prod.snd, (run 2 turns).waiting) :=
  have h : (1 : UInt64) ≤ 2 := by decide
  ⟨rfl, history_linearizes h _⟩

end SpscQueue

end SideProjects
