import SideProjects.Lib.Fair
import SideProjects.Proofs.SpscBounds
import SideProjects.SpscMain

/-!
# The program of the SPSC queue prints every item and ends

What is published and what is left to be pushed are the items, and what is returned and what is left
to be popped are as many (`Main.Inv`). As long as an item waits, the consumer's steps bring it closer
to the next one whatever the producer does; with none waiting the producer finds room, if there is
more than one slot, and its steps bring it closer to the next store whatever the consumer does. So
one of the two is always helpful. With a single slot the queue is full while it is empty, and the
first `push` is refused for ever.
-/

namespace SideProjects

namespace SpscQueue

variable {α : Type*}

/-! ## One step of a call -/

/-- The steps to the store of a call that is not refused. -/
def Push.rank : Push α → ℕ
  | .idle => 4
  | .loaded _ _ => 3
  | .writing _ _ => 2
  | .storing _ _ => 1

/-- The item of the call that is under way. -/
def Push.item : Push α → Option α
  | .idle => none
  | .loaded item _ => some item
  | .writing item _ => some item
  | .storing item _ => some item

theorem Push.rank_le : ∀ p : Push α, p.rank ≤ 4
  | .idle => le_rfl
  | .loaded _ _ | .writing _ _ | .storing _ _ => by simp [rank]

def Pop.rank : Pop α → ℕ
  | .idle => 4
  | .loaded _ => 3
  | .reading _ => 2
  | .storing _ _ => 1

theorem Pop.rank_le : ∀ p : Pop α, p.rank ≤ 4
  | .idle => le_rfl
  | .loaded _ | .reading _ | .storing _ _ => by simp [rank]

namespace State

variable {s : State α}

@[simp]
theorem pushStep_returned (s : State α) (item : α) : (s.pushStep item).returned = s.returned := by
  unfold pushStep
  split <;> try split_ifs
  all_goals rfl

@[simp]
theorem pushStep_pop (s : State α) (item : α) : (s.pushStep item).pop = s.pop := by
  unfold pushStep
  split <;> try split_ifs
  all_goals rfl

@[simp]
theorem popStep_published (s : State α) : s.popStep.published = s.published := by
  unfold popStep
  split <;> try split_ifs
  all_goals rfl

@[simp]
theorem popStep_push (s : State α) : s.popStep.push = s.push := by
  unfold popStep
  split <;> try split_ifs
  all_goals rfl

/-- The last step of a call that is not refused publishes its item. -/
theorem pushStep_publishes (hr : s.pushAnswer = some true) (item : α) :
    ∃ item', s.push.item = some item' ∧
      (s.pushStep item).published = s.published ++ [item'] ∧ (s.pushStep item).push = .idle := by
  unfold pushAnswer at hr
  unfold pushStep
  split at hr
  · split_ifs at hr
    cases hr
  · rename_i item' writeIdx hp
    rw [hp]
    exact ⟨item', rfl, rfl, rfl⟩
  · cases hr

theorem Inv.room_of_pushAnswer (h : s.Inv) (hr : s.pushAnswer = some true) :
    s.published.length + 1 < s.returned.length + s.cap := by
  have hok := h.push
  unfold PushOk at hok
  unfold pushAnswer at hr
  split at hr
  · split_ifs at hr
    cases hr
  · rename_i item writeIdx hp
    rw [hp] at hok
    exact hok.2.1
  · cases hr

/-- A call that is under way goes on with its item. -/
theorem pushStep_item {item x : α} (hx : (s.pushStep item).push.item = some x) :
    s.push = .idle ∧ x = item ∨ s.push.item = some x := by
  unfold pushStep at hx
  split at hx
  · rename_i hp
    exact .inl ⟨hp, (Option.some.inj hx).symm⟩
  · rename_i item' writeIdx hp
    rw [hp]
    split_ifs at hx
    · exact .inr hx
    · cases hx
  · rename_i item' writeIdx hp
    rw [hp]
    exact .inr hx
  · cases hx

theorem pushStep_published (hr : s.pushAnswer ≠ some true) (item : α) :
    (s.pushStep item).published = s.published := by
  unfold pushAnswer at hr
  unfold pushStep
  split
  · rfl
  · split_ifs <;> rfl
  · rfl
  · rename_i item' writeIdx hp
    rw [hp] at hr
    exact absurd rfl hr

/-- With room for one more, the other steps bring the call closer to its end. -/
theorem Inv.pushStep_rank (h : s.Inv) (hroom : s.published.length + 1 < s.returned.length + s.cap)
    (hr : s.pushAnswer ≠ some true) (item : α) : (s.pushStep item).push.rank < s.push.rank := by
  have hok := h.push
  unfold PushOk at hok
  unfold pushAnswer at hr
  unfold State.pushStep
  split
  · rename_i hp
    rw [hp]
    exact Nat.lt_succ_self 3
  · rename_i item' writeIdx hp
    rw [hp] at hok ⊢
    obtain rfl := hok
    have hne : s.queue.nextIdx s.queue.writeIdx ≠ s.queue.readIdx := by
      intro he
      have hpos := h.pos
      have hfull := h.full he
      omega
    rw [if_pos hne]
    exact Nat.lt_succ_self 2
  · rename_i item' writeIdx hp
    rw [hp]
    exact Nat.lt_succ_self 1
  · rename_i item' writeIdx hp
    rw [hp] at hr
    exact absurd rfl hr

/-- The last step of a call that finds an item returns it. -/
theorem popStep_returns {x : α} (hr : s.popAnswer = some (some x)) :
    s.popStep.returned = s.returned ++ [some x] ∧ s.popStep.pop = .idle := by
  unfold popAnswer at hr
  unfold popStep
  split at hr
  · split_ifs at hr
    cases hr
  · rename_i readIdx result hp
    obtain rfl : result = some x := by simpa using hr
    exact ⟨by rw [hp], by rw [hp]⟩
  · cases hr

theorem Inv.popStep_returned (h : s.Inv) (hr : ∀ x, s.popAnswer ≠ some (some x)) :
    s.popStep.returned = s.returned := by
  have hok := h.pop
  unfold PopOk at hok
  unfold popAnswer at hr
  unfold State.popStep
  split
  · rfl
  · split_ifs <;> rfl
  · rfl
  · rename_i readIdx result hp
    rw [hp] at hok hr
    obtain ⟨-, hlt, rfl⟩ := hok
    exact absurd (congrArg some (List.getElem?_eq_getElem hlt)) (hr _)

/-- With an item waiting, the other steps bring the call closer to its end. -/
theorem Inv.popStep_rank (h : s.Inv) (hwaits : s.returned.length < s.published.length)
    (hr : ∀ x, s.popAnswer ≠ some (some x)) : s.popStep.pop.rank < s.pop.rank := by
  have hok := h.pop
  unfold PopOk at hok
  unfold popAnswer at hr
  unfold State.popStep
  split
  · rename_i hp
    rw [hp]
    exact Nat.lt_succ_self 3
  · rename_i readIdx hp
    rw [hp] at hok ⊢
    obtain rfl := hok
    have hne : s.queue.readIdx ≠ s.queue.writeIdx := fun he => hwaits.ne (h.empty he)
    rw [if_neg hne]
    exact Nat.lt_succ_self 2
  · rename_i readIdx hp
    rw [hp]
    exact Nat.lt_succ_self 1
  · rename_i readIdx result hp
    rw [hp] at hok hr
    obtain ⟨-, hlt, rfl⟩ := hok
    exact absurd (congrArg some (List.getElem?_eq_getElem hlt)) (hr _)

end State

/-! ## The two loops -/

namespace Main

variable {capacity : UInt64} {items : List α} {m : Main α}

structure Inv (capacity : UInt64) (items : List α) (m : Main α) : Prop where
  state : m.state.Inv
  capacity : m.state.queue.capacity = capacity
  pushed : m.state.published ++ m.toPush = items
  popped : m.state.returned.length + m.toPop = items.length
  /-- The item of the call that is under way is the one the loop is at. -/
  item : ∀ item, m.state.push.item = some item → ∃ rest, m.toPush = item :: rest

theorem Inv.init (h : 1 ≤ capacity) (items : List α) : Inv capacity items (.init capacity items) where
  state := .init h
  capacity := rfl
  pushed := rfl
  popped := Nat.zero_add _
  item := by
    rintro item ⟨⟩

/-- The loop goes on to the next item when the queue takes one. -/
theorem producerStep_cases (m : Main α) :
    m.toPush = [] ∧ m.producerStep = m ∨
    ∃ item rest, m.toPush = item :: rest ∧
      (m.state.pushAnswer = some true ∧
          m.producerStep = { m with state := m.state.pushStep item, toPush := rest } ∨
        m.state.pushAnswer ≠ some true ∧
          m.producerStep = { m with state := m.state.pushStep item }) := by
  unfold producerStep
  rcases hp : m.toPush with _ | ⟨item, rest⟩
  · exact .inl ⟨rfl, rfl⟩
  · refine .inr ⟨item, rest, rfl, ?_⟩
    by_cases hr : m.state.pushAnswer = some true
    · exact .inl ⟨hr, by simp only [if_pos hr]⟩
    · exact .inr ⟨hr, by simp only [if_neg hr, ← hp]⟩

theorem consumerStep_cases (m : Main α) :
    m.toPop = 0 ∧ m.consumerStep = m ∨
    ∃ left, m.toPop = left + 1 ∧
      ((∃ x, m.state.popAnswer = some (some x) ∧
          m.consumerStep = { m with state := m.state.popStep, toPop := left }) ∨
        (∀ x, m.state.popAnswer ≠ some (some x)) ∧
          m.consumerStep = { m with state := m.state.popStep }) := by
  unfold consumerStep
  rcases hp : m.toPop with _ | left
  · exact .inl ⟨rfl, rfl⟩
  · refine .inr ⟨left, rfl, ?_⟩
    rcases hr : m.state.popAnswer with _ | _ | x
    · exact .inr ⟨by simp, by simp only [← hp]⟩
    · exact .inr ⟨by simp, by simp only [← hp]⟩
    · exact .inl ⟨x, rfl, rfl⟩

theorem Inv.producerStep (h : Inv capacity items m) : Inv capacity items m.producerStep := by
  have hcap := fun item => (step_capacity m.state (.producer item)).trans h.capacity
  have hpushed := h.pushed
  have hitem := h.item
  rcases producerStep_cases m with ⟨-, he⟩ | ⟨item, rest, hp, ⟨hr, he⟩ | ⟨hr, he⟩⟩ <;> rw [he]
  · exact h
  · obtain ⟨item', hs, hpub, hidle⟩ := State.pushStep_publishes hr item
    rw [hp] at hpushed hitem
    obtain ⟨rest', hrest⟩ := hitem item' hs
    obtain ⟨rfl, rfl⟩ := List.cons.inj hrest
    refine ⟨h.state.pushStep item, hcap item, ?_, by simpa using h.popped, fun x hx => ?_⟩
    · simpa only [hpub, List.append_assoc, List.singleton_append] using hpushed
    · simp only [hidle] at hx
      cases hx
  · refine ⟨h.state.pushStep item, hcap item, ?_, by simpa using h.popped, fun x hx => ?_⟩
    · simpa only [State.pushStep_published hr] using hpushed
    · rcases State.pushStep_item hx with ⟨-, rfl⟩ | hs
      · exact ⟨rest, hp⟩
      · exact hitem x hs

theorem Inv.consumerStep (h : Inv capacity items m) : Inv capacity items m.consumerStep := by
  have hcap := (step_capacity m.state .consumer).trans h.capacity
  have hpopped := h.popped
  rcases consumerStep_cases m with ⟨-, he⟩ | ⟨left, hp, ⟨x, hr, he⟩ | ⟨hr, he⟩⟩ <;> rw [he]
  · exact h
  · refine ⟨h.state.popStep, hcap, by simpa using h.pushed, ?_, by simpa using h.item⟩
    simp only [(State.popStep_returns hr).1, List.length_append, List.length_singleton]
    omega
  · refine ⟨h.state.popStep, hcap, by simpa using h.pushed, ?_, by simpa using h.item⟩
    simpa only [h.state.popStep_returned hr] using hpopped

theorem Inv.step (h : Inv capacity items m) : ∀ p : Party, Inv capacity items (m.step p)
  | .producer => h.producerStep
  | .consumer => h.consumerStep

theorem Inv.returned (h : Inv capacity items m) :
    m.state.returned = (items.take m.state.returned.length).map some := by
  rw [← h.pushed, List.take_append_of_le_length h.state.behind]
  exact h.state.returned

theorem run_inv (h : 1 ≤ capacity) (items : List α) (schedule : List Party) :
    Inv capacity items (run capacity items schedule) :=
  List.foldlRecOn schedule Main.step (Inv.init h items) fun _ hm p _ => hm.step p

/-! ## Who is helpful -/

/-- The consumer while an item waits, else the producer. -/
def Helpful (m : Main α) : Party → Prop
  | .consumer => m.state.returned.length < m.state.published.length
  | .producer => m.state.returned.length = m.state.published.length ∧ m.toPush ≠ []

/-- The steps to the end, without those of calls that are refused. -/
def steps (m : Main α) : ℕ :=
  5 * m.toPush.length + 5 * m.toPop +
    if m.state.returned.length < m.state.published.length then m.state.pop.rank
    else m.state.push.rank

theorem steps_le (m : Main α) : m.steps ≤ 5 * m.toPush.length + 5 * m.toPop + 4 := by
  have hpush := m.state.push.rank_le
  have hpop := m.state.pop.rank_le
  unfold steps
  split_ifs <;> omega

theorem le_steps (m : Main α) : 5 * m.toPush.length + 5 * m.toPop ≤ m.steps := Nat.le_add_right _ _

theorem Inv.exists_helpful (h : Inv capacity items m) (hleft : ¬ m.Finished) : ∃ p, m.Helpful p := by
  rcases h.state.behind.lt_or_eq with hlt | heq
  · exact ⟨.consumer, hlt⟩
  · refine ⟨.producer, heq, fun hp => hleft ⟨hp, ?_⟩⟩
    have hpopped := h.popped
    rw [← h.pushed, hp, List.append_nil] at hpopped
    omega

theorem Inv.producerStep_steps (h : Inv capacity items m) (h₂ : 2 ≤ capacity) {p : Party}
    (hp : m.Helpful p) : m.producerStep.steps < m.steps ∨
      Party.producer ≠ p ∧ m.producerStep.steps = m.steps ∧ m.producerStep.Helpful p := by
  rcases producerStep_cases m with ⟨hnil, he⟩ | ⟨item, rest, hcons, ⟨hr, he⟩ | ⟨hr, he⟩⟩ <;> rw [he]
  · cases p with
    | producer => exact absurd hnil hp.2
    | consumer => exact .inr ⟨by decide, rfl, hp⟩
  · refine .inl ((steps_le _).trans_lt (lt_of_lt_of_le ?_ m.le_steps))
    simp only [hcons, List.length_cons]
    omega
  · cases p with
    | producer =>
      obtain ⟨hnone, -⟩ := hp
      have hcap : 2 ≤ m.state.cap := by
        rw [State.cap, h.capacity]
        exact UInt64.le_iff_toNat_le.mp h₂
      have hrank := h.state.pushStep_rank (by omega) hr item
      refine .inl ?_
      simp only [steps, State.pushStep_returned, State.pushStep_published hr,
        if_neg (Nat.not_lt.mpr hnone.ge)]
      omega
    | consumer =>
      refine .inr ⟨by decide, ?_, ?_⟩
      · simp only [steps, State.pushStep_returned, State.pushStep_published hr, State.pushStep_pop,
          if_pos (show m.state.returned.length < m.state.published.length from hp)]
      · simpa only [Helpful, State.pushStep_returned, State.pushStep_published hr] using hp

theorem Inv.consumerStep_steps (h : Inv capacity items m) {p : Party} (hp : m.Helpful p) :
    m.consumerStep.steps < m.steps ∨
      Party.consumer ≠ p ∧ m.consumerStep.steps = m.steps ∧ m.consumerStep.Helpful p := by
  have hbehind := h.state.behind
  rcases consumerStep_cases m with ⟨hnil, he⟩ | ⟨left, hsucc, ⟨x, hr, he⟩ | ⟨hr, he⟩⟩ <;> rw [he]
  · cases p with
    | producer => exact .inr ⟨by decide, rfl, hp⟩
    | consumer =>
      have hwaits : m.state.returned.length < m.state.published.length := hp
      have hpopped := h.popped
      rw [← h.pushed, List.length_append] at hpopped
      omega
  · refine .inl ((steps_le _).trans_lt (lt_of_lt_of_le ?_ m.le_steps))
    simp only [hsucc]
    omega
  · cases p with
    | producer =>
      refine .inr ⟨by decide, ?_, ?_⟩
      · simp only [steps, h.state.popStep_returned hr, State.popStep_published, State.popStep_push,
          if_neg (Nat.not_lt.mpr hp.1.ge)]
      · simpa only [Helpful, h.state.popStep_returned hr, State.popStep_published] using hp
    | consumer =>
      have hwaits : m.state.returned.length < m.state.published.length := hp
      have hrank := h.state.popStep_rank hwaits hr
      refine .inl ?_
      simp only [steps, h.state.popStep_returned hr, State.popStep_published, if_pos hwaits]
      omega

/-- With more than one slot, both threads come to their end. -/
theorem exists_finished (h₂ : 2 ≤ capacity) (items : List α) {schedule : ℕ → Party}
    (hfair : ∀ p, Fair.Recurs id schedule p) :
    ∃ n, (run capacity items (Fair.first schedule n)).Finished := by
  have h₁ : 1 ≤ capacity := by
    rw [UInt64.le_iff_toNat_le] at h₂ ⊢
    exact le_trans (by decide) h₂
  obtain ⟨n, -, hn⟩ := Fair.reaches_of_helpful (Inv capacity items) Finished steps Helpful id
    (fun _ p hm => hm.step p) (fun _ hm => hm.exists_helpful)
    (fun m i p hm _ hp => match i with
      | .producer => hm.producerStep_steps h₂ hp
      | .consumer => hm.consumerStep_steps hp)
    (fun _ p _ _ => hfair p) (k := 0) (Inv.init h₁ items)
  exact ⟨n, hn⟩

/-- With a single slot nothing is ever published. -/
theorem run_one_slot (items : List α) (schedule : List Party) :
    (run 1 items schedule).state.published = [] := by
  have h : Inv 1 items (run 1 items schedule) ∧ (run 1 items schedule).state.published = [] := by
    refine List.foldlRecOn (motive := fun m => Inv 1 items m ∧ m.state.published = []) schedule
      Main.step ⟨Inv.init (by decide) items, rfl⟩ fun m hm p _ => ⟨hm.1.step p, ?_⟩
    obtain ⟨hinv, hnone⟩ := hm
    cases p with
    | producer =>
      show m.producerStep.state.published = []
      rcases producerStep_cases m with ⟨-, he⟩ | ⟨item, rest, -, ⟨hr, he⟩ | ⟨hr, he⟩⟩ <;> rw [he]
      · exact hnone
      · have hroom := hinv.state.room_of_pushAnswer hr
        have hcap : m.state.cap = 1 := congrArg UInt64.toNat hinv.capacity
        have hbehind := hinv.state.behind
        omega
      · exact (State.pushStep_published hr item).trans hnone
    | consumer =>
      show m.consumerStep.state.published = []
      rcases consumerStep_cases m with ⟨-, he⟩ | ⟨left, -, ⟨x, -, he⟩ | ⟨-, he⟩⟩ <;> rw [he]
      · exact hnone
      · simpa using hnone
      · simpa using hnone
  exact h.2

theorem step_of_finished (hm : m.Finished) (p : Party) : m.step p = m := by
  cases p with
  | producer =>
    show m.producerStep = m
    unfold producerStep
    rw [hm.1]
  | consumer =>
    show m.consumerStep = m
    unfold consumerStep
    rw [hm.2]

/-- Whatever has been printed are the first items in their order. If both threads get their turn again
and again, they come to an end just when the queue has more than one slot (or there is nothing to
push), and then every item has been printed. -/
theorem run_prints (h : 1 ≤ capacity) (items : List α) {schedule : ℕ → Party}
    (hfair : ∀ p, Fair.Recurs id schedule p) :
    (∀ n, (run capacity items (Fair.first schedule n)).state.returned <+: items.map some) ∧
      ((∃ n, (run capacity items (Fair.first schedule n)).Finished) ↔ 2 ≤ capacity ∨ items = []) ∧
      ∀ n, (run capacity items (Fair.first schedule n)).Finished → ∀ k, n ≤ k →
        (run capacity items (Fair.first schedule k)).Finished ∧
          (run capacity items (Fair.first schedule k)).state.returned = items.map some := by
  refine ⟨fun n => ?_, ⟨fun ⟨n, hn⟩ => ?_, ?_⟩, fun n hn k hk => ?_⟩
  · rw [(run_inv h items _).returned]
    exact (List.take_prefix _ _).map _
  · by_contra hfew
    push Not at hfew
    obtain rfl : capacity = 1 := by
      obtain ⟨hless, -⟩ := hfew
      rw [UInt64.le_iff_toNat_le] at h hless
      exact UInt64.toNat_inj.mp (Nat.le_antisymm (Nat.le_of_lt_succ (Nat.lt_of_not_le hless)) h)
    have hpushed := (run_inv h items (Fair.first schedule n)).pushed
    rw [run_one_slot, hn.1] at hpushed
    exact hfew.2 hpushed.symm
  · rintro (h₂ | rfl)
    · exact exists_finished h₂ items hfair
    · exact ⟨0, rfl, rfl⟩
  · have hstay : run capacity items (Fair.first schedule k) =
        run capacity items (Fair.first schedule n) :=
      Fair.invariant_later (fun m => m = run capacity items (Fair.first schedule n))
        (fun m p hm => by
          rw [hm]
          exact step_of_finished hn p) rfl hk
    have hinv := run_inv h items (Fair.first schedule n)
    have hpopped := hinv.popped
    rw [hn.2, Nat.add_zero] at hpopped
    rw [hstay]
    refine ⟨hn, ?_⟩
    rw [hinv.returned, hpopped, List.take_length]

/-- Two hundred items through a hundred slots, the threads in turn. -/
theorem run_prints_inTurn :
    let schedule : ℕ → Party := fun n => if n % 2 = 0 then .producer else .consumer
    (∀ p, Fair.Recurs id schedule p) ∧
      (∀ n, (run 100 (List.range 200) (Fair.first schedule n)).state.returned <+:
        (List.range 200).map some) ∧
      ((∃ n, (run 100 (List.range 200) (Fair.first schedule n)).Finished) ↔
        (2 : UInt64) ≤ 100 ∨ List.range 200 = []) ∧
      ∀ n, (run 100 (List.range 200) (Fair.first schedule n)).Finished → ∀ k, n ≤ k →
        (run 100 (List.range 200) (Fair.first schedule k)).Finished ∧
          (run 100 (List.range 200) (Fair.first schedule k)).state.returned =
            (List.range 200).map some := by
  intro schedule
  have hfair : ∀ p, Fair.Recurs id schedule p := by
    refine fun p => Filter.frequently_atTop.mpr fun n => ?_
    cases p with
    | producer => exact ⟨2 * n, by omega, by simp [schedule]⟩
    | consumer => exact ⟨2 * n + 1, by omega, by simp [schedule]⟩
  exact ⟨hfair, run_prints (by decide) (List.range 200) hfair⟩

end Main

end SpscQueue

end SideProjects
