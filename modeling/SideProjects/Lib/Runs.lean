import Mathlib.Algebra.Ring.Nat
import Mathlib.Data.List.Basic

/-!
# Runs of a machine

`runAll step s inputs` feeds a machine one input after the other and collects what it answers. An
invariant that every step from it keeps, and that rules out failure, holds at the end of every run,
and no run fails (`runAll_invariant`). `feed` runs a machine that answers and cannot fail, and
`runAll_simulates` says when a run of the one is a run of the other. A machine that only has a state
runs by `List.foldl`, and `Along` says that each of its steps meets a condition. A method that throws
may leave its object changed, as a loop over the elements of a list does (`updateEach`).
-/

universe u v

namespace Except

variable {ε : Type u} {α β : Type v}

@[simp]
theorem ok_bind (a : α) (f : α → Except ε β) : (Except.ok a >>= f) = f a := rfl

@[simp]
theorem error_bind (e : ε) (f : α → Except ε β) : (Except.error e >>= f) = .error e := rfl

theorem bind_eq_ok {x : Except ε α} {f : α → Except ε β} {b : β} :
    x >>= f = .ok b ↔ ∃ a, x = .ok a ∧ f a = .ok b := by
  cases x <;> simp

@[simp]
theorem map_ok' (f : α → β) (a : α) : (Except.ok a : Except ε α).map f = .ok (f a) := rfl

@[simp]
theorem map_error' (f : α → β) (e : ε) : (Except.error e : Except ε α).map f = .error e := rfl

end Except

variable {σ ι ο ε : Type*}

/-! ## Runs that meet a condition -/

/-- Every step of the run meets `P` in the state it is taken from. -/
def Along (step : σ → ι → σ) (P : σ → ι → Prop) : σ → List ι → Prop
  | _, [] => True
  | s, i :: is => P s i ∧ Along step P (step s i) is

instance Along.decidable {step : σ → ι → σ} {P : σ → ι → Prop} [∀ s i, Decidable (P s i)] :
    ∀ (s : σ) (is : List ι), Decidable (Along step P s is)
  | _, [] => .isTrue trivial
  | s, i :: is =>
    have : Decidable (Along step P (step s i) is) := Along.decidable (step s i) is
    inferInstanceAs (Decidable (P s i ∧ Along step P (step s i) is))

theorem along_append {step : σ → ι → σ} {P : σ → ι → Prop} : ∀ {s : σ} {is js : List ι},
    Along step P s (is ++ js) ↔ Along step P s is ∧ Along step P (is.foldl step s) js
  | _, [], _ => by simp [Along]
  | s, i :: is, js => by
    simp only [List.cons_append, Along, along_append, List.foldl_cons, and_assoc]

theorem Along.and {step : σ → ι → σ} {P Q : σ → ι → Prop} : ∀ {s : σ} {is : List ι},
    Along step P s is → Along step Q s is → Along step (fun s i => P s i ∧ Q s i) s is
  | _, [], _, _ => trivial
  | _, _ :: _, ⟨hi, h⟩, ⟨hi', h'⟩ => ⟨⟨hi, hi'⟩, h.and h'⟩

/-- What steps that meet `P` keep, a run of such steps keeps. -/
theorem Along.invariant {step : σ → ι → σ} {P : σ → ι → Prop} {Inv : σ → Prop}
    (hstep : ∀ s i, P s i → Inv s → Inv (step s i)) : ∀ {s : σ} {is : List ι},
    Along step P s is → Inv s → Inv (is.foldl step s)
  | _, [], _, hs => hs
  | s, i :: _, ⟨hi, h⟩, hs => h.invariant hstep (hstep s i hi hs)

/-- An invariant that a step keeps just when it meets `P` holds all along a run just when all the
steps do. -/
theorem forall_take_iff_along {step : σ → ι → σ} {P : σ → ι → Prop} {Inv : σ → Prop}
    (hstep : ∀ s i, Inv s → (Inv (step s i) ↔ P s i)) : ∀ {s : σ} {is : List ι}, Inv s →
    ((∀ k, Inv ((is.take k).foldl step s)) ↔ Along step P s is)
  | _, [], hs => by simpa [Along] using hs
  | s, i :: is, hs => by
    constructor
    · intro h
      have hi : Inv (step s i) := by simpa using h 1
      refine ⟨(hstep s i hs).mp hi, (forall_take_iff_along hstep hi).mp fun k => ?_⟩
      simpa using h (k + 1)
    · rintro ⟨hi, h⟩ k
      have hnext := (hstep s i hs).mpr hi
      rcases k with _ | k
      · simpa using hs
      · simpa using (forall_take_iff_along hstep hnext).mpr h k

/-! ## Runs that may fail -/

/-- The answers to the inputs, and the state they lead to. -/
def runAll (step : σ → ι → Except ε (ο × σ)) : σ → List ι → Except ε (List ο × σ)
  | s, [] => .ok ([], s)
  | s, i :: is =>
    match step s i with
    | .error e => .error e
    | .ok (o, s') => (runAll step s' is).map fun r => (o :: r.1, r.2)

section runAll

variable {step : σ → ι → Except ε (ο × σ)}

theorem runAll_cons_ok {s s' : σ} {i : ι} {o : ο} (h : step s i = .ok (o, s')) (is : List ι) :
    runAll step s (i :: is) = (runAll step s' is).map fun r => (o :: r.1, r.2) := by
  simp only [runAll, h]

theorem runAll_cons_eq_ok {s s' : σ} {i : ι} {is : List ι} {os : List ο} :
    runAll step s (i :: is) = .ok (os, s') ↔ ∃ o s₁ os₁, step s i = .ok (o, s₁) ∧
      runAll step s₁ is = .ok (os₁, s') ∧ os = o :: os₁ := by
  rw [runAll]
  rcases step s i with e | ⟨o, s₁⟩
  · simp
  · rcases hr : runAll step s₁ is with e | ⟨os₁, s₂⟩
    · simp [hr]
    · simp [hr, and_comm, eq_comm]

theorem runAll_append {s s' : σ} {os : List ο} : ∀ {is : List ι},
    runAll step s is = .ok (os, s') → ∀ js, runAll step s (is ++ js) =
      (runAll step s' js).map fun r => (os ++ r.1, r.2)
  | [], h, js => by
    simp only [runAll, Except.ok.injEq, Prod.mk.injEq] at h
    obtain ⟨rfl, rfl⟩ := h
    rcases h : runAll step s js with e | r <;> simp [h]
  | i :: is, h, js => by
    simp only [runAll, List.cons_append] at h ⊢
    rcases hs : step s i with e | ⟨o, s₁⟩ <;> rw [hs] at h
    · simp at h
    · simp only at h ⊢
      rcases hr : runAll step s₁ is with e | ⟨os₁, s₂⟩ <;> rw [hr] at h <;> simp at h
      obtain ⟨rfl, rfl⟩ := h
      rw [runAll_append hr]
      cases runAll step s₂ js <;> simp

/-- What every step keeps, of the state and of all the answers so far, every run keeps. -/
theorem runAll_history (Inv : List ο → σ → Prop) {P : ι → Prop}
    (hstep : ∀ os s i, P i → Inv os s → ∃ o s', step s i = .ok (o, s') ∧ Inv (os ++ [o]) s') :
    ∀ (is : List ι) (os : List ο) (s : σ), (∀ i ∈ is, P i) → Inv os s →
      ∃ os' s', runAll step s is = .ok (os', s') ∧ Inv (os ++ os') s'
  | [], os, s, _, hs => ⟨[], s, rfl, by simpa using hs⟩
  | i :: is, os, s, hP, hs => by
    obtain ⟨o, s₁, h₁, hs₁⟩ := hstep os s i (hP i List.mem_cons_self) hs
    obtain ⟨os', s₂, h₂, hs₂⟩ := runAll_history Inv hstep is (os ++ [o]) s₁
      (fun j hj => hP j (List.mem_cons_of_mem _ hj)) hs₁
    exact ⟨o :: os', s₂, by rw [runAll_cons_ok h₁, h₂, Except.map_ok'], by simpa using hs₂⟩

/-- What every step keeps, every run keeps. -/
theorem runAll_invariant {Inv : σ → Prop} {P : ι → Prop}
    (hstep : ∀ s i, P i → Inv s → ∃ o s', step s i = .ok (o, s') ∧ Inv s')
    (is : List ι) (s : σ) (hP : ∀ i ∈ is, P i) (hs : Inv s) :
    ∃ os s', runAll step s is = .ok (os, s') ∧ Inv s' :=
  runAll_history (fun _ => Inv) (fun _ s i => hstep s i) is [] s hP hs

/-- A step may cost what its charge and what it takes from the potential pay for. Then the charges of
a run pay for all of it. -/
theorem runAll_potential {Inv : σ → Prop} {cost : ο → ℕ} {potential : σ → ℕ} {charge : ι → ℕ}
    (hstep : ∀ s i, Inv s → ∃ o s', step s i = .ok (o, s') ∧ Inv s' ∧
      cost o + potential s' ≤ potential s + charge i) :
    ∀ (is : List ι) (s : σ), Inv s → ∃ os s', runAll step s is = .ok (os, s') ∧ Inv s' ∧
      (os.map cost).sum + potential s' ≤ potential s + (is.map charge).sum
  | [], s, hs => ⟨[], s, rfl, hs, by simp⟩
  | i :: is, s, hs => by
    obtain ⟨o, s₁, h₁, hs₁, hle₁⟩ := hstep s i hs
    obtain ⟨os, s₂, h₂, hs₂, hle₂⟩ := runAll_potential hstep is s₁ hs₁
    refine ⟨o :: os, s₂, by rw [runAll_cons_ok h₁, h₂, Except.map_ok'], hs₂, ?_⟩
    simp only [List.map_cons, List.sum_cons]
    omega

/-- If a step from a good state has a good answer and leads to a good state exactly when it meets
`P`, then a run is good all along exactly when each of its steps meets `P`. -/
theorem runAll_prefixes_iff {Inv : σ → Prop} {Good : ο → Prop} {P : σ → ι → Prop}
    (hstep : ∀ s i, Inv s → ∃ o s', step s i = .ok (o, s') ∧ (Good o ∧ Inv s' ↔ P s i)) :
    ∀ (is : List ι) (s : σ), Inv s →
      ((∀ before, before <+: is → ∃ os s', runAll step s before = .ok (os, s') ∧
          (∀ o ∈ os, Good o) ∧ Inv s') ↔
        ∀ before i, before ++ [i] <+: is → ∀ os s', runAll step s before = .ok (os, s') → P s' i)
  | [], s, hs => by
    constructor
    · intro _ before i hpre
      simp at hpre
    · intro _ before hpre
      obtain rfl := List.prefix_nil.mp hpre
      exact ⟨[], s, rfl, by simp, hs⟩
  | i :: is, s, hs => by
    obtain ⟨o, s₁, h₁, hiff⟩ := hstep s i hs
    constructor
    · intro hall
      -- what a run that starts with `i` says of the run from `s₁`
      have hrest : ∀ before, before <+: is → ∃ os s', runAll step s₁ before = .ok (os, s') ∧
          (∀ o' ∈ o :: os, Good o') ∧ Inv s' := by
        intro before hpre
        obtain ⟨os, s', hr, hos, hs'⟩ := hall (i :: before) (List.cons_prefix_cons.mpr ⟨rfl, hpre⟩)
        obtain ⟨o', s₁', os₁, h₁', hr', rfl⟩ := runAll_cons_eq_ok.mp hr
        obtain ⟨rfl, rfl⟩ : o = o' ∧ s₁ = s₁' := by simpa [h₁] using h₁'
        exact ⟨os₁, s', hr', hos, hs'⟩
      have hgood : Good o ∧ Inv s₁ := by
        obtain ⟨os, s', hr, hos, hs'⟩ := hrest [] List.nil_prefix
        cases hr
        exact ⟨hos o List.mem_cons_self, hs'⟩
      intro before j hpre os s' hr
      cases before with
      | nil =>
        obtain rfl : j = i := by simpa using hpre
        cases hr
        exact hiff.mp hgood
      | cons k before =>
        obtain ⟨rfl, hpre'⟩ := List.cons_prefix_cons.mp hpre
        obtain ⟨o', s₁', os₁, h₁', hr', rfl⟩ := runAll_cons_eq_ok.mp hr
        obtain ⟨rfl, rfl⟩ : o = o' ∧ s₁ = s₁' := by simpa [h₁] using h₁'
        refine (runAll_prefixes_iff hstep is s₁ hgood.2).mp ?_ before j hpre' os₁ s' hr'
        intro before hpre
        obtain ⟨os, s', hr, hos, hs'⟩ := hrest before hpre
        exact ⟨os, s', hr, fun o' ho' => hos o' (List.mem_cons_of_mem _ ho'), hs'⟩
    · intro hall before hpre
      obtain ⟨ho, hs₁⟩ := hiff.mpr (hall [] i (by simp) [] s rfl)
      cases before with
      | nil => exact ⟨[], s, rfl, by simp, hs⟩
      | cons k before =>
        obtain ⟨rfl, hpre'⟩ := List.cons_prefix_cons.mp hpre
        obtain ⟨os, s', hr, hos, hs'⟩ :=
          (runAll_prefixes_iff hstep is s₁ hs₁).mpr (fun before j hpre os s' hr =>
            hall (k :: before) j (List.cons_prefix_cons.mpr ⟨rfl, hpre⟩) (o :: os) s'
              (runAll_cons_eq_ok.mpr ⟨o, s₁, os, h₁, hr, rfl⟩)) before hpre'
        exact ⟨o :: os, s', runAll_cons_eq_ok.mpr ⟨o, s₁, os, h₁, hr, rfl⟩,
          List.forall_mem_cons.mpr ⟨ho, hos⟩, hs'⟩

/-- The answers of a machine that cannot fail, and the state it ends in. -/
def feed {τ : Type*} (step : τ → ι → ο × τ) : τ → List ι → List ο × τ
  | t, [] => ([], t)
  | t, i :: is => ((step t i).1 :: (feed step (step t i).2 is).1, (feed step (step t i).2 is).2)

section feed

variable {τ : Type*} (step : τ → ι → ο × τ)

theorem feed_append (js : List ι) : ∀ (t : τ) (is : List ι),
    feed step t (is ++ js) = ((feed step t is).1 ++ (feed step (feed step t is).2 js).1,
      (feed step (feed step t is).2 js).2)
  | _, [] => rfl
  | t, i :: is => by
    rw [List.cons_append, feed, feed_append js (step t i).2 is, feed, List.cons_append]

theorem length_feed : ∀ (t : τ) (is : List ι), (feed step t is).1.length = is.length
  | _, [] => rfl
  | t, i :: is => by rw [feed, List.length_cons, length_feed, List.length_cons]

/-- Two machines that answer related inputs alike in every good state run alike. -/
theorem feed_congr {ι' : Type*} {step' : τ → ι' → ο × τ} {R : ι → ι' → Prop} {P : τ → ι → Prop}
    {Inv : τ → Prop}
    (hstep : ∀ t i i', R i i' → P t i → Inv t → step' t i' = step t i ∧ Inv (step t i).2) :
    ∀ {t : τ} {is : List ι} {is' : List ι'}, List.Forall₂ R is is' →
      Along (fun t i => (step t i).2) P t is → Inv t → feed step' t is' = feed step t is
  | _, _, _, .nil, _, _ => rfl
  | t, i :: is, i' :: is', .cons hi his, ⟨hp, hps⟩, ht => by
    obtain ⟨heq, hnext⟩ := hstep t i i' hi hp ht
    rw [feed, feed, heq, feed_congr hstep his hps hnext]

/-- A machine that answers as another one, in states that stand for each other, runs as the other. -/
theorem feed_simulates {σ : Type*} {stepTo : σ → ι → ο × σ} {R : τ → σ → Prop}
    (hstep : ∀ t s i, R t s → (step t i).1 = (stepTo s i).1 ∧ R (step t i).2 (stepTo s i).2) :
    ∀ {t : τ} {s : σ} (is : List ι), R t s → (feed step t is).1 = (feed stepTo s is).1 ∧
      R (feed step t is).2 (feed stepTo s is).2
  | _, _, [], h => ⟨rfl, h⟩
  | t, s, i :: is, h => by
    obtain ⟨ho, hnext⟩ := hstep t s i h
    obtain ⟨hos, hend⟩ := feed_simulates hstep is hnext
    exact ⟨by rw [feed, feed, ho, hos], hend⟩

/-- An answer is that to its input, after all the inputs before it. -/
theorem getElem?_feed {i : ι} : ∀ {t : τ} {is : List ι} {k : ℕ}, is[k]? = some i →
    (feed step t is).1[k]? = some (step (feed step t (is.take k)).2 i).1
  | t, j :: is, 0, h => by
    obtain rfl : j = i := by simpa using h
    rfl
  | t, j :: is, k + 1, h => by
    rw [List.getElem?_cons_succ] at h
    rw [feed, List.getElem?_cons_succ, getElem?_feed h, List.take_succ_cons, feed]

/-- A run with its answers, cut at one of them. -/
theorem zip_feed_split {i : ι} {o : ο} {after : List (ι × ο)} : ∀ {t : τ} {is : List ι}
    {before : List (ι × ο)}, is.zip (feed step t is).1 = before ++ (i, o) :: after →
    ∃ js ks, is = js ++ i :: ks ∧ (step (feed step t js).2 i).1 = o ∧
      after = ks.zip (feed step (step (feed step t js).2 i).2 ks).1
  | t, [], before, h => by simp at h
  | t, j :: is, [], h => by
    rw [feed, List.zip_cons_cons, List.nil_append, List.cons.injEq, Prod.mk.injEq] at h
    obtain ⟨⟨rfl, ho⟩, hafter⟩ := h
    exact ⟨[], is, rfl, ho, hafter.symm⟩
  | t, j :: is, r :: before, h => by
    rw [feed, List.zip_cons_cons, List.cons_append, List.cons.injEq] at h
    obtain ⟨js, ks, rfl, ho, hafter⟩ := zip_feed_split h.2
    exact ⟨j :: js, ks, rfl, ho, hafter⟩

end feed

/-- If every step gives the answer of another machine in the state it stands for, every run does. -/
theorem runAll_simulates {τ : Type*} {stepTo : τ → ι → ο × τ} {f : σ → τ} {Inv : σ → Prop}
    {P : ι → Prop}
    (hstep : ∀ s i, P i → Inv s → ∃ s', step s i = .ok ((stepTo (f s) i).1, s') ∧ Inv s' ∧
      f s' = (stepTo (f s) i).2) :
    ∀ (is : List ι) (s : σ), (∀ i ∈ is, P i) → Inv s →
      ∃ s', runAll step s is = .ok ((feed stepTo (f s) is).1, s') ∧ Inv s' ∧
        f s' = (feed stepTo (f s) is).2
  | [], s, _, hs => ⟨s, rfl, hs, rfl⟩
  | i :: is, s, hP, hs => by
    obtain ⟨s₁, h₁, hs₁, hf₁⟩ := hstep s i (hP i List.mem_cons_self) hs
    obtain ⟨s₂, h₂, hs₂, hf₂⟩ := runAll_simulates hstep is s₁
      (fun j hj => hP j (List.mem_cons_of_mem _ hj)) hs₁
    rw [hf₁] at h₂ hf₂
    exact ⟨s₂, by rw [runAll_cons_ok h₁, h₂, Except.map_ok']; rfl, hs₂, hf₂⟩

/-- If a machine answers the renamed inputs from a renamed state with the renamed answers, so it does
over every run. -/
theorem runAll_rename {σ' ι' ο' : Type*} {step' : σ' → ι' → Except ε (ο' × σ')} {f : σ → σ'}
    {g : ι → ι'} {k : ο → ο'} {Inv : σ → Prop}
    (hstep : ∀ s i, Inv s → ∃ o s', step s i = .ok (o, s') ∧ Inv s' ∧
      step' (f s) (g i) = .ok (k o, f s')) :
    ∀ (is : List ι) (s : σ), Inv s →
      runAll step' (f s) (is.map g) = (runAll step s is).map fun r => (r.1.map k, f r.2)
  | [], _, _ => rfl
  | i :: is, s, hs => by
    obtain ⟨o, s₁, h₁, hs₁, h₁'⟩ := hstep s i hs
    rw [List.map_cons, runAll_cons_ok h₁', runAll_cons_ok h₁, runAll_rename hstep is s₁ hs₁]
    cases runAll step s₁ is <;> rfl

/-- A machine that answers less runs as the machine that answers more. -/
theorem runAll_map {ο' : Type*} {step' : σ → ι → Except ε (ο' × σ)} (f : ο → ο')
    (h : ∀ s i, step' s i = (step s i).map fun r => (f r.1, r.2)) :
    ∀ (is : List ι) (s : σ),
      runAll step' s is = (runAll step s is).map fun r => (r.1.map f, r.2)
  | [], _ => rfl
  | i :: is, s => by
    simp only [runAll, h s i]
    rcases step s i with e | ⟨o, s'⟩
    · rfl
    · show (runAll step' s' is).map (fun r => (f o :: r.1, r.2)) =
        ((runAll step s' is).map fun r => (o :: r.1, r.2)).map fun r => (r.1.map f, r.2)
      rw [runAll_map f h is s']
      cases runAll step s' is <;> rfl

end runAll

/-! ## Calls that may throw -/

/-- A caller that catches nothing goes on with the object as the call has left it. -/
def uncaught : Except ε Unit × σ → Except ε σ
  | (.error e, _) => .error e
  | (.ok (), s) => .ok s

theorem uncaught_eq_ok {r : Except ε Unit × σ} {s : σ} : uncaught r = .ok s ↔ r = (.ok (), s) := by
  rcases r with ⟨e | ⟨⟩, s'⟩ <;> simp [uncaught]

/-- The elements are replaced in turn. Where that throws, the ones behind stay. -/
def updateEach (f : σ → Except ε Unit × σ) : List σ → Except ε Unit × List σ
  | [] => (.ok (), [])
  | s :: ss =>
    match f s with
    | (.error e, s') => (.error e, s' :: ss)
    | (.ok (), s') => ((updateEach f ss).1, s' :: (updateEach f ss).2)

section updateEach

variable (f : σ → Except ε Unit × σ)

theorem length_updateEach : ∀ ss : List σ, (updateEach f ss).2.length = ss.length
  | [] => rfl
  | s :: ss => by
    rw [updateEach]
    rcases f s with ⟨e | ⟨⟩, s'⟩
    · rfl
    · exact congrArg (· + 1) (length_updateEach ss)

variable {f}

/-- What every replacement keeps. -/
theorem forall_updateEach {P : σ → Prop} (hf : ∀ s, P s → P (f s).2) : ∀ {ss : List σ},
    (∀ s ∈ ss, P s) → ∀ s ∈ (updateEach f ss).2, P s
  | [], _ => by simp [updateEach]
  | s :: ss, h => by
    obtain ⟨hs, hss⟩ := List.forall_mem_cons.mp h
    have hs' := hf s hs
    rw [updateEach]
    rcases hr : f s with ⟨e | ⟨⟩, s'⟩ <;> rw [hr] at hs'
    · exact List.forall_mem_cons.mpr ⟨hs', hss⟩
    · exact List.forall_mem_cons.mpr ⟨hs', forall_updateEach hf hss⟩

theorem updateEach_of_ok : ∀ {ss : List σ}, (∀ s ∈ ss, (f s).1 = .ok ()) →
    updateEach f ss = (.ok (), ss.map fun s => (f s).2)
  | [], _ => rfl
  | s :: ss, h => by
    obtain ⟨hs, hss⟩ := List.forall_mem_cons.mp h
    rw [updateEach, List.map_cons, updateEach_of_ok hss]
    rcases hr : f s with ⟨e | ⟨⟩, s'⟩
    · rw [hr] at hs
      cases hs
    · rfl

theorem updateEach_eq_ok : ∀ {ss : List σ}, (updateEach f ss).1 = .ok () → ∀ s ∈ ss, (f s).1 = .ok ()
  | [], _ => by simp
  | s :: ss, h => by
    rw [updateEach] at h
    rcases hr : f s with ⟨e | ⟨⟩, s'⟩ <;> rw [hr] at h
    · cases h
    · exact List.forall_mem_cons.mpr ⟨congrArg Prod.fst hr, updateEach_eq_ok h⟩

theorem updateEach_append (ss' : List σ) : ∀ ss : List σ, updateEach f (ss ++ ss') =
    match updateEach f ss with
    | (.error e, ss₁) => (.error e, ss₁ ++ ss')
    | (.ok (), ss₁) => ((updateEach f ss').1, ss₁ ++ (updateEach f ss').2)
  | [] => rfl
  | s :: ss => by
    rw [List.cons_append, updateEach, updateEach, updateEach_append ss' ss]
    rcases f s with ⟨e | ⟨⟩, s'⟩
    · rfl
    · rcases updateEach f ss with ⟨e | ⟨⟩, ss₁⟩ <;> rfl

/-- Where a replacement throws, the elements before it have been replaced. -/
theorem updateEach_of_error {ss ss' : List σ} {s : σ} {e : ε} (hss : ∀ s ∈ ss, (f s).1 = .ok ())
    (hs : (f s).1 = .error e) :
    updateEach f (ss ++ s :: ss') = (.error e, (ss.map fun s => (f s).2) ++ (f s).2 :: ss') := by
  rw [updateEach_append, updateEach_of_ok hss, updateEach]
  rcases hr : f s with ⟨e' | ⟨⟩, s'⟩ <;> rw [hr] at hs <;> cases hs
  rfl

/-- The elements of all the lists are replaced in turn. -/
theorem updateEach_flatten : ∀ L : List (List σ), updateEach f L.flatten =
    ((updateEach (updateEach f) L).1, (updateEach (updateEach f) L).2.flatten)
  | [] => rfl
  | ss :: L => by
    rw [List.flatten_cons, updateEach_append, updateEach, updateEach_flatten L]
    rcases updateEach f ss with ⟨e | ⟨⟩, ss₁⟩ <;> rfl

end updateEach

/-! ## Machines without inputs -/

/-- The `k`th answer of a machine that only has one thing to do. -/
def nthAnswer {τ : Type*} (next : τ → ο × τ) : τ → ℕ → ο
  | t, 0 => (next t).1
  | t, k + 1 => nthAnswer next (next t).2 k

theorem nthAnswer_eq {τ : Type*} {next : τ → ο × τ} (value : ℕ → ο) (motive : ℕ → τ → Prop)
    (hnext : ∀ k t, motive k t → (next t).1 = value k ∧ motive (k + 1) (next t).2) {t : τ}
    (h : motive 0 t) (k : ℕ) : nthAnswer next t k = value k := by
  have key : ∀ (k j : ℕ) (t : τ), motive j t → nthAnswer next t k = value (j + k) := by
    intro k
    induction k with
    | zero => exact fun j t h => (hnext j t h).1
    | succ k ih =>
      intro j t h
      rw [nthAnswer, ih (j + 1) _ (hnext j t h).2, Nat.add_right_comm, Nat.add_assoc]
  rw [key k 0 t h, Nat.zero_add]

/-- What every pass of a loop over the first numbers keeps, the loop keeps. -/
theorem finFoldl_invariant {τ : Type*} {n : ℕ} {f : τ → Fin n → τ} {motive : ℕ → τ → Prop}
    (hstep : ∀ (i : Fin n) (t : τ), motive i t → motive (i + 1) (f t i)) {t : τ} (h : motive 0 t) :
    motive n (Fin.foldl n f t) := by
  induction n with
  | zero => exact h
  | succ n ih =>
    rw [Fin.foldl_succ_last]
    exact hstep (Fin.last n) _ (ih fun i t => hstep i.castSucc t)
