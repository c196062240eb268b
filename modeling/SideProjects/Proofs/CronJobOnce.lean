import SideProjects.Proofs.CronJobSchedule

/-!
# Each scheduled time at most once

The controller knows that a run has been started from the children that are left. A scheduled time
it has created a Job for is `Remembered` as long as a child of that time or a later one is left, or
there has been a later activation, and what is remembered is not created again. All that can make it
forget is the clean-up, when it deletes the child of the latest activation: then the next reconcile
creates a second Job for it (`created_twice`). In a run that spares such children (`Remembers`), each
scheduled time has at most one Job (`created_once`).
-/

namespace SideProjects

namespace CronJobController

/-- The schedule stands for the activation times `A`, which can be written down and read back. -/
structure Activations (env : Env) (cronJob : CronJob) (A : Set Time) : Prop where
  next : ∀ next, env.parseStandard cronJob.schedule = .ok next →
    ∀ t, IsLeast {a | a ∈ A ∧ t < a} (next t)
  written : ∀ t ∈ A, env.parse (env.format t) = .ok t
  not_empty : ∀ t ∈ A, (env.format t).length ≠ 0

/-- Some child has the scheduled time `t` or a later one. -/
def Covered (env : Env) (jobs : List Job) (t : Time) : Prop :=
  ∃ job ∈ jobs, ∃ u, scheduledAt env job = some u ∧ t ≤ u

/-- There is an activation after `t` and not after `now`. -/
def Passed (A : Set Time) (t now : Time) : Prop := ∃ a ∈ A, t < a ∧ a ≤ now

/-- A reconcile whose `getNextSchedule` does not get a time before one the clock has read. -/
def Onward (c : Cluster) : Move → Prop
  | .reconcile script => c.clock ≤ script.nowSchedule
  | _ => True

instance (c : Cluster) : ∀ move : Move, Decidable (Onward c move)
  | .reconcile script => inferInstanceAs (Decidable (c.clock ≤ script.nowSchedule))
  | .update _ _ => .isTrue trivial
  | .clock _ => .isTrue trivial

/-- A reconcile that, if it gets to the clean-up, spares a child of each scheduled time or of a later
one, unless there has been a later activation. -/
def Remembers (env : Env) (cronJob : CronJob) (A : Set Time) (c : Cluster) : Move → Prop
  | .reconcile script => script.CleansUp →
    ∀ job ∈ (c.listed script).jobs, ∀ t, scheduledAt env job = some t →
      (∃ kept ∈ (c.listed script).jobs, Spared cronJob (c.listed script).jobs kept ∧
        ∃ u, scheduledAt env kept = some u ∧ t ≤ u) ∨
      Passed A t script.nowSchedule
  | _ => True

def Remembered (env : Env) (A : Set Time) (c : Cluster) (t : Time) : Prop :=
  Covered env c.jobs t ∨ Passed A t c.clock

/-- No scheduled time has two Jobs, and, unless the CronJob is suspended, none will get a second. -/
structure Once (env : Env) (cronJob : CronJob) (A : Set Time) (c : Cluster) : Prop where
  activation : ∀ job ∈ c.created, ∃ t ∈ A, scheduledAt env job = some t
  distinct : (c.created.map (scheduledAt env)).Nodup
  remembered : cronJob.suspend ≠ some true →
    ∀ job ∈ c.created, ∀ t, scheduledAt env job = some t → Remembered env A c t

section Once

variable {env : Env} {cronJob : CronJob} {A : Set Time} {c c' : Cluster}

theorem Passed.mono {t now later : Time} (h : Passed A t now) (hl : now ≤ later) :
    Passed A t later := by
  obtain ⟨a, ha, hta, han⟩ := h
  exact ⟨a, ha, hta, le_trans han hl⟩

/-- What changes no Job that is to be remembered keeps `Once`. -/
theorem Once.evolve (h : Once env cronJob A c) (hcreated : c'.created = c.created)
    (hr : cronJob.suspend ≠ some true → ∀ t, Remembered env A c t → Remembered env A c' t) :
    Once env cronJob A c' where
  activation := by rw [hcreated]; exact h.activation
  distinct := by rw [hcreated]; exact h.distinct
  remembered hs := by
    rw [hcreated]
    exact fun job hjob t ht => hr hs t (h.remembered hs job hjob t ht)

theorem Evolves.remembered (h : Evolves Nobody c c') {t : Time} (hr : Remembered env A c t) :
    Remembered env A c' t := by
  rcases hr with ⟨job, hjob, u, hu, hle⟩ | hp
  · obtain ⟨new, hnew, hb⟩ := h.kept job hjob id
    exact .inl ⟨new, hnew, u, by rw [hb.scheduledAt_eq, hu], hle⟩
  · exact .inr (by rwa [h.clock])

/-- The clean-up keeps what is remembered, in a reconcile that `Remembers`. -/
theorem remembered_idle {script : Script} (hclean : script.CleansUp)
    (hm : Remembers env cronJob A c (.reconcile script)) {s : Time} (hs : script.nowSchedule ≤ s)
    (h : Evolves (Named (oldJobs env cronJob (classify env (c.listed script).jobs)))
      ((c.listed script).advance s) c') {t : Time} (hr : Remembered env A (c.listed script) t) :
    Remembered env A c' t := by
  have hle : script.nowSchedule ≤ c'.clock := by
    rw [h.clock]
    exact le_trans hs (le_max_right _ _)
  have hle' : (c.listed script).clock ≤ c'.clock := by
    rw [h.clock]
    exact le_max_left _ _
  rcases hr with ⟨job, hjob, u, hu, htu⟩ | hp
  · rcases hm hclean job hjob u hu with ⟨kept, hkept, hspared, v, hv, huv⟩ | ⟨a, ha, hua, han⟩
    · obtain ⟨new, hnew, hb⟩ :=
        h.kept kept hkept (not_named_of_spared (c.listed script).unique hkept hspared)
      exact .inl ⟨new, hnew, v, by rw [hb.scheduledAt_eq, hv], le_trans htu huv⟩
    · exact .inr ⟨a, ha, lt_of_le_of_lt htu hua, le_trans han hle⟩
  · exact .inr (hp.mono hle')

/-- A run that is due is later than all that is remembered. -/
theorem lt_of_due (hA : Activations env cronJob A) {script : Script} {missedRun t : Time}
    (hnow : c.clock ≤ script.nowSchedule) (hdue : script.due env cronJob c = some missedRun)
    (hr : Remembered env A (c.listed script) t) : t < missedRun := by
  obtain ⟨-, -, hlatest, hlast⟩ := dueRun_spec hA.next hdue
  rcases hr with ⟨job, hjob, u, hu, htu⟩ | ⟨a, ha, hta, han⟩
  · obtain ⟨m, hm, hum⟩ := classify_mostRecentTime hjob hu
    rw [hm] at hlast
    exact lt_of_le_of_lt (le_trans htu hum) hlast
  · rw [(evolves_listed c script).clock] at han
    exact lt_of_lt_of_le hta (hlatest a ha (le_trans han hnow))

theorem scheduledAt_construct (hA : Activations env cronJob A) {missedRun : Time} {job : Job}
    (ht : missedRun ∈ A) (h : constructJobForCronJob env cronJob missedRun = .ok job) :
    scheduledAt env job = some missedRun := by
  unfold constructJobForCronJob at h
  dsimp only at h
  split at h
  · cases h
  · cases h
    simp [scheduledAt, getScheduledTimeForJob, hA.not_empty _ ht, hA.written _ ht, Except.toOption]

/-- A due run that comes to nothing leaves everything before it behind. -/
theorem Once.passed (h : Once env cronJob A c) (hcreated : c'.created = c.created) {missedRun : Time}
    (hA : missedRun ∈ A) (hle : missedRun ≤ c'.clock)
    (hlt : ∀ t, Remembered env A c t → t < missedRun) : Once env cronJob A c' :=
  h.evolve hcreated fun _ t ht => .inr ⟨missedRun, hA, hlt t ht, hle⟩

/-- A due run whose Job is created is the first of its time. -/
theorem Once.create (h : Once env cronJob A c) {job : Job}
    {hname : ¬ c.has job.name} {missedRun : Time} (hA : missedRun ∈ A) (hle : missedRun ≤ c.clock)
    (ht : scheduledAt env job = some missedRun)
    (hlt : ∀ job ∈ c.created, ∀ t, scheduledAt env job = some t → t < missedRun) :
    Once env cronJob A (c.create job hname) where
  activation := by
    intro other ho
    rcases List.mem_append.mp ho with ho | ho
    · exact h.activation other ho
    · exact ⟨missedRun, hA, by rw [List.mem_singleton.mp ho, ht]⟩
  distinct := by
    show ((c.created ++ [job]).map (scheduledAt env)).Nodup
    rw [List.map_append, List.nodup_append]
    refine ⟨h.distinct, List.nodup_singleton _, fun x hx y hy hxy => ?_⟩
    obtain ⟨other, ho, rfl⟩ := List.mem_map.mp hx
    rw [List.mem_singleton.mp hy, ht] at hxy
    exact absurd (hlt other ho missedRun hxy) (lt_irrefl _)
  remembered := by
    intro _ other ho t hother
    rcases List.mem_append.mp ho with ho | ho
    · exact .inr ⟨missedRun, hA, hlt other ho t hother, hle⟩
    · rw [List.mem_singleton.mp ho, ht] at hother
      exact .inl ⟨job, List.mem_append_right _ (.head _), missedRun, ht,
        le_of_eq (Option.some.inj hother).symm⟩

theorem not_suspended_of_due {script : Script} {missedRun : Time}
    (hdue : script.due env cronJob c = some missedRun) : cronJob.suspend ≠ some true := by
  intro hs
  rw [Script.due, dueRun, if_pos hs] at hdue
  cases hdue

theorem reconcile_once (hA : Activations env cronJob A) {script : Script}
    (hclock : Onward c (.reconcile script)) (hm : Remembers env cronJob A c (.reconcile script))
    (h : Once env cronJob A c) :
    Once env cronJob A (reconcile env cronJob script ⟨c, []⟩).2.cluster := by
  have hlist := evolves_listed c script
  have hlisted : Once env cronJob A (c.listed script) :=
    h.evolve hlist.created fun _ _ => hlist.remembered
  cases reconcile_spec env cronJob script c with
  | unlisted evolves => exact h.evolve evolves.created fun _ _ => evolves.remembered
  | failed evolves => exact hlisted.evolve evolves.created fun _ _ => evolves.remembered
  | idle hclean _ hnow evolves =>
    exact hlisted.evolve evolves.created fun hs _ =>
      remembered_idle hclean hm (hnow.resolve_left hs) evolves
  | @due w r _ _ s missedRun _ hdue hnow evolves _ _ started =>
    obtain ⟨hT, hle, -, -⟩ := dueRun_spec hA.next hdue
    have hpassed : missedRun ≤ w.cluster.clock := by
      rw [evolves.clock]
      exact le_trans (le_trans hle hnow) (le_max_right _ _)
    have hgone : ∀ {gone c'}, Evolves gone w.cluster c' → Once env cronJob A c' := fun h' =>
      hlisted.passed (h'.created.trans evolves.created) hT (by rwa [h'.clock])
        fun _ => lt_of_due hA hclock hdue
    cases started with
    | given_up evolves' => exact hgone evolves'
    | tried evolves' _ _ _ construct hcluster _ =>
      obtain ⟨-, hr⟩ | ⟨-, hname, hr⟩ := hcluster <;> rw [hr]
      · exact hgone evolves'
      · refine (hgone evolves').create hT (by rwa [evolves'.clock])
          (scheduledAt_construct hA hT construct) fun job hjob t ht => lt_of_due hA hclock hdue ?_
        rw [evolves'.created, evolves.created] at hjob
        exact hlisted.remembered (not_suspended_of_due hdue) job hjob t ht

theorem step_once (hA : Activations env cronJob A) {move : Move} (hclock : Onward c move)
    (hm : Remembers env cronJob A c move) (h : Once env cronJob A c) :
    Once env cronJob A (step env cronJob c move) := by
  cases move with
  | update name status =>
    exact h.evolve rfl fun _ _ => (evolves_update c name status).remembered
  | clock t => exact h.evolve rfl fun _ _ => Or.imp id (Passed.mono · (le_max_left _ _))
  | reconcile script => exact reconcile_once hA hclock hm h

end Once

/-- In a run that spares the children of the latest activations, every Job the controller creates is
for an activation time, and no two are for the same. -/
theorem created_once {env : Env} {cronJob : CronJob} {A : Set Time}
    (hA : Activations env cronJob A) {c : Cluster} (hc : c.created = []) {moves : List Move}
    (hclock : Along (step env cronJob) Onward c moves)
    (h : Along (step env cronJob) (Remembers env cronJob A) c moves) {before after : List Move}
    (hmoves : moves = before ++ after) :
    (∀ job ∈ (run env cronJob c before).created, ∃ t ∈ A, scheduledAt env job = some t) ∧
      ∀ t, ((run env cronJob c before).created.filter (scheduledAt env · = some t)).length ≤ 1 := by
  subst hmoves
  have hstart : Once env cronJob A c := ⟨by simp [hc], by simp [hc], by simp [hc]⟩
  have hend : Once env cronJob A (run env cronJob c before) :=
    (along_append.mp (hclock.and h)).1.invariant (fun _ _ hi => step_once hA hi.1 hi.2) hstart
  refine ⟨hend.activation, fun t => ?_⟩
  have hcount := List.nodup_iff_count_le_one.mp hend.distinct (some t)
  rw [List.count, List.countP_map, List.countP_eq_length_filter] at hcount
  simpa only [Function.comp_def, beq_eq_decide] using hcount

/-! ## The hourly CronJob -/

theorem ofList_replicate_ne (n : ℕ) {s : String} (hs : s.toList.head? = some '2') :
    String.ofList (List.replicate (n + 1) 'x') ≠ s := by
  rintro rfl
  simp [List.replicate_succ] at hs

theorem activations_hourly (policy : ConcurrencyPolicy) (limit : Option Int32) :
    Activations hourly (report policy limit) fullHours where
  next := by
    rintro _ ⟨⟩ t
    exact isLeast_hourly t
  written := by
    intro t _
    simp only [hourly]
    by_cases h₁ : t = newYear
    · rw [if_pos h₁, if_pos rfl, h₁]
    by_cases h₂ : t = newYear + hour
    · rw [if_neg h₁, if_pos h₂, if_neg (by decide), if_pos rfl, h₂]
    · rw [if_neg h₁, if_neg h₂, if_neg (ofList_replicate_ne _ rfl),
        if_neg (ofList_replicate_ne _ rfl), String.length_ofList, List.length_replicate,
        Nat.add_sub_cancel, timeOfCode_timeCode]
  not_empty := by
    intro t _
    simp only [hourly]
    split_ifs
    · decide
    · decide
    · rw [String.length_ofList, List.length_replicate]
      exact Nat.succ_ne_zero _

theorem remembers_of_length_le {policy : ConcurrencyPolicy} {limit : Int32} {c : Cluster}
    {script : Script} (h : ((c.listed script).jobs.length : Int) ≤ limit.toInt) :
    Remembers hourly (report policy (some limit)) fullHours c (.reconcile script) := by
  intro _ job hjob t ht
  refine .inl ⟨job, hjob, spared_of_length_le hjob fun type l hl => ?_, t, ht, le_refl _⟩
  cases type <;> cases hl <;> exact h

/-- The Job of midnight finishes and is kept, and so it is not created again. -/
theorem created_once_hourly :
    let cronJob := report .allowConcurrent (some 1)
    let moves : List Move := [.reconcile (undisturbed newYear),
      .update "report-1735689600" ⟨[⟨.complete, .conditionTrue⟩], some newYear⟩,
      .reconcile (undisturbed newYear), .reconcile (undisturbed (newYear + hour))]
    Activations hourly cronJob fullHours ∧
      Along (step hourly cronJob) Onward .start moves ∧
      Along (step hourly cronJob) (Remembers hourly cronJob fullHours) .start moves ∧
      (run hourly cronJob .start moves).created.length = 2 ∧
      ((run hourly cronJob .start moves).created.filter
        (scheduledAt hourly · = some newYear)).length ≤ 1 := by
  intro cronJob moves
  have hA : Activations hourly cronJob fullHours := activations_hourly _ _
  have hclock : Along (step hourly cronJob) Onward .start moves := by decide +kernel
  have h : Along (step hourly cronJob) (Remembers hourly cronJob fullHours) .start moves :=
    ⟨remembers_of_length_le (by decide +kernel), trivial,
      remembers_of_length_le (by decide +kernel), remembers_of_length_le (by decide +kernel), trivial⟩
  exact ⟨hA, hclock, h, by decide +kernel,
    (created_once hA rfl hclock h (List.append_nil _).symm).2 newYear⟩

/-- Without a history, the Job of midnight is deleted once it has finished, and created again. -/
theorem created_twice :
    let cronJob := report .allowConcurrent (some 0)
    let moves : List Move := [.reconcile (undisturbed newYear),
      .update "report-1735689600" ⟨[⟨.complete, .conditionTrue⟩], some newYear⟩,
      .reconcile (undisturbed newYear), .reconcile (undisturbed newYear)]
    Activations hourly cronJob fullHours ∧ Cluster.start.created = [] ∧
      Along (step hourly cronJob) Onward .start moves ∧
      (run hourly cronJob .start moves).created.map (scheduledAt hourly) =
        [some newYear, some newYear] ∧
      ¬ ∀ t, ((run hourly cronJob .start moves).created.filter
        (scheduledAt hourly · = some t)).length ≤ 1 := by
  refine ⟨activations_hourly _ _, rfl, by decide +kernel, by decide +kernel, fun h => ?_⟩
  exact absurd (h newYear) (by decide +kernel)

end CronJobController

end SideProjects
